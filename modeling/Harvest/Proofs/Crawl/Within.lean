import Harvest.Crawl.Run
import Mathlib.Order.Defs.Unbundled

/-!
# What steps of a crawl leave alone

A step is within a relation if it leads from every state to a related one, whether it ends with a
value or with an error. For a preorder this passes from the parts of a step to the whole, so a
fact about a pass is proved once for each of its statements. Storing the entries of a snapshot is
within `Crawl.SameProgress`: it touches nothing but the catalog, the streams, the remembered
resolutions and the queries.

## Main definitions

* `CrawlStep.Within` — a step leads from every state to a related one
* `Crawl.log`, `Crawl.call`, `Crawl.ask` — a state after one more event, request or query
* `Crawl.withMedia` — a state with another catalog
* `Crawl.SameProgress` — two states that differ in catalog, streams, resolutions and queries only
* `Snapshot.prospects` — the entries of a snapshot that may be linked to a title

## Main results

* `CrawlStep.bind_ok`, `CrawlStep.bind_error` — how a sequence of two steps ends
* `CrawlStep.Within.bind` — a sequence of steps is within what its parts are within
* `Crawler.within_storeEntries_of` — storing entries is within what its statements are within
* `Crawler.within_storeEntries` — storing entries changes no progress
-/

namespace Harvest

namespace CrawlStep

variable {α β : Type} {R : Crawl → Crawl → Prop} {s t : Crawl}

theorem exists_run {x : CrawlStep α} {r : Except CrawlError α} (h : (x s).1 = r) :
    ∃ t, x s = (r, t) :=
  ⟨(x s).2, Prod.ext h rfl⟩

/-- A sequence goes on with the value of its first part. -/
theorem bind_eq {x : CrawlStep α} {f : α → CrawlStep β} {a : α} (hx : x s = (.ok a, t)) :
    (x >>= f) s = f a t := by
  rw [bind_run, hx]

/-- A sequence that ends with a value has passed through a value of its first part. -/
theorem bind_ok {x : CrawlStep α} {f : α → CrawlStep β} {b : β} (h : (x >>= f) s = (.ok b, t)) :
    ∃ a u, x s = (.ok a, u) ∧ f a u = (.ok b, t) := by
  rw [bind_run] at h
  cases hx : x s with
  | mk r u =>
    rw [hx] at h
    cases r with
    | ok a => exact ⟨a, u, rfl, h⟩
    | error e => cases h

/-- A sequence that ends with an error has had it in its first part or in its second. -/
theorem bind_error {x : CrawlStep α} {f : α → CrawlStep β} {e : CrawlError}
    (h : (x >>= f) s = (.error e, t)) :
    x s = (.error e, t) ∨ ∃ a u, x s = (.ok a, u) ∧ f a u = (.error e, t) := by
  rw [bind_run] at h
  cases hx : x s with
  | mk r u =>
    rw [hx] at h
    cases r with
    | ok a => exact .inr ⟨a, u, rfl, h⟩
    | error e' =>
      left
      cases h
      rfl

theorem pure_ok {a b : α} (h : (pure a : CrawlStep α) s = (.ok b, t)) : b = a ∧ t = s := by
  cases h
  exact ⟨rfl, rfl⟩

theorem query_ok {part : CrawlPart} {f : Database → Except StoreError α} {a : α}
    (h : query part f s = (.ok a, t)) : t = s ∧ f s.db = .ok a := by
  unfold query at h
  cases hf : f s.db with
  | error e => rw [hf] at h; cases h
  | ok b =>
    rw [hf] at h
    cases h
    exact ⟨rfl, rfl⟩

theorem update_ok {part : CrawlPart} {f : Database → Except StoreError Database}
    (h : update part f s = (.ok (), t)) : ∃ d, f s.db = .ok d ∧ t = { s with db := d } := by
  unfold update at h
  cases hf : f s.db with
  | error e => rw [hf] at h; cases h
  | ok d =>
    rw [hf] at h
    cases h
    exact ⟨d, rfl, rfl⟩

theorem update_error {part : CrawlPart} {f : Database → Except StoreError Database}
    {e : CrawlError} (h : update part f s = (.error e, t)) :
    t = s ∧ ∃ e', f s.db = .error e' ∧ e = ⟨[part], e'⟩ := by
  unfold update at h
  cases hf : f s.db with
  | ok d => rw [hf] at h; cases h
  | error e' =>
    rw [hf] at h
    cases h
    exact ⟨rfl, e', rfl, rfl⟩

theorem during_ok {x : CrawlStep α} {part : CrawlPart} {a : α}
    (h : x.during part s = (.ok a, t)) : x s = (.ok a, t) := by
  unfold CrawlStep.during at h
  cases hx : x s with
  | mk r u =>
    rw [hx] at h
    cases r with
    | ok b => exact h
    | error e => cases h

theorem during_error {x : CrawlStep α} {part : CrawlPart} {e : CrawlError}
    (h : x.during part s = (.error e, t)) : ∃ e', x s = (.error e', t) := by
  unfold CrawlStep.during at h
  cases hx : x s with
  | mk r u =>
    rw [hx] at h
    cases r with
    | ok b => cases h
    | error e' =>
      cases h
      exact ⟨e', rfl⟩

theorem perform_ok {part : CrawlPart} {f : Database → Except StoreError α × Database} {a : α}
    (h : perform part f s = (.ok a, t)) : ∃ d, f s.db = (.ok a, d) ∧ t = { s with db := d } := by
  unfold perform at h
  cases hf : f s.db with
  | mk r d =>
    rw [hf] at h
    cases r with
    | error e => cases h
    | ok b =>
      cases h
      exact ⟨d, rfl, rfl⟩

theorem perform_error {part : CrawlPart} {f : Database → Except StoreError α × Database}
    {e : CrawlError} (h : perform part f s = (.error e, t)) :
    ∃ e' d, f s.db = (.error e', d) ∧ t = { s with db := d } := by
  unfold perform at h
  cases hf : f s.db with
  | mk r d =>
    rw [hf] at h
    cases r with
    | ok a => cases h
    | error e' =>
      cases h
      exact ⟨e', d, rfl, rfl⟩

theorem withFreshCache_ok {x : CrawlStep α} {a : α} (h : x.withFreshCache s = (.ok a, t)) :
    ∃ u, x { s with cache := {} } = (.ok a, u) ∧ t = { u with cache := s.cache } := by
  unfold CrawlStep.withFreshCache at h
  cases hx : x { s with cache := {} } with
  | mk r u =>
    rw [hx] at h
    cases h
    exact ⟨u, rfl, rfl⟩

/-- The step leads from every state to a related one, however it ends. -/
def Within (R : Crawl → Crawl → Prop) (x : CrawlStep α) : Prop := ∀ s, R s (x s).2

theorem Within.of_run {x : CrawlStep α} {r : Except CrawlError α} (hx : Within R x)
    (h : x s = (r, t)) : R s t := by
  simpa [h] using hx s

theorem Within.during {x : CrawlStep α} (part : CrawlPart) (hx : Within R x) :
    Within R (x.during part) := by
  intro s
  have hs := hx s
  unfold CrawlStep.during
  cases h : x s with
  | mk r t => cases r <;> simpa [h] using hs

theorem Within.attempt {x : CrawlStep α} (hx : Within R x) : Within R x.attempt := hx

theorem within_update {part : CrawlPart} {f : Database → Except StoreError Database}
    (hrefl : ∀ s, R s s) (h : ∀ s db, f s.db = .ok db → R s { s with db := db }) :
    Within R (update part f) := by
  intro s
  unfold update
  cases hf : f s.db with
  | ok db => exact h s db hf
  | error e => exact hrefl s

theorem perform_snd (part : CrawlPart) (f : Database → Except StoreError α × Database) (s : Crawl) :
    (perform part f s).2 = { s with db := (f s.db).2 } := by
  unfold perform
  cases hf : f s.db with
  | mk r db => cases r <;> rfl

theorem within_perform {part : CrawlPart} {f : Database → Except StoreError α × Database}
    (h : ∀ s, R s { s with db := (f s.db).2 }) : Within R (perform part f) := by
  intro s
  rw [perform_snd]
  exact h s

/-- Keeping a property is a preorder. -/
instance {Q : Crawl → Prop} : IsPreorder Crawl fun s t => Q s → Q t where
  refl _ := id
  trans _ _ _ h h' := h' ∘ h

/-- So is keeping a value. -/
instance {β : Type} {g : Crawl → β} : IsPreorder Crawl fun s t => g t = g s where
  refl _ := rfl
  trans _ _ _ h h' := h'.trans h

section Preorder

variable [IsPreorder Crawl R]

theorem within_pure (a : α) : Within R (pure a : CrawlStep α) := fun s => refl_of R s

theorem within_throw (e : CrawlError) : Within R (throw e : CrawlStep α) := fun s => refl_of R s

theorem within_query (part : CrawlPart) (f : Database → Except StoreError α) :
    Within R (query part f) := by
  intro s
  unfold query
  cases f s.db <;> exact refl_of R s

/-- A sequence leads from one state to a related one if its parts do so on the way. -/
theorem bind_within {x : CrawlStep α} {f : α → CrawlStep β} (hx : R s (x s).2)
    (hf : ∀ a t, x s = (.ok a, t) → R t (f a t).2) : R s ((x >>= f) s).2 := by
  rw [bind_run]
  cases h : x s with
  | mk r t =>
    rw [h] at hx
    cases r with
    | ok a => exact trans_of R hx (hf a t h)
    | error e => exact hx

/-- A sequence of steps is within what its parts are within, the second one as far as the first one
leads to it. -/
theorem Within.bind_of {x : CrawlStep α} {f : α → CrawlStep β} (hx : Within R x)
    (hf : ∀ s a t, x s = (.ok a, t) → R t (f a t).2) : Within R (x >>= f) :=
  fun s => bind_within (hx s) (hf s)

/-- A sequence of steps is within what its parts are within. -/
theorem Within.bind {x : CrawlStep α} {f : α → CrawlStep β} (hx : Within R x)
    (hf : ∀ a, Within R (f a)) : Within R (x >>= f) :=
  hx.bind_of fun _ a t _ => hf a t

end Preorder

end CrawlStep

namespace Crawl

/-- The state after one more event. -/
def log (s : Crawl) (e : Event) : Crawl := { s with events := s.events ++ [e] }

/-- The state after one more request to the remote. -/
def call (s : Crawl) (k : RemoteCall) : Crawl := { s with calls := s.calls ++ [k] }

/-- The state after one more query to the external search. -/
def ask (s : Crawl) (q : SearchQuery) : Crawl := { s with queries := s.queries ++ [q] }

/-- The state with another catalog, or with none. -/
def withMedia (s : Crawl) (media : Option MediaTable) : Crawl :=
  { s with db := { s.db with media := media } }

@[simp] theorem db_log (s : Crawl) (e : Event) : (s.log e).db = s.db := rfl

@[simp] theorem calls_log (s : Crawl) (e : Event) : (s.log e).calls = s.calls := rfl

@[simp] theorem events_log (s : Crawl) (e : Event) : (s.log e).events = s.events ++ [e] := rfl

@[simp] theorem db_call (s : Crawl) (k : RemoteCall) : (s.call k).db = s.db := rfl

@[simp] theorem calls_call (s : Crawl) (k : RemoteCall) : (s.call k).calls = s.calls ++ [k] := rfl

@[simp] theorem events_call (s : Crawl) (k : RemoteCall) : (s.call k).events = s.events := rfl

/-- The states stand alike in the history: the positions, the snapshots that need no further work,
the changes that are refused, the requests and the events are the same. -/
structure SameProgress (s t : Crawl) : Prop where
  positions : t.db.positions = s.db.positions
  blobs : t.db.blobs = s.db.blobs
  refusal : t.db.refusal = s.db.refusal
  calls : t.calls = s.calls
  events : t.events = s.events

instance : IsPreorder Crawl SameProgress where
  refl _ := ⟨rfl, rfl, rfl, rfl, rfl⟩
  trans _ _ _ h h' :=
    ⟨h'.positions.trans h.positions, h'.blobs.trans h.blobs, h'.refusal.trans h.refusal,
      h'.calls.trans h.calls, h'.events.trans h.events⟩

end Crawl

/-- The entries of a snapshot that may be linked to a title, one for every hash. -/
def Snapshot.prospects (entries : List Entry) : List Prospect :=
  (Snapshot.verdicts entries).filterMap EntryVerdict.prospect?

/-! ### The catalog and the streams -/

namespace Database

theorem getOrCreateMedia_progress (d : Database) (n : NewTitle) (m : MediaType) :
    (d.getOrCreateMedia n m).2.positions = d.positions ∧
      (d.getOrCreateMedia n m).2.blobs = d.blobs ∧
      (d.getOrCreateMedia n m).2.refusal = d.refusal := by
  unfold getOrCreateMedia
  cases d.catalog with
  | error e => exact ⟨rfl, rfl, rfl⟩
  | ok t => exact ⟨rfl, rfl, rfl⟩

theorem planStreams_progress (d : Database) :
    d.planStreams.2.positions = d.positions ∧ d.planStreams.2.blobs = d.blobs ∧
      d.planStreams.2.refusal = d.refusal := by
  unfold planStreams
  split
  · exact ⟨rfl, rfl, rfl⟩
  · split <;> exact ⟨rfl, rfl, rfl⟩

theorem storeStreams_progress (d : Database) (rs : List StreamRecord) :
    (d.storeStreams rs).2.positions = d.positions ∧ (d.storeStreams rs).2.blobs = d.blobs ∧
      (d.storeStreams rs).2.refusal = d.refusal := by
  have hplan := d.planStreams_progress
  unfold storeStreams
  split
  · exact ⟨rfl, rfl, rfl⟩
  · cases h : d.planStreams with
    | mk r d' =>
      rw [h] at hplan
      cases r with
      | error e => exact hplan
      | ok _ =>
        simp only
        split <;> exact hplan

end Database

namespace Crawler

open CrawlStep Crawl

variable (c : Crawler)

section Within

variable {c} {R : Crawl → Crawl → Prop} [IsPreorder Crawl R]

/-- Linking is within what its offers to the catalog are within. -/
theorem within_linkFirst {m : MediaType}
    (hoffer : ∀ s n, R s { s with db := (s.db.getOrCreateMedia n m).2 }) (ns : List NewTitle) :
    Within R (linkFirst m ns) := by
  induction ns with
  | nil => exact within_pure _
  | cons n ns ih =>
    refine .bind (within_perform fun s => hoffer s n) fun found => ?_
    cases found with
    | some t => exact within_query _ _
    | none => exact ih

/-- Linking a name is within what its query and its offers to the catalog are within. -/
theorem within_resolve (hoffer : ∀ s n m, R s { s with db := (s.db.getOrCreateMedia n m).2 })
    (hask : ∀ s queries, R s { s with queries := queries }) (r : ResolutionRequest) :
    Within R (c.resolve r) := by
  refine .bind (.bind (within_query _ _) fun ts => ?_) fun found => ?_
  · cases ts.find? (c.acceptsTitle r) with
    | some t => exact within_query _ _
    | none => exact within_pure _
  · cases found with
    | some id => exact within_pure _
    | none =>
      refine .bind (fun s => hask s _) fun answer => ?_
      cases answer with
      | found results => exact within_linkFirst (fun s n => hoffer s n _) _
      | failed => exact within_pure _
      | timedOut => exact within_pure _

/-- Linking names is within what linking one of them and remembering its link are within. -/
theorem within_resolveEach (hresolve : ∀ r, Within R (c.resolve r))
    (hremember : ∀ s r id t, c.resolve r s = (.ok id, t) →
      R t { t with cache := t.cache.insert r.key id }) (rs : List ResolutionRequest) :
    Within R (c.resolveEach rs) := by
  induction rs with
  | nil => exact within_pure _
  | cons r rs ih =>
    refine Within.bind_of (hresolve r).attempt fun s result t h => ?_
    cases h
    cases hr : (c.resolve r s).1 with
    | ok id => exact trans_of R (hremember s r id _ (Prod.ext hr rfl)) (ih _)
    | error e => exact Within.bind ih.attempt (fun _ => within_throw e) _

/-- Storing entries is within what linking their names, remembering the links and storing the
records are within. -/
theorem within_storeEntries_of {entries : List Entry} {createdAt : Moment}
    (hresolve : ∀ r, Within R (c.resolve r))
    (hremember : ∀ s r id t, c.resolve r s = (.ok id, t) →
      R t { t with cache := t.cache.insert r.key id })
    (hstore : ∀ s : Crawl, R s { s with db := (s.db.storeStreams
      (Prospect.records (Snapshot.prospects entries) s.cache createdAt)).2 }) :
    Within R (c.storeEntries entries createdAt) := by
  have hlinked : Within R (c.resolveAll (Prospect.requests (Snapshot.prospects entries))) :=
    .bind (fun s => refl_of R s) fun _ => within_resolveEach hresolve hremember _
  refine .bind (hlinked.during _) fun _ => .bind_of (fun s => refl_of R s) fun s cache t h => ?_
  -- what is stored goes by the links that are remembered at that moment
  cases h
  refine bind_within ?_ fun _ u _ => refl_of R u
  rw [perform_snd]
  exact hstore s

end Within

/-! ### The external search -/

variable {c} {r : ResolutionRequest} {s : Crawl}

/-- If the search answers, the results that are accepted are offered to the catalog. -/
theorem resolveBySearch_of_found {results : List SearchResult}
    (h : c.search s.queries (c.queryOf r) = .found results) : c.resolveBySearch r s =
      linkFirst r.key.mediaType (results.filterMap (c.acceptedTitle? r)) (s.ask (c.queryOf r)) := by
  refine (bind_eq (t := s.ask (c.queryOf r)) rfl).trans ?_
  rw [h]

/-- If it does not, there is no title. -/
theorem resolveBySearch_of_not_found
    (h : ∀ results, c.search s.queries (c.queryOf r) ≠ .found results) :
    c.resolveBySearch r s = (.ok none, s.ask (c.queryOf r)) := by
  refine (bind_eq (t := s.ask (c.queryOf r)) rfl).trans ?_
  cases hanswer : c.search s.queries (c.queryOf r) with
  | found results => exact absurd hanswer (h results)
  | failed | timedOut => rfl

variable (c)

/-- Storing the entries of a snapshot changes neither where the crawl stands nor which snapshots
need no further work, asks nothing of the remote and reports nothing. -/
theorem within_storeEntries (entries : List Entry) (createdAt : Moment) :
    Within SameProgress (c.storeEntries entries createdAt) := by
  refine within_storeEntries_of
    (within_resolve (fun s n m => ?_) fun _ _ => ⟨rfl, rfl, rfl, rfl, rfl⟩)
    (fun _ _ _ _ _ => ⟨rfl, rfl, rfl, rfl, rfl⟩) fun s => ?_
  · obtain ⟨hp, hb, hr⟩ := s.db.getOrCreateMedia_progress n m
    exact ⟨hp, hb, hr, rfl, rfl⟩
  · obtain ⟨hp, hb, hr⟩ := s.db.storeStreams_progress
      (Prospect.records (Snapshot.prospects entries) s.cache createdAt)
    exact ⟨hp, hb, hr, rfl, rfl⟩

end Crawler

end Harvest
