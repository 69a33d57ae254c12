import Harvest.Proofs.Crawl.Working

/-!
# Crawls that go on alike

How commits are processed depends neither on the positions nor on the requests and events of the
past, as long as the remote answers alike. So two crawls that agree in everything else go on alike,
and agree in everything else again.

## Main definitions

* `Database.core`, `Crawl.core` — all but the positions, the requests and the events
* `CrawlStep.Agree` — two steps go on alike from crawls with the same core
* `Crawler.withRemote` — the same crawler with another remote

## Main results

* `CrawlStep.Agree.bind_of` — sequences go on alike if their parts do
* `Crawler.agree_storeEntries`, `Crawler.agree_processCommit` — entries and commits
-/

namespace Harvest

open CrawlStep

namespace Database

/-- The database without the positions. -/
def core (d : Database) : Database := { d with positions := none }

variable {d d' : Database}

theorem eq_of_core (h : d.core = d'.core) : d' = { d with positions := d'.positions } := by
  cases d
  cases d'
  simp only [core, mk.injEq] at h
  obtain ⟨rfl, -, rfl, rfl, rfl, rfl, rfl, rfl, rfl⟩ := h
  rfl

theorem eq_of_core_of_positions (h : d.core = d'.core) (hp : d.positions = d'.positions) :
    d = d' := by
  rw [eq_of_core h, ← hp]

/-- The catalog goes by its own table. -/
theorem getOrCreateMedia_withPositions (d : Database) (p : Option Positions) (n : NewTitle)
    (m : MediaType) :
    ({ d with positions := p } : Database).getOrCreateMedia n m =
      ((d.getOrCreateMedia n m).1, { (d.getOrCreateMedia n m).2 with positions := p }) := by
  obtain ⟨version, positions, blobs, media, streams, files, _, _⟩ := d
  cases media <;> rfl

/-- So do the streams, which go by theirs. -/
theorem storeStreams_withPositions (d : Database) (p : Option Positions)
    (rs : List StreamRecord) :
    ({ d with positions := p } : Database).storeStreams rs =
      ((d.storeStreams rs).1, { (d.storeStreams rs).2 with positions := p }) := by
  have hplan : ({ d with positions := p } : Database).planStreams =
      (d.planStreams.1, { d.planStreams.2 with positions := p }) := by
    unfold planStreams
    dsimp only
    split
    · rfl
    · split <;> rfl
  unfold storeStreams
  rw [hplan]
  split
  · rfl
  · cases d.planStreams with
    | mk planned d =>
      cases planned with
      | error e => rfl
      | ok _ =>
        have hrows : ({ d with positions := p } : Database).streamRows = d.streamRows := rfl
        simp only [hrows]
        cases d.streamRows.bind fun streams => StreamTables.storeAll ⟨streams, d.files⟩ rs <;> rfl

end Database

namespace Crawl

/-- The crawl without the positions, and without the requests and events of the past. -/
def core (s : Crawl) : Crawl := { s with db := s.db.core, calls := [], events := [] }

/-- The crawl with other positions. -/
def withPositions (s : Crawl) (p : Positions) : Crawl :=
  { s with db := { s.db with positions := some p } }

variable {s t : Crawl}

@[simp] theorem core_call (k : RemoteCall) : (s.call k).core = s.core := rfl

@[simp] theorem core_log (e : Event) : (s.log e).core = s.core := rfl

@[simp] theorem core_withPositions (p : Positions) : (s.withPositions p).core = s.core := rfl

theorem withPositions_self {p : Positions} (hp : s.db.positions = some p) :
    s.withPositions p = s := by
  unfold withPositions
  rw [← hp]

theorem core_eq_iff :
    s.core = t.core ↔ s.db.core = t.db.core ∧ s.cache = t.cache ∧ s.queries = t.queries := by
  simp [core]

theorem core_withDb (h : s.core = t.core) {d d' : Database} (hd : d.core = d'.core) :
    ({ s with db := d } : Crawl).core = ({ t with db := d' } : Crawl).core := by
  obtain ⟨-, hcache, hqueries⟩ := core_eq_iff.mp h
  exact core_eq_iff.mpr ⟨hd, hcache, hqueries⟩

end Crawl

namespace CrawlStep

variable {α β : Type} {part : CrawlPart}

/-- From crawls with the same core the steps end with the same value or error, in crawls with the
same core. -/
def Agree (x y : CrawlStep α) : Prop :=
  ∀ s t : Crawl, s.core = t.core → (x s).1 = (y t).1 ∧ (x s).2.core = (y t).2.core

theorem agree_pure (a : α) : Agree (pure a) (pure a) := fun _ _ h => ⟨rfl, h⟩

theorem agree_throw (e : CrawlError) : Agree (throw e : CrawlStep α) (throw e) :=
  fun _ _ h => ⟨rfl, h⟩

/-- Sequences agree if their first parts do, and their second parts wherever the first ones lead. -/
theorem Agree.bind_of {x y : CrawlStep α} {f g : α → CrawlStep β} (hx : Agree x y)
    (hf : ∀ s t a u v, x s = (.ok a, u) → y t = (.ok a, v) → u.core = v.core →
      (f a u).1 = (g a v).1 ∧ (f a u).2.core = (g a v).2.core) :
    Agree (x >>= f) (y >>= g) := by
  intro s t h
  obtain ⟨hvalue, hcore⟩ := hx s t h
  rw [bind_run, bind_run]
  cases hxs : x s with
  | mk r u =>
    cases hyt : y t with
    | mk r' v =>
      rw [hxs, hyt] at hvalue hcore
      obtain rfl : r = r' := hvalue
      cases r with
      | ok a => exact hf s t a u v hxs hyt hcore
      | error e => exact ⟨rfl, hcore⟩

theorem Agree.bind {x y : CrawlStep α} {f g : α → CrawlStep β} (hx : Agree x y)
    (hf : ∀ a, Agree (f a) (g a)) : Agree (x >>= f) (y >>= g) :=
  hx.bind_of fun _ _ a u v _ _ h => hf a u v h

theorem Agree.during {x y : CrawlStep α} (part : CrawlPart) (h : Agree x y) :
    Agree (x.during part) (y.during part) := by
  intro s t hst
  obtain ⟨hvalue, hcore⟩ := h s t hst
  unfold CrawlStep.during
  cases hxs : x s with
  | mk r u =>
    cases hyt : y t with
    | mk r' v =>
      rw [hxs, hyt] at hvalue hcore
      obtain rfl : r = r' := hvalue
      cases r <;> exact ⟨rfl, hcore⟩

theorem Agree.attempt {x y : CrawlStep α} (h : Agree x y) : Agree x.attempt y.attempt := by
  intro s t hst
  obtain ⟨hvalue, hcore⟩ := h s t hst
  exact ⟨congrArg Except.ok hvalue, hcore⟩

/-- A statement that does not read the positions. -/
theorem agree_query {f : Database → Except StoreError α}
    (hf : ∀ d p, f { d with positions := p } = f d) : Agree (query part f) (query part f) := by
  intro s t h
  have hdb := Database.eq_of_core (Crawl.core_eq_iff.mp h).1
  have hanswer : f t.db = f s.db := by rw [hdb, hf]
  unfold query
  rw [hanswer]
  cases f s.db <;> exact ⟨rfl, h⟩

/-- A statement that writes the database and does not touch the positions. -/
theorem agree_update {f : Database → Except StoreError Database}
    (hf : ∀ d p, f { d with positions := p } = (f d).map fun d => { d with positions := p }) :
    Agree (update part f) (update part f) := by
  intro s t h
  have hdb := Database.eq_of_core (Crawl.core_eq_iff.mp h).1
  have hanswer : f t.db = (f s.db).map fun d => { d with positions := t.db.positions } := by
    rw [← hf, ← hdb]
  unfold update
  rw [hanswer]
  cases f s.db with
  | ok d => exact ⟨rfl, Crawl.core_withDb h rfl⟩
  | error e => exact ⟨rfl, h⟩

/-- A statement that may write the database even if it fails, and does not touch the positions. -/
theorem agree_perform {f : Database → Except StoreError α × Database}
    (hf : ∀ d p, f { d with positions := p } = ((f d).1, { (f d).2 with positions := p })) :
    Agree (perform part f) (perform part f) := by
  intro s t h
  have hdb := Database.eq_of_core (Crawl.core_eq_iff.mp h).1
  have hanswer : f t.db = ((f s.db).1, { (f s.db).2 with positions := t.db.positions }) := by
    rw [← hf, ← hdb]
  unfold perform
  rw [hanswer]
  cases hs : f s.db with
  | mk r d => cases r <;> exact ⟨rfl, Crawl.core_withDb h rfl⟩

end CrawlStep

namespace Crawler

/-- The same crawler with another remote. -/
def withRemote (c : Crawler) (r : Remote) : Crawler := { c with remote := r }

variable {c : Crawler}

/-! ### Entries -/

theorem agree_canonicalId (id : Nat) : Agree (canonicalId id) (canonicalId id) :=
  agree_query fun _ _ => rfl

theorem agree_linkFirst (m : MediaType) (ns : List NewTitle) :
    Agree (linkFirst m ns) (linkFirst m ns) := by
  induction ns with
  | nil => exact agree_pure _
  | cons n ns ih =>
    refine .bind (agree_perform fun d p => d.getOrCreateMedia_withPositions p n m) fun found => ?_
    cases found with
    | some t => exact agree_canonicalId t.id
    | none => exact ih

theorem agree_resolve (r : ResolutionRequest) : Agree (c.resolve r) (c.resolve r) := by
  have hcatalog : Agree (c.resolveInCatalog r) (c.resolveInCatalog r) := by
    refine .bind (agree_query fun _ _ => rfl) fun ts => ?_
    cases ts.find? (c.acceptsTitle r) with
    | some t => exact agree_canonicalId t.id
    | none => exact agree_pure _
  have hask : Agree (c.ask (c.queryOf r)) (c.ask (c.queryOf r)) := by
    -- an answer may depend on the queries of the past, and these belong to the core
    intro s t h
    obtain ⟨hdb, hcache, hqueries⟩ := Crawl.core_eq_iff.mp h
    refine ⟨?_, Crawl.core_eq_iff.mpr ⟨hdb, hcache, ?_⟩⟩
    · exact congrArg (fun past => Except.ok (c.search past (c.queryOf r))) hqueries
    · exact congrArg (· ++ [c.queryOf r]) hqueries
  refine hcatalog.bind fun found => ?_
  cases found with
  | some id => exact agree_pure _
  | none =>
    refine hask.bind fun answer => ?_
    cases answer with
    | found results => exact agree_linkFirst _ _
    | failed => exact agree_pure _
    | timedOut => exact agree_pure _

theorem agree_remember (k : ResolutionKey) (id : Option String) :
    Agree (remember k id) (remember k id) := by
  intro s t h
  obtain ⟨hdb, hcache, hqueries⟩ := Crawl.core_eq_iff.mp h
  exact ⟨rfl, Crawl.core_eq_iff.mpr ⟨hdb, congrArg (·.insert k id) hcache, hqueries⟩⟩

theorem agree_cache : Agree CrawlStep.cache CrawlStep.cache := by
  intro s t h
  obtain ⟨-, hcache, -⟩ := Crawl.core_eq_iff.mp h
  exact ⟨congrArg Except.ok hcache, h⟩

theorem agree_resolveEach (rs : List ResolutionRequest) :
    Agree (c.resolveEach rs) (c.resolveEach rs) := by
  induction rs with
  | nil => exact agree_pure _
  | cons r rs ih =>
    refine .bind (agree_resolve r).attempt fun result => ?_
    cases result with
    | ok id => exact .bind (agree_remember _ _) fun _ => ih
    | error e =>
      -- the other names are resolved all the same
      exact .bind ih.attempt fun _ => agree_throw e

/-- Where the crawl stands does not matter for what is stored of the entries of a list. -/
theorem agree_storeEntries (entries : List Entry) (createdAt : Moment) :
    Agree (c.storeEntries entries createdAt) (c.storeEntries entries createdAt) := by
  have hlinked : ∀ rs, Agree (c.resolveAll rs) (c.resolveAll rs) := fun rs =>
    agree_cache.bind fun _ => agree_resolveEach _
  refine .bind ((hlinked _).during _) fun _ => .bind agree_cache fun cache =>
    .bind (agree_perform fun d p => d.storeStreams_withPositions p _) fun _ => agree_pure _

/-! ### Files and commits -/

section Remotes

variable {r : Remote}

theorem resolveEach_withRemote (c : Crawler) (r : Remote) (rs : List ResolutionRequest) :
    (c.withRemote r).resolveEach rs = c.resolveEach rs := by
  induction rs with
  | nil => rfl
  | cons q rs ih =>
    have hresolve : (c.withRemote r).resolve q = c.resolve q := rfl
    simp only [resolveEach, hresolve, ih]

/-- Storing entries asks nothing of the remote. -/
theorem storeEntries_withRemote (c : Crawler) (r : Remote) (entries : List Entry)
    (createdAt : Moment) :
    (c.withRemote r).storeEntries entries createdAt = c.storeEntries entries createdAt := by
  simp only [storeEntries, resolveAll, resolveEach_withRemote]

theorem agree_isProcessed (f : ChangedFile) : Agree (isProcessed f) (isProcessed f) := by
  unfold isProcessed
  cases f.blob with
  | none => exact agree_pure _
  | some b => exact agree_query fun _ _ => rfl

theorem agree_markProcessed (f : ChangedFile) : Agree (markProcessed f) (markProcessed f) := by
  unfold markProcessed
  cases f.blob with
  | none => exact agree_pure _
  | some b =>
    refine agree_update fun d p => ?_
    obtain ⟨version, positions, blobs, media, streams, files, _, _, refusal⟩ := d
    cases hrefusal : refusal (.insertBlob b) <;> cases blobs <;>
      simp [Database.insertBlob, Database.writable, Database.table, Except.bind, Except.map,
        hrefusal]

theorem agree_report (e : Event) : Agree (CrawlStep.report e) (CrawlStep.report e) :=
  fun _ _ h => ⟨rfl, h⟩

theorem agree_processText (d : CommitDetail) (f : ChangedFile) (html : String) :
    Agree ((c.withRemote r).processText d f html) (c.processText d f html) := by
  have hreport : ∀ status detail, Agree (reportFile d f status detail)
      (reportFile d f status detail) := fun _ _ => agree_report _
  have hsettings : (c.withRemote r).settings = c.settings := rfl
  unfold processText
  simp only [hsettings, storeEntries_withRemote]
  cases Snapshot.fragment? c.settings.host html with
  | none =>
    exact .bind (agree_markProcessed f) fun _ => .bind (hreport _ _) fun _ => agree_pure _
  | some fragment =>
    simp only
    cases Snapshot.entriesOfPayload fragment with
    | error e =>
      simp only
      split
      · exact .bind (agree_markProcessed f) fun _ => .bind (hreport _ _) fun _ => agree_pure _
      · exact .bind (hreport _ _) fun _ => agree_pure _
    | ok entries =>
      exact .bind ((agree_storeEntries entries d.date).during _) fun _ =>
        .bind (agree_markProcessed f) fun _ => .bind (hreport _ _) fun _ => agree_pure _

/-- Files are dealt with alike if their texts are the same. -/
theorem agree_processFile (hraw : ∀ past past', r.raw past = c.remote.raw past')
    (d : CommitDetail) (f : ChangedFile) :
    Agree ((c.withRemote r).processFile d f) (c.processFile d f) := by
  have hfetch : Agree ((c.withRemote r).raw f.url) (c.raw f.url) := fun s t h =>
    ⟨congrArg Except.ok (congrFun (hraw s.calls t.calls) f.url), h⟩
  refine .bind (agree_isProcessed f) fun known => ?_
  cases known with
  | true => exact .bind (agree_report _) fun _ => agree_pure _
  | false =>
    refine .bind hfetch fun answer => ?_
    cases answer with
    | error e => exact .bind (agree_report _) fun _ => agree_pure _
    | ok html => exact agree_processText d f html

/-- Commits are processed alike if their details and the texts of their files are the same. -/
theorem agree_processCommit (hraw : ∀ past past', r.raw past = c.remote.raw past') {sha : String}
    (hcommit : ∀ past past', r.commit past sha = c.remote.commit past' sha) (pass : Pass) :
    Agree ((c.withRemote r).processCommit pass sha) (c.processCommit pass sha) := by
  have hfiles : ∀ d fs, Agree ((c.withRemote r).processFiles d fs) (c.processFiles d fs) := by
    intro d fs
    induction fs with
    | nil => exact agree_pure _
    | cons f fs ih =>
      exact .bind (agree_processFile hraw d f) fun _ => .bind ih fun _ => agree_pure _
  have hfetch : Agree ((c.withRemote r).commit sha) (c.commit sha) := fun s t h =>
    ⟨congrArg Except.ok (hcommit s.calls t.calls), h⟩
  refine .bind hfetch fun answer => ?_
  cases answer with
  | error e => exact agree_pure _
  | ok d => exact .bind (hfiles d _) fun _ => .bind (agree_report _) fun _ => agree_pure _

end Remotes

/-- A remote whose answers do not change makes all crawls with the same core process a commit
alike. -/
theorem agree_processCommit_of_steady (hsteady : c.remote.IsSteady) (pass : Pass) (sha : String) :
    Agree (c.processCommit pass sha) (c.processCommit pass sha) :=
  agree_processCommit (r := c.remote) (fun past past' => (hsteady past past').2.2)
    (fun past past' => congrFun (hsteady past past').2.1 sha) pass

end Crawler

end Harvest
