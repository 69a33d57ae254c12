import Harvest.Proofs.Crawl.Links

/-!
# What is remembered of links

Names are linked in batches, and what they are linked to is remembered. The history of a batch is the
list of its attempts: which name was to be linked, what the external search was asked for it, and how
this ended. Nothing that is remembered is ever replaced. For each key without a link there is one
attempt, with the first name that has the key, and a link is remembered exactly if its attempt has
not failed, a link to no title included. So a second batch with the same names tries again where the
first one has failed, and nowhere else, and as long as no attempt fails there is one for each key,
however many batches there are.

## Main definitions

* `Attempt` — an attempt to link a name
* `Crawler.Tries`, `Crawler.Attempts` — the attempts by which one crawl becomes another
* `Crawler.Batch` — what is remembered after a batch of names, and how it ends
* `Batches`, `Crawl.History` — batches in a row, with the same links remembered, and their attempts

## Main results

* `Crawler.exists_attempts` — names are linked by one attempt each
* `Crawler.Attempts.get?_iff` — what is remembered after attempts for different keys
* `Crawler.Attempts.pending_eq` — what is to be attempted again
* `Crawler.exists_batch` — every batch goes this way
* `Batches.exists_history` — over all batches in a row, there is one attempt for each key
* `Crawler.resolveAll_writeOnce` — both
-/

namespace Harvest

open CrawlStep

/-! ### Attempts -/

/-- An attempt to link a name. -/
structure Attempt where
  /-- The name. -/
  request : ResolutionRequest
  /-- What was asked of the external search, if anything was. -/
  query? : Option SearchQuery
  /-- How the attempt ended: with a title, with no title, or with an error. -/
  outcome : Except CrawlError (Option String)

namespace Attempt

variable {a : Attempt} {cache : ResolutionCache} {k : ResolutionKey} {id : Option String}

/-- The key of the name. -/
def key (a : Attempt) : ResolutionKey := a.request.key

/-- The error with which the attempt ended. -/
def failure? (a : Attempt) : Option CrawlError :=
  match a.outcome with
  | .ok _ => none
  | .error e => some e

/-- What is remembered after the attempt. -/
def remember (a : Attempt) (cache : ResolutionCache) : ResolutionCache :=
  match a.outcome with
  | .ok id => cache.insert a.key id
  | .error _ => cache

theorem failure?_eq_none_iff : a.failure? = none ↔ ∃ id, a.outcome = .ok id := by
  unfold failure?
  cases a.outcome <;> simp

/-- A link is added for a key that had none. -/
theorem get?_remember (hnew : cache.get? a.key = none) : (a.remember cache).get? k = some id ↔
    cache.get? k = some id ∨ a.key = k ∧ a.outcome = .ok id := by
  unfold remember
  cases a.outcome with
  | error e => simp
  | ok found =>
    dsimp only
    rw [ResolutionCache.get?_insert]
    by_cases hk : k = a.key
    · subst hk
      simp [hnew]
    · simp [hk, Ne.symm hk]

end Attempt

/-- The error of the first attempt that failed. -/
def firstFailure (as : List Attempt) : Except CrawlError Unit :=
  match as.findSome? Attempt.failure? with
  | none => .ok ()
  | some e => .error e

theorem firstFailure_eq_error_iff {as : List Attempt} {e : CrawlError} :
    firstFailure as = .error e ↔ as.findSome? Attempt.failure? = some e := by
  unfold firstFailure
  cases as.findSome? Attempt.failure? <;> simp

theorem firstFailure_eq_ok_iff {as : List Attempt} :
    firstFailure as = .ok () ↔ ∀ a ∈ as, ∃ id, a.outcome = .ok id := by
  have hnone : firstFailure as = .ok () ↔ as.findSome? Attempt.failure? = none := by
    unfold firstFailure
    cases as.findSome? Attempt.failure? <;> simp
  rw [hnone, List.findSome?_eq_none_iff]
  exact forall₂_congr fun a _ => Attempt.failure?_eq_none_iff

/-- The links that are remembered and the queries that were put are the same. -/
structure Crawl.SameLinks (s t : Crawl) : Prop where
  cache : t.cache = s.cache
  queries : t.queries = s.queries

instance : IsPreorder Crawl Crawl.SameLinks where
  refl _ := ⟨rfl, rfl⟩
  trans _ _ _ h h' := ⟨h'.cache.trans h.cache, h'.queries.trans h.queries⟩

namespace Crawler

open Crawl

variable {c : Crawler} {s t u : Crawl} {r : ResolutionRequest} {rs : List ResolutionRequest}
  {as : List Attempt}

/-- The attempt is made between one crawl and another. The external search is asked for the name, or
not at all. -/
structure Tries (c : Crawler) (s : Crawl) (a : Attempt) (t : Crawl) : Prop where
  run : c.resolve a.request s = (a.outcome, t)
  query : ∀ q ∈ a.query?, q = c.queryOf a.request
  queries : t.queries = s.queries ++ a.query?.toList

/-- The attempts by which one crawl becomes another. What was found is remembered each time. -/
inductive Attempts (c : Crawler) : Crawl → List Attempt → Crawl → Prop
  | here (s : Crawl) : Attempts c s [] s
  | next {a : Attempt} {as : List Attempt} {s t u : Crawl} (htry : c.Tries s a t)
      (h : Attempts c { t with cache := a.remember t.cache } as u) : Attempts c s (a :: as) u

theorem sameLinks_resolveInCatalog (r : ResolutionRequest) :
    Within SameLinks (c.resolveInCatalog r) := by
  refine .bind (within_query _ _) fun ts => ?_
  cases ts.find? (c.acceptsTitle r) with
  | some t => exact within_query _ _
  | none => exact within_pure _

/-- Nothing is asked after the one query. -/
theorem sameLinks_resolveBySearch (r : ResolutionRequest) (s : Crawl) :
    (s.ask (c.queryOf r)).SameLinks (c.resolveBySearch r s).2 := by
  by_cases hanswer : ∃ results, c.search s.queries (c.queryOf r) = .found results
  · obtain ⟨results, hfound⟩ := hanswer
    rw [resolveBySearch_of_found hfound]
    exact within_linkFirst (fun _ _ => ⟨rfl, rfl⟩) _ _
  · rw [resolveBySearch_of_not_found (not_exists.mp hanswer)]
    exact refl_of SameLinks _

/-- Linking a name puts one query at most, and remembers nothing by itself. -/
theorem resolve_asks (c : Crawler) (r : ResolutionRequest) (s : Crawl) :
    ∃ q : Option SearchQuery, (∀ x ∈ q, x = c.queryOf r) ∧
      (c.resolve r s).2.queries = s.queries ++ q.toList ∧ (c.resolve r s).2.cache = s.cache := by
  have hcatalog := sameLinks_resolveInCatalog (c := c) r s
  rw [resolve, bind_run]
  cases hfound : c.resolveInCatalog r s with
  | mk result t =>
    rw [hfound] at hcatalog
    have hnone : ∀ x ∈ (none : Option SearchQuery), x = c.queryOf r :=
      fun x hx => absurd hx (Option.not_mem_none x)
    have silent : t.queries = s.queries ++ (none : Option SearchQuery).toList :=
      hcatalog.queries.trans (List.append_nil _).symm
    cases result with
    | error e => exact ⟨none, hnone, silent, hcatalog.cache⟩
    | ok found =>
      cases found with
      | some id => exact ⟨none, hnone, silent, hcatalog.cache⟩
      | none =>
        have hsearch := sameLinks_resolveBySearch (c := c) r t
        refine ⟨some (c.queryOf r), fun x hx => (Option.mem_some_iff.mp hx).symm, ?_, ?_⟩
        · exact hsearch.queries.trans (congrArg (· ++ _) hcatalog.queries)
        · exact hsearch.cache.trans hcatalog.cache

theorem cache_of_resolve {result : Except CrawlError (Option String)}
    (h : c.resolve r s = (result, t)) : t.cache = s.cache := by
  obtain ⟨_, -, -, hcache⟩ := c.resolve_asks r s
  rwa [h] at hcache

/-- Names are linked by one attempt each, in order, and the first error counts. -/
theorem exists_attempts (c : Crawler) (rs : List ResolutionRequest) (s : Crawl) :
    ∃ as, c.Attempts s as (c.resolveEach rs s).2 ∧ as.map Attempt.request = rs ∧
      (c.resolveEach rs s).1 = firstFailure as := by
  induction rs generalizing s with
  | nil => exact ⟨[], .here s, rfl, rfl⟩
  | cons r rs ih =>
    obtain ⟨q, hquery, hasked, -⟩ := c.resolve_asks r s
    rw [resolveEach, bind_run, CrawlStep.attempt]
    cases hrun : c.resolve r s with
    | mk result t =>
      rw [hrun] at hasked
      cases result with
      | ok id =>
        obtain ⟨as, hrest, hrequests, hresult⟩ := ih { t with cache := t.cache.insert r.key id }
        refine ⟨⟨r, q, .ok id⟩ :: as, .next ⟨hrun, hquery, hasked⟩ hrest, ?_, hresult⟩
        rw [List.map_cons, hrequests]
      | error e =>
        obtain ⟨as, hrest, hrequests, -⟩ := ih t
        refine ⟨⟨r, q, .error e⟩ :: as, .next ⟨hrun, hquery, hasked⟩ hrest, ?_, rfl⟩
        rw [List.map_cons, hrequests]

theorem Attempts.queries (h : c.Attempts s as t) :
    t.queries = s.queries ++ as.filterMap Attempt.query? := by
  induction h with
  | here s => exact (List.append_nil _).symm
  | @next a as s t u htry h ih =>
    rw [ih]
    change t.queries ++ _ = _
    rw [htry.queries, List.append_assoc, List.filterMap_cons]
    cases a.query? <;> rfl

theorem Attempts.exists_tries (h : c.Attempts s as t) :
    ∀ a ∈ as, ∃ u v, c.Tries u a v := by
  induction h with
  | here s => exact List.forall_mem_nil _
  | next htry _ ih => exact List.forall_mem_cons.mpr ⟨⟨_, _, htry⟩, ih⟩

/-- After attempts for different keys that have no link, the links are remembered that the attempts
have found. -/
theorem Attempts.get?_iff (h : c.Attempts s as t) (hnodup : (as.map Attempt.key).Nodup)
    (hnew : ∀ a ∈ as, s.cache.get? a.key = none) (k : ResolutionKey) (id : Option String) :
    t.cache.get? k = some id ↔
      s.cache.get? k = some id ∨ ∃ a ∈ as, a.key = k ∧ a.outcome = .ok id := by
  induction h with
  | here s => simp
  | @next a as s t u htry h ih =>
    obtain ⟨ha, hnodup⟩ := List.nodup_cons.mp hnodup
    obtain ⟨hfirst, hrest⟩ := List.forall_mem_cons.mp hnew
    have hcache : t.cache = s.cache := cache_of_resolve htry.run
    rw [← hcache] at hfirst hrest ⊢
    -- the keys of the other attempts still have no link
    have hstill : ∀ b ∈ as, (a.remember t.cache).get? b.key = none := by
      intro b hb
      refine Option.eq_none_iff_forall_ne_some.mpr fun id' hid => ?_
      rcases (Attempt.get?_remember hfirst).mp hid with hid | ⟨hkey, -⟩
      · exact Option.some_ne_none _ (hid.symm.trans (hrest b hb))
      · exact ha (hkey ▸ List.mem_map_of_mem hb)
    rw [ih hnodup hstill, Attempt.get?_remember hfirst, or_assoc]
    simp only [List.mem_cons, exists_eq_or_imp]

/-! ### Batches -/

/-- The names for which nothing is remembered: those without a link, the first one for each key. -/
theorem pending_eq (cache : ResolutionCache) (rs : List ResolutionRequest) : pending cache rs =
    (rs.filter fun r => !cache.contains r.key).eraseDupsBy fun q r => q.key == r.key :=
  firstOfEach_eq_eraseDupsBy _ _

theorem nodup_keys_pending (cache : ResolutionCache) (rs : List ResolutionRequest) :
    ((pending cache rs).map (·.key)).Nodup := nodup_map_firstOfEach _ _

theorem mem_keys_pending {cache : ResolutionCache} {k : ResolutionKey} :
    k ∈ (pending cache rs).map (·.key) ↔ k ∈ rs.map (·.key) ∧ cache.contains k = false := by
  unfold pending
  rw [mem_map_firstOfEach, List.mem_map, List.mem_map]
  constructor
  · rintro ⟨r, hr, rfl⟩
    obtain ⟨hmem, hnew⟩ := List.mem_filter.mp hr
    exact ⟨⟨r, hmem, rfl⟩, by simpa using hnew⟩
  · rintro ⟨⟨r, hmem, rfl⟩, hnew⟩
    exact ⟨r, List.mem_filter.mpr ⟨hmem, by rw [hnew]; rfl⟩, rfl⟩

theorem pending_eq_nil {cache : ResolutionCache} (h : ∀ r ∈ rs, cache.contains r.key = true) :
    pending cache rs = [] := by
  have hnone : (rs.filter fun r => !cache.contains r.key) = [] :=
    List.filter_eq_nil_iff.mpr fun r hr => by rw [h r hr]; exact Bool.false_ne_true
  rw [pending, hnone]
  rfl

/-- What is pending while more is remembered is pending before as well. -/
theorem pending_of_le {cache cache' : ResolutionCache}
    (hle : ∀ k, cache.contains k = true → cache'.contains k = true) :
    pending cache' rs = (pending cache rs).filter fun r => !cache'.contains r.key := by
  unfold pending
  rw [← firstOfEach_filter ResolutionRequest.key fun k => !cache'.contains k, List.filter_filter]
  refine congrArg _ (List.filter_congr fun r _ => ?_)
  cases hr : cache.contains r.key with
  | false => rw [Bool.not_false, Bool.and_true]
  | true => rw [hle _ hr, Bool.not_true, Bool.false_and]

/-- What is remembered after a batch of names, and how it ends. -/
structure Batch (c : Crawler) (rs : List ResolutionRequest) (s : Crawl) (as : List Attempt)
    (result : Except CrawlError Unit) (t : Crawl) : Prop where
  /-- The attempts are made. -/
  attempts : c.Attempts s as t
  /-- There is one for each key without a link, with the first name that has the key. -/
  requests : as.map Attempt.request =
    (rs.filter fun r => !s.cache.contains r.key).eraseDupsBy fun q r => q.key == r.key
  /-- What was remembered stays, and the links that were found are added. -/
  remembered : ∀ k id, t.cache.get? k = some id ↔
    s.cache.get? k = some id ∨ ∃ a ∈ as, a.key = k ∧ a.outcome = .ok id
  /-- If all goes well, every name has a link, be it to no title. -/
  complete : result = .ok () → ∀ k, t.cache.contains k = true ↔
    s.cache.contains k = true ∨ k ∈ rs.map (·.key)
  /-- The first error counts. -/
  failure : ∀ e, result = .error e ↔ as.findSome? Attempt.failure? = some e
  /-- With the same names, only the attempts that failed are made again. -/
  repeated : ∀ (c' : Crawler) (u : Crawl), u.cache = t.cache →
    ∃ as', c'.Attempts u as' (c'.resolveAll rs u).2 ∧
      as'.map Attempt.request = (as.filter (·.failure?.isSome)).map Attempt.request

theorem resolveAll_run (c : Crawler) (rs : List ResolutionRequest) (s : Crawl) :
    c.resolveAll rs s = c.resolveEach (pending s.cache rs) s := rfl

/-- The keys of the attempts are different, and none of them had a link. -/
theorem keys_of_requests {cache : ResolutionCache}
    (h : as.map Attempt.request = pending cache rs) :
    (as.map Attempt.key).Nodup ∧ ∀ a ∈ as, cache.get? a.key = none := by
  have hkeys : as.map Attempt.key = (pending cache rs).map (·.key) := by
    rw [← h, List.map_map]
    rfl
  refine ⟨hkeys ▸ nodup_keys_pending cache rs, fun a ha => ?_⟩
  have hmem : a.key ∈ (pending cache rs).map (·.key) := hkeys ▸ List.mem_map_of_mem ha
  exact Option.isNone_iff_eq_none.mp (Option.isSome_eq_false_iff.mp (mem_keys_pending.mp hmem).2)

/-- The keys that have a link after attempts for different keys that had none. -/
theorem Attempts.contains_iff (h : c.Attempts s as t) (hnodup : (as.map Attempt.key).Nodup)
    (hnew : ∀ a ∈ as, s.cache.get? a.key = none) (k : ResolutionKey) :
    t.cache.contains k = true ↔
      s.cache.contains k = true ∨ ∃ a ∈ as, a.key = k ∧ a.failure? = none := by
  simp only [ResolutionCache.contains, Option.isSome_iff_exists, h.get?_iff hnodup hnew,
    Attempt.failure?_eq_none_iff, exists_or]
  refine or_congr_right ⟨?_, ?_⟩
  · rintro ⟨id, a, ha, hkey, hid⟩
    exact ⟨a, ha, hkey, id, hid⟩
  · rintro ⟨a, ha, hkey, id, hid⟩
    exact ⟨id, a, ha, hkey, hid⟩

/-- What is pending afterwards are the names of the attempts that failed. -/
theorem Attempts.pending_eq (h : c.Attempts s as t)
    (hrequests : as.map Attempt.request = pending s.cache rs) :
    pending t.cache rs = (as.filter (·.failure?.isSome)).map Attempt.request := by
  obtain ⟨hnodup, hnew⟩ := keys_of_requests hrequests
  have hcontains := h.contains_iff hnodup hnew
  rw [pending_of_le fun k hk => (hcontains k).mpr (.inl hk), ← hrequests, List.filter_map]
  refine congrArg _ (List.filter_congr fun a ha => ?_)
  have hfailed : t.cache.contains a.key = true ↔ a.failure? = none := by
    rw [hcontains]
    constructor
    · rintro (hold | ⟨b, hb, hkey, hok⟩)
      · rw [ResolutionCache.contains, hnew a ha] at hold
        cases hold
      · exact List.inj_on_of_nodup_map hnodup hb ha hkey ▸ hok
    · exact fun hok => .inr ⟨a, ha, rfl, hok⟩
  rw [Function.comp_apply, Bool.eq_iff_iff, Bool.not_eq_true', ← Bool.not_eq_true,
    Option.isSome_iff_ne_none]
  exact hfailed.not

theorem Batch.keys {result : Except CrawlError Unit} (h : c.Batch rs s as result t) :
    (as.map Attempt.key).Nodup ∧ ∀ a ∈ as, s.cache.get? a.key = none :=
  keys_of_requests (h.requests.trans (pending_eq _ _).symm)

theorem Batch.failure?_eq_none {result : Except CrawlError Unit} (h : c.Batch rs s as result t)
    (hok : result = .ok ()) {a : Attempt} (ha : a ∈ as) : a.failure? = none := by
  have hnone : as.findSome? Attempt.failure? = none := by
    refine Option.eq_none_iff_forall_ne_some.mpr fun e he => ?_
    have herror := (h.failure e).mpr he
    cases hok.symm.trans herror
  exact List.findSome?_eq_none_iff.mp hnone a ha

/-- Every batch goes this way. -/
theorem exists_batch (c : Crawler) (rs : List ResolutionRequest) (s : Crawl) :
    ∃ as, c.Batch rs s as (c.resolveAll rs s).1 (c.resolveAll rs s).2 := by
  obtain ⟨as, hattempts, hrequests, hresult⟩ := c.exists_attempts (pending s.cache rs) s
  rw [← resolveAll_run] at hattempts hresult
  obtain ⟨hnodup, hnew⟩ := keys_of_requests hrequests
  refine ⟨as, hattempts, hrequests.trans (pending_eq _ _), hattempts.get?_iff hnodup hnew,
    fun hok k => ?_, fun e => hresult ▸ firstFailure_eq_error_iff, fun c' u hu => ?_⟩
  · rw [hresult, firstFailure_eq_ok_iff] at hok
    have hkeys : (∃ a ∈ as, a.key = k ∧ a.failure? = none) ↔
        k ∈ rs.map (·.key) ∧ s.cache.contains k = false := by
      rw [← mem_keys_pending, ← hrequests, List.map_map, List.mem_map]
      refine exists_congr fun a => and_congr_right fun ha => and_iff_left ?_
      exact Attempt.failure?_eq_none_iff.mpr (hok a ha)
    rw [hattempts.contains_iff hnodup hnew, hkeys]
    cases s.cache.contains k <;> simp
  · obtain ⟨as', hagain, hnames, -⟩ := c'.exists_attempts (pending u.cache rs) u
    exact ⟨as', hagain, by rw [hnames, hu, hattempts.pending_eq hrequests]⟩

end Crawler

/-! ### Batches in a row -/

/-- Batches in a row that go well, with the same links remembered. In between anything may happen to
the database. -/
inductive Batches : Crawl → Crawl → Prop
  | here (s : Crawl) : Batches s s
  | aside {s t u : Crawl} (h : Batches s t) (hsame : t.SameLinks u) : Batches s u
  | batch {s t u : Crawl} (h : Batches s t) (c : Crawler) (rs : List ResolutionRequest)
      (hrun : c.resolveAll rs t = (.ok (), u)) : Batches s u

/-- The attempts between one crawl and another: one for each key, and none for a key with a link. -/
structure Crawl.History (s : Crawl) (as : List Attempt) (t : Crawl) : Prop where
  /-- Each attempt is made, by some crawler at some moment. -/
  tries : ∀ a ∈ as, ∃ (c : Crawler) (u v : Crawl), c.Tries u a v
  /-- There is one for each key. -/
  nodup : (as.map Attempt.key).Nodup
  /-- No key had a link. -/
  missing : ∀ a ∈ as, s.cache.get? a.key = none
  /-- What was remembered stays, and the links that were found are added. -/
  remembered : ∀ k id, t.cache.get? k = some id ↔
    s.cache.get? k = some id ∨ ∃ a ∈ as, a.key = k ∧ a.outcome = .ok id
  /-- Every key of an attempt has a link afterwards. -/
  succeeded : ∀ a ∈ as, ∃ id, a.outcome = .ok id
  /-- Nothing else is asked of the external search. -/
  queries : t.queries = s.queries ++ as.filterMap Attempt.query?

namespace Crawl.History

variable {s t u : Crawl} {as as' : List Attempt}

theorem nil (s : Crawl) : s.History [] s where
  tries := List.forall_mem_nil _
  nodup := List.nodup_nil
  missing := List.forall_mem_nil _
  remembered _ _ := by simp
  succeeded := List.forall_mem_nil _
  queries := (List.append_nil _).symm

/-- Histories follow each other. -/
theorem append (h : s.History as t) (h' : t.History as' u) : s.History (as ++ as') u where
  tries := List.forall_mem_append.mpr ⟨h.tries, h'.tries⟩
  nodup := by
    rw [List.map_append]
    refine List.nodup_append.mpr ⟨h.nodup, h'.nodup, fun k hk k' hk' heq => ?_⟩
    -- a key that has a link already is not attempted again
    obtain ⟨a, ha, rfl⟩ := List.mem_map.mp hk
    obtain ⟨b, hb, rfl⟩ := List.mem_map.mp hk'
    obtain ⟨id, hid⟩ := h.succeeded a ha
    have hlinked : t.cache.get? a.key = some id := (h.remembered _ _).mpr (.inr ⟨a, ha, rfl, hid⟩)
    rw [heq, h'.missing b hb] at hlinked
    cases hlinked
  missing := by
    refine List.forall_mem_append.mpr ⟨h.missing, fun a ha => ?_⟩
    refine Option.eq_none_iff_forall_ne_some.mpr fun id hid => ?_
    exact Option.some_ne_none id
      (((h.remembered _ _).mpr (.inl hid)).symm.trans (h'.missing a ha))
  remembered k id := by
    rw [h'.remembered, h.remembered, or_assoc]
    simp only [List.mem_append, or_and_right, exists_or]
  succeeded := List.forall_mem_append.mpr ⟨h.succeeded, h'.succeeded⟩
  queries := by rw [h'.queries, h.queries, List.append_assoc, List.filterMap_append]

end Crawl.History

theorem Crawler.Batch.history {c : Crawler} {rs : List ResolutionRequest} {s t : Crawl}
    {as : List Attempt} (h : c.Batch rs s as (.ok ()) t) : s.History as t where
  tries _ ha := ⟨c, h.attempts.exists_tries _ ha⟩
  nodup := h.keys.1
  missing := h.keys.2
  remembered := h.remembered
  succeeded _ ha := Attempt.failure?_eq_none_iff.mp (h.failure?_eq_none rfl ha)
  queries := h.attempts.queries

/-- Over all batches in a row, there is one attempt for each key. -/
theorem Batches.exists_history {s t : Crawl} (h : Batches s t) : ∃ as, s.History as t := by
  induction h with
  | here => exact ⟨[], .nil s⟩
  | aside _ hsame ih =>
    obtain ⟨as, hhistory⟩ := ih
    refine ⟨as, { hhistory with remembered := ?_, queries := ?_ }⟩
    · rw [hsame.cache]
      exact hhistory.remembered
    · rw [hsame.queries]
      exact hhistory.queries
  | batch _ c rs hrun ih =>
    obtain ⟨as, hhistory⟩ := ih
    obtain ⟨as', hbatch⟩ := c.exists_batch rs _
    rw [hrun] at hbatch
    exact ⟨as ++ as', hhistory.append hbatch.history⟩

/-- What is remembered of links is written once. In a batch, each key without a link is attempted
once, with the first name that has it, and what is found is added to what was remembered, whether or
not another attempt fails; then the first error counts, and with the same names only the attempts
that failed are made again. Over batches in a row that go well there is one attempt for each key,
with one query to the external search at most. -/
theorem Crawler.resolveAll_writeOnce (c : Crawler) :
    (∀ rs s, ∃ as, c.Batch rs s as (c.resolveAll rs s).1 (c.resolveAll rs s).2) ∧
    ∀ s t, Batches s t → ∃ as, s.History as t :=
  ⟨c.exists_batch, fun _ _ => Batches.exists_history⟩

/-! ### A small example -/

/-- A film that no search knows. -/
def ResolutionRequest.unknown : ResolutionRequest := .ofTitle "Unknown" none .movie "Unknown"

/-- A crawl over a new database without the catalog. -/
def Crawl.bare : Crawl where
  db := { Database.fresh with media := none }

namespace Crawler

/-- Both films, each of them twice. -/
def twice : List ResolutionRequest := [.unknown, .heat, .unknown, .heat]

/-- Without the catalog only the unknown film gets a link, which is to no title. Once the catalog is
there, the other one is asked for again. -/
theorem twice_values :
    (healed.resolveAll twice .bare).1 = .error ⟨[.catalog], .noSuchTable "media"⟩ ∧
    (healed.resolveAll twice .bare).2.cache.get? ResolutionRequest.unknown.key = some none ∧
    (healed.resolveAll twice .bare).2.cache.get? ResolutionRequest.heat.key = none ∧
    (healed.resolveAll twice { (healed.resolveAll twice .bare).2 with db := .fresh }).1 = .ok () ∧
    (healed.resolveAll twice { (healed.resolveAll twice .bare).2 with db := .fresh }).2.queries =
      [.unknown, .heat, .heat].map healed.queryOf := by
  decide +kernel

/-- The first batch fails for one of the keys, and the second one, for which the catalog is there,
attempts this one again and goes well. -/
theorem resolveAll_writeOnce_twice :
    ∃ t u, healed.resolveAll twice .bare = (.error ⟨[.catalog], .noSuchTable "media"⟩, t) ∧
      (∃ as, healed.Batch twice .bare as (.error ⟨[.catalog], .noSuchTable "media"⟩) t) ∧
      healed.resolveAll twice { t with db := .fresh } = (.ok (), u) ∧ Batches t u ∧
      ∃ as, t.History as u := by
  obtain ⟨hfails, -, -, hgoes, -⟩ := twice_values
  obtain ⟨t, hfirst⟩ := exists_run hfails
  rw [hfirst] at hgoes
  obtain ⟨u, hsecond⟩ := exists_run hgoes
  obtain ⟨hbatch, hhistory⟩ := healed.resolveAll_writeOnce
  have hfailed := hbatch twice .bare
  rw [hfirst] at hfailed
  have hrestored : Batches t { t with db := .fresh } := .aside (.here t) ⟨rfl, rfl⟩
  have hrow : Batches t u := hrestored.batch healed twice hsecond
  exact ⟨t, u, hfirst, hfailed, hsecond, hrow, hhistory t u hrow⟩

end Crawler

end Harvest
