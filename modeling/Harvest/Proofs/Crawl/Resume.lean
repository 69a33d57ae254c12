import Harvest.Proofs.Crawl.Budget

/-!
# Incremental passes that are cut short

An incremental pass that cannot have the details of a commit stops there and moves the mark to the
last commit it has processed, so the next pass over the same page begins with the commit that was
missing. However often this happens, in the end everything is as if nothing had been missing at all.

## Main definitions

* `Remote.Falters` — a remote answers like another one, but the details of commits may be missing
* `Crawler.incrementals` — passes in a row, all but the last with a remote that falters
* `Crawler.Awaits` — which commits the next pass has to go through

## Main results

* `Crawler.catchUp_of_falters` — what is processed before a commit is missing
* `Crawler.newer_of_advance` — what is left over for the next pass
* `Crawler.incremental_of_falters` — a pass that is cut short and the next one do what one pass does
* `Crawler.incrementals_resume` — passes that are cut short do together what one pass does
* `Crawler.unnamed_resumed` — unless a commit has no name
-/

namespace Harvest

open CrawlStep

/-- The second remote answers like the first one at all times, except that the details of some
commits cannot be had from it. -/
structure Remote.Falters (r r' : Remote) : Prop where
  list : ∀ past past', r'.list past = r.list past'
  raw : ∀ past past', r'.raw past = r.raw past'
  commit : ∀ sha, (∀ past past', r'.commit past sha = r.commit past' sha) ∨
    ∀ past, ∃ e, r'.commit past sha = .error e

namespace Crawler

/-- Incremental passes in a row: one with each of the remotes, and in the end one with that of the
crawler. -/
def incrementals (c : Crawler) (limit : Nat) : List Remote → CrawlStep PassStats
  | [] => c.incremental limit
  | r :: rs => do
    let first ← (c.withRemote r).incremental limit
    let rest ← incrementals c limit rs
    return first + rest

variable {c : Crawler} {limit : Nat} {s t u : Crawl} {p : Positions} {r : Remote}
  {shas done left : List String}

/-! ### Commits in a row -/

theorem agree_catchUp (hsteady : c.remote.IsSteady) (shas : List String) :
    Agree (c.catchUp shas) (c.catchUp shas) := by
  induction shas with
  | nil => exact agree_pure _
  | cons sha shas ih =>
    refine (agree_processCommit_of_steady hsteady .incremental sha).bind fun found => ?_
    cases found with
    | none => exact agree_pure _
    | some q => exact ih.bind fun _ => agree_pure _

theorem catchUp_cons_some {sha : String} {q : ProcessedCommit} {x : PassStats}
    {last : Option String} {complete : Bool}
    (h : c.processCommit .incremental sha s = (.ok (some q), t))
    (hrest : c.catchUp shas t = (.ok (x, last, complete), u)) :
    c.catchUp (sha :: shas) s = (.ok (q.stats + x, last.or (some sha), complete), u) := by
  rw [catchUp, bind_run, h]
  simp only [bind_run, hrest]
  rfl

theorem catchUp_cons_none {sha : String}
    (h : c.processCommit .incremental sha s = (.ok none, t)) :
    c.catchUp (sha :: shas) s = (.ok ({}, none, false), t) := by
  rw [catchUp, bind_run, h]
  rfl

theorem getLast?_cons_eq_or (sha : String) (shas : List String) :
    (sha :: shas).getLast? = shas.getLast?.or (some sha) := by
  cases shas with
  | nil => rfl
  | cons sha' shas => simp [List.getLast?_cons]

/-- The commits before the first one that is missing are processed as if none were. -/
theorem catchUp_of_falters (hr : c.remote.Falters r) (hyears : c.YearsFit)
    (havailable : ∀ sha ∈ shas, ∃ past d, c.remote.commit past sha = .ok d)
    (hs : s.db.IsWorking) (hst : s.core = t.core) :
    ∃ done left x u v, shas = done ++ left ∧
      (c.withRemote r).catchUp shas s = (.ok (x, done.getLast?, left.isEmpty), u) ∧
      c.catchUp done t = (.ok (x, done.getLast?, true), v) ∧ u.core = v.core ∧
      u.db.IsWorking ∧ u.visited = s.visited ++ done := by
  induction shas generalizing s t with
  | nil => exact ⟨[], [], {}, s, t, rfl, rfl, rfl, hst, hs, (List.append_nil _).symm⟩
  | cons sha shas ih =>
    obtain ⟨⟨past, d, hd⟩, havailable⟩ := List.forall_mem_cons.mp havailable
    rcases hr.commit sha with hsame | hfail
    · obtain ⟨found, s₁, hrun, hs₁⟩ :=
        works_processCommit (c := c.withRemote r) hyears .incremental sha s hs
      obtain ⟨hvalue, hcore⟩ := agree_processCommit hr.raw hsame .incremental s t hst
      rw [hrun] at hvalue hcore
      cases found with
      | none =>
        -- the details of the commit are there
        obtain ⟨⟨e, he⟩, -⟩ := processCommit_none hrun
        have herror : c.remote.commit past sha = .error e := (hsame s.calls past).symm.trans he
        cases hd.symm.trans herror
      | some q =>
        have hrun' : c.processCommit .incremental sha t =
            (.ok (some q), (c.processCommit .incremental sha t).2) := Prod.ext hvalue.symm rfl
        obtain ⟨done, left, x, u, v, rfl, hu, hv, huv, hworks, hvisited⟩ :=
          ih havailable hs₁ hcore
        refine ⟨sha :: done, left, q.stats + x, u, v, rfl, ?_, ?_, huv, hworks, ?_⟩
        · rw [getLast?_cons_eq_or]
          exact catchUp_cons_some hrun hu
        · rw [getLast?_cons_eq_or]
          exact catchUp_cons_some hrun' hv
        · rw [hvisited, visited_of_processCommit hrun, List.append_assoc, List.singleton_append]
    · -- here the pass is cut short
      obtain ⟨e, he⟩ := hfail s.calls
      have hmissing : (c.withRemote r).processCommit .incremental sha s =
          (.ok none, s.call (.commit sha)) := processCommit_of_failing he
      exact ⟨[], sha :: shas, {}, s.call (.commit sha), t, rfl, catchUp_cons_none hmissing, rfl,
        hst, hs, (List.append_nil _).symm⟩

/-- If no commit is missing, all of them are processed. -/
theorem catchUp_of_available (hyears : c.YearsFit) (hsteady : c.remote.IsSteady)
    (havailable : ∀ sha ∈ shas, ∃ past d, c.remote.commit past sha = .ok d)
    (hs : s.db.IsWorking) :
    ∃ x t, c.catchUp shas s = (.ok (x, shas.getLast?, true), t) ∧ t.db.IsWorking ∧
      t.visited = s.visited ++ shas := by
  obtain ⟨⟨x, last, complete⟩, t, hrun, ht⟩ := works_catchUp hyears shas s hs
  obtain ⟨done, left, rfl, hvisited, -, rfl, rfl, hleft⟩ := catchUp_ok hrun
  cases left with
  | nil =>
    rw [List.append_nil]
    rw [List.append_nil] at hrun
    exact ⟨x, t, hrun, ht, hvisited⟩
  | cons sha left =>
    obtain ⟨past, e, he⟩ := hleft sha rfl
    obtain ⟨past', d, hd⟩ := havailable sha (by simp)
    cases (congrFun (hsteady past past').2.1 sha).symm.trans he |>.symm.trans hd

/-- Commits may be processed in two portions. -/
theorem catchUp_append (hsteady : c.remote.IsSteady) {x y : PassStats}
    {last last' : Option String} {complete : Bool} {t' : Crawl}
    (hx : c.catchUp done s = (.ok (x, last, true), t)) (ht : t'.core = t.core)
    (hy : c.catchUp left t' = (.ok (y, last', complete), u)) :
    ∃ v, c.catchUp (done ++ left) s = (.ok (x + y, last'.or last, complete), v) ∧
      v.core = u.core := by
  induction done generalizing s x last with
  | nil =>
    cases hx
    obtain ⟨hvalue, hcore⟩ := agree_catchUp hsteady left t t' ht.symm
    rw [hy] at hvalue hcore
    refine ⟨(c.catchUp left t).2, ?_, hcore⟩
    rw [PassStats.zero_add, Option.or_none]
    exact Prod.ext hvalue rfl
  | cons sha done ih =>
    obtain ⟨found, s₁, hrun, hrest⟩ := bind_ok hx
    cases found with
    | none =>
      -- the first portion is complete
      cases hrest
    | some q =>
      obtain ⟨⟨x', last₁, complete'⟩, t₁, hdone, hend⟩ := bind_ok hrest
      cases hend
      obtain ⟨v, hv, hcore⟩ := ih hdone
      refine ⟨v, ?_, hcore⟩
      rw [PassStats.add_assoc, ← Option.or_assoc]
      exact catchUp_cons_some hrun hv

/-! ### What is left over -/

/-- The commits newer than one of the page are those that stand above it. -/
theorem newer_of_split {page : List CommitSummary} {above below : List String} {sha : String}
    (hpage : page.map CommitSummary.sha = above ++ sha :: below) (hsha : sha ∉ above) :
    newer (some sha) page = above := by
  have habove : ∀ sha' ∈ above, (some sha' != some sha) = true := by
    intro sha' hsha'
    have hne : sha' ≠ sha := fun heq => hsha (heq ▸ hsha')
    simpa using hne
  unfold newer
  rw [hpage, List.takeWhile_append_of_pos habove, List.takeWhile_cons_of_neg (by simp),
    List.append_nil]

/-- Once the mark has been moved, the commits that are newer are those that are left over. -/
theorem newer_of_advance {page : List CommitSummary}
    (hnodup : (page.map CommitSummary.sha).Nodup) (hnamed : "" ∉ page.map CommitSummary.sha)
    (hpending : (newer p.checkpoint.latest page).reverse = done ++ left) :
    (newer (p.advance (if left.isEmpty then page.head?.map CommitSummary.sha
      else done.getLast?)).checkpoint.latest page).reverse = left := by
  have hnewer : newer p.checkpoint.latest page = left.reverse ++ done.reverse := by
    rw [← List.reverse_append, ← hpending, List.reverse_reverse]
  obtain ⟨below, hbelow⟩ : newer p.checkpoint.latest page <+: page.map CommitSummary.sha :=
    List.takeWhile_prefix _
  cases left with
  | nil =>
    rw [List.isEmpty_nil, if_pos rfl]
    cases page with
    | nil => rfl
    | cons head page =>
      have hhead : head.sha ≠ "" := fun heq => hnamed (by simp [heq])
      have hsplit : (head :: page).map CommitSummary.sha =
          [] ++ head.sha :: page.map CommitSummary.sha := rfl
      rw [List.head?_cons, Option.map_some,
        Positions.checkpoint_advance fun sha h => Option.some.inj h ▸ hhead, Option.some_or,
        newer_of_split hsplit List.not_mem_nil, List.reverse_nil]
  | cons first left =>
    rw [List.isEmpty_cons, if_neg Bool.false_ne_true]
    rcases List.eq_nil_or_concat done with rfl | ⟨before, last, rfl⟩
    · -- nothing has been processed, so the mark is where it was
      exact hpending
    · rw [hnewer, List.concat_eq_append, List.reverse_append] at hbelow
      have hpage : page.map CommitSummary.sha =
          (first :: left).reverse ++ last :: (before.reverse ++ below) := by
        rw [← hbelow]
        simp
      have hlast : last ≠ "" := by
        rintro rfl
        exact hnamed (by rw [hpage]; simp)
      have hnew : last ∉ (first :: left).reverse := by
        rw [hpage] at hnodup
        exact fun hmem => List.disjoint_of_nodup_append hnodup hmem List.mem_cons_self
      rw [List.concat_eq_append, List.getLast?_concat,
        Positions.checkpoint_advance fun sha h => Option.some.inj h ▸ hlast, Option.some_or,
        newer_of_split hpage hnew, List.reverse_reverse]

/-! ### One pass -/

theorem advance_advance (p : Positions) (now now' : Option String) :
    (p.advance now).advance now' = p.advance (now'.or now) := by
  simp [Positions.advance, Option.or_assoc]

/-- A mark that is there already is not written. -/
theorem advance_of_level {before now : Option String} (h : ∀ sha, now = some sha → now = before) :
    advance before now s = (.ok (), s) := by
  unfold advance
  cases now with
  | none => rfl
  | some sha =>
    simp only [if_pos (h sha rfl)]
    rfl

theorem advance_run (hp : s.db.positions = some p) (hopen : s.db.RefusesNothing)
    (now : Option String) :
    advance p.checkpoint.latest now s = (.ok (), s.withPositions (p.advance now)) := by
  unfold advance
  cases now with
  | none => exact congrArg (Except.ok (), ·) (Crawl.withPositions_self hp).symm
  | some sha =>
    simp only
    split
    next heq =>
      -- the mark is there already, so it is not written
      rw [Positions.advance_self heq.symm, Crawl.withPositions_self hp]
      rfl
    next => exact updatePositions_run hp (hopen _)

/-- The pass goes through the commits of its page that are newer than the mark, and moves the mark
afterwards. -/
theorem incremental_eq {page : List CommitSummary} {x : PassStats} {last : Option String}
    {complete : Bool} (hlimit : limit ≠ 0) (hp : s.db.positions = some p)
    (hpage : c.remote.list s.calls (c.perPage limit) 1 = .ok page)
    (h : c.catchUp (newer p.checkpoint.latest page).reverse
      (s.call (.list (c.perPage limit) 1)) = (.ok (x, last, complete), t))
    (hadvance : advance p.checkpoint.latest
      (if complete then page.head?.map CommitSummary.sha else last) t = (.ok (), u)) :
    c.incremental limit s = (.ok x, u) := by
  unfold perPage at hpage h
  unfold incremental
  rw [if_neg hlimit, bind_run, checkpoint_run hp]
  cases page with
  | nil =>
    cases h
    cases hadvance
    simp only [bind_run, list_run, hpage]
    rfl
  | cons head page =>
    rw [List.head?_cons, Option.map_some] at hadvance
    simp only [bind_run, list_run, hpage, catchUpWith, h, hadvance]
    rfl

/-- If no write is refused, the mark is where the pass says. -/
theorem incremental_run {page : List CommitSummary} {x : PassStats} {last : Option String}
    {complete : Bool} (hlimit : limit ≠ 0) (hp : s.db.positions = some p)
    (hopen : s.db.RefusesNothing) (hpage : c.remote.list s.calls (c.perPage limit) 1 = .ok page)
    (h : c.catchUp (newer p.checkpoint.latest page).reverse
      (s.call (.list (c.perPage limit) 1)) = (.ok (x, last, complete), t)) :
    c.incremental limit s = (.ok x, t.withPositions
      (p.advance (if complete then page.head?.map CommitSummary.sha else last))) := by
  have hext := (within_catchUp (within_extends_processCommit c) _).of_run h
  exact incremental_eq hlimit hp hpage h
    (advance_run (hext.positions.trans hp) (fun w => hext.refusal ▸ hopen w) _)

/-! ### Passes in a row -/

/-- The database works, and these commits of the page are newer than the mark, the oldest one
first. -/
def Awaits (page : List CommitSummary) (shas : List String) (s : Crawl) : Prop :=
  s.db.IsWorking ∧ ∃ p, s.db.positions = some p ∧
    (newer p.checkpoint.latest page).reverse = shas

/-- If no commit is missing, the pass processes all that wait. -/
theorem incremental_of_available {page : List CommitSummary} (hsteady : c.remote.IsSteady)
    (hyears : c.YearsFit) (hlimit : limit ≠ 0)
    (hpage : c.remote.list [] (c.perPage limit) 1 = .ok page)
    (havailable : ∀ sha ∈ shas, ∃ past d, c.remote.commit past sha = .ok d)
    (hs : Awaits page shas s) :
    ∃ x t, c.incremental limit s = (.ok x, t) ∧ t.visited = s.visited ++ shas := by
  obtain ⟨hworks, p, hp, rfl⟩ := hs
  have hlist : c.remote.list s.calls (c.perPage limit) 1 = .ok page := by
    rw [(hsteady s.calls []).1, hpage]
  obtain ⟨x, t, hrun, -, hvisited⟩ := catchUp_of_available hyears hsteady havailable
    (s := s.call (.list (c.perPage limit) 1)) hworks
  exact ⟨x, _, incremental_run hlimit hp hworks.refusal hlist hrun, hvisited⟩

/-- A pass that is cut short processes some of the commits that wait. If the next pass goes through
the others, both do what a single pass does. -/
theorem incremental_of_falters {page : List CommitSummary} (hsteady : c.remote.IsSteady)
    (hyears : c.YearsFit) (hlimit : limit ≠ 0)
    (hpage : c.remote.list [] (c.perPage limit) 1 = .ok page)
    (hnodup : (page.map CommitSummary.sha).Nodup) (hnamed : "" ∉ page.map CommitSummary.sha)
    (hr : c.remote.Falters r)
    (havailable : ∀ sha ∈ shas, ∃ past d, c.remote.commit past sha = .ok d)
    (hs : Awaits page shas s) :
    ∃ done left x t, shas = done ++ left ∧ (c.withRemote r).incremental limit s = (.ok x, t) ∧
      Awaits page left t ∧ t.visited = s.visited ++ done ∧
      ∃ y u v, c.incremental limit t = (.ok y, u) ∧ c.incremental limit s = (.ok (x + y), v) ∧
        u.db = v.db ∧ u.cache = v.cache := by
  obtain ⟨hworks, p, hp, rfl⟩ := hs
  have hlist : ∀ s : Crawl, c.remote.list s.calls (c.perPage limit) 1 = .ok page := by
    intro s
    rw [(hsteady s.calls []).1, hpage]
  have hlist' : r.list s.calls (c.perPage limit) 1 = .ok page := by
    rw [hr.list s.calls [], hpage]
  -- the first pass, up to where it is cut
  obtain ⟨done, left, x, t, t', hpending, hfirst, hdone, hcore, ht, hvisited⟩ :=
    catchUp_of_falters hr hyears havailable (s := s.call (.list (c.perPage limit) 1))
      (t := s.call (.list (c.perPage limit) 1)) hworks rfl
  have hrun := incremental_run (c := c.withRemote r) hlimit hp hworks.refusal hlist' hfirst
  have hawaits := newer_of_advance hnodup hnamed hpending
  set q := p.advance (if left.isEmpty then page.head?.map CommitSummary.sha else done.getLast?)
  -- the second pass, through what is left over
  have hleft : ∀ sha ∈ (newer q.checkpoint.latest page).reverse,
      ∃ past d, c.remote.commit past sha = .ok d := by
    intro sha hsha
    rw [hawaits] at hsha
    exact havailable sha (hpending ▸ List.mem_append_right done hsha)
  obtain ⟨y, u, hrest, -⟩ := catchUp_of_available hyears hsteady hleft
    (s := (t.withPositions q).call (.list (c.perPage limit) 1))
    { ht with positions := ⟨q, rfl⟩ }
  have hsecond :=
    incremental_run (c := c) hlimit (s := t.withPositions q) rfl ht.refusal (hlist _) hrest
  rw [hawaits] at hrest
  -- the single pass
  have hcut : ((t.withPositions q).call (.list (c.perPage limit) 1)).core = t'.core := hcore
  obtain ⟨v, hall, hcore'⟩ := catchUp_append hsteady hdone hcut hrest
  rw [← hpending] at hall
  have hsingle := incremental_run (c := c) hlimit hp hworks.refusal (hlist s) hall
  obtain ⟨hdb, hcache, -⟩ := Crawl.core_eq_iff.mp hcore'
  refine ⟨done, left, x, _, hpending, hrun, ⟨{ ht with positions := ⟨q, rfl⟩ }, q, rfl, hawaits⟩,
    hvisited, y, _, _, hsecond, hsingle, ?_, hcache.symm⟩
  refine Database.eq_of_core_of_positions hdb.symm (congrArg some ?_)
  -- the head of the page is where the mark goes in the end
  simp only [↓reduceIte, q, advance_advance]
  cases page with
  | cons head page => rfl
  | nil =>
    obtain ⟨rfl, rfl⟩ := List.append_eq_nil_iff.mp hpending.symm
    rfl

/-- However often passes over the commits that wait are cut short, in the end they have done what a
single pass does. -/
theorem incrementals_of_awaits {rs : List Remote} {page : List CommitSummary}
    (hsteady : c.remote.IsSteady) (hyears : c.YearsFit) (hlimit : limit ≠ 0)
    (hpage : c.remote.list [] (c.perPage limit) 1 = .ok page)
    (hnodup : (page.map CommitSummary.sha).Nodup) (hnamed : "" ∉ page.map CommitSummary.sha)
    (hrs : ∀ r ∈ rs, c.remote.Falters r)
    (havailable : ∀ sha ∈ shas, ∃ past d, c.remote.commit past sha = .ok d)
    (hs : Awaits page shas s) :
    ∃ stats t u, c.incrementals limit rs s = (.ok stats, t) ∧
      c.incremental limit s = (.ok stats, u) ∧ t.db = u.db ∧ t.cache = u.cache ∧
      t.visited = s.visited ++ shas := by
  induction rs generalizing shas s with
  | nil =>
    obtain ⟨x, t, hrun, hvisited⟩ :=
      incremental_of_available hsteady hyears hlimit hpage havailable hs
    exact ⟨x, t, t, hrun, hrun, rfl, rfl, hvisited⟩
  | cons r rs ih =>
    obtain ⟨hr, hrs⟩ := List.forall_mem_cons.mp hrs
    obtain ⟨done, left, x, t, rfl, hfirst, hleft, hvisited, y, u, v, hsecond, hsingle, hdb,
      hcache⟩ :=
      incremental_of_falters hsteady hyears hlimit hpage hnodup hnamed hr havailable hs
    -- the passes that follow do what a single one would do from there
    obtain ⟨y', t', u', hrest, hsecond', hdb', hcache', hvisited'⟩ :=
      ih hrs (fun sha hsha => havailable sha (List.mem_append_right done hsha)) hleft
    cases hsecond.symm.trans hsecond'
    refine ⟨x + y, t', v, ?_, hsingle, hdb'.trans hdb, hcache'.trans hcache, ?_⟩
    · rw [incrementals, bind_run, hfirst]
      simp only [bind_run, hrest]
      rfl
    · rw [hvisited', hvisited, List.append_assoc]

/-- Passes that are cut short do together what a single pass does, and the commits that were newer
than the mark are processed once, the oldest one first. -/
theorem incrementals_resume {rs : List Remote} {page : List CommitSummary}
    (hsteady : c.remote.IsSteady) (hyears : c.YearsFit) (hlimit : limit ≠ 0)
    (hpage : c.remote.list [] (c.perPage limit) 1 = .ok page)
    (hnodup : (page.map CommitSummary.sha).Nodup) (hnamed : "" ∉ page.map CommitSummary.sha)
    (hrs : ∀ r ∈ rs, c.remote.Falters r) (hs : s.db.IsWorking) (hp : s.db.positions = some p)
    (havailable : ∀ sha ∈ newer p.checkpoint.latest page,
      ∃ past d, c.remote.commit past sha = .ok d) :
    ∃ stats t u, c.incrementals limit rs s = (.ok stats, t) ∧
      c.incremental limit s = (.ok stats, u) ∧ t.db = u.db ∧ t.cache = u.cache ∧
      t.visited = s.visited ++ (newer p.checkpoint.latest page).reverse ∧
      (newer p.checkpoint.latest page).Nodup := by
  have hawaits : Awaits page (newer p.checkpoint.latest page).reverse s := ⟨hs, p, hp, rfl⟩
  obtain ⟨stats, t, u, hpasses, hsingle, hdb, hcache, hvisited⟩ :=
    incrementals_of_awaits hsteady hyears hlimit hpage hnodup hnamed hrs
      (fun sha hsha => havailable sha (List.mem_reverse.mp hsha)) hawaits
  have honce : (newer p.checkpoint.latest page).Nodup :=
    hnodup.sublist (List.takeWhile_sublist _)
  exact ⟨stats, t, u, hpasses, hsingle, hdb, hcache, hvisited, honce⟩

end Crawler

/-! ### Small examples -/

namespace Archive

variable {o o' : Outage}

theorem answer_fail {α : Type} (a : Archive) (h : o' ≠ o) (what : String) (found : Option α) :
    (a.fail o).answer o' what found = a.answer o' what found := by
  simp [answer, fail, List.mem_insert_iff, h]

/-- An archive without the details of a commit answers like the archive in all else. -/
theorem falters_fail (a : Archive) (sha : String) :
    a.remote.Falters (a.fail (.commit sha)).remote where
  list past past' := by
    have hlisting : Outage.listing ≠ .commit sha := by simp
    funext n page
    exact a.answer_fail hlisting "commits" (some (a.page n page))
  raw past past' := by
    funext url
    have hraw : Outage.raw url ≠ .commit sha := by simp
    exact a.answer_fail hraw _ _
  commit sha' := by
    by_cases h : sha' = sha
    · refine .inr fun past => ⟨.status sha' 503, ?_⟩
      simp [remote, answer, fail, h]
    · have hcommit : Outage.commit sha' ≠ .commit sha := by simpa using h
      exact .inl fun past past' => a.answer_fail hcommit _ _

/-- Two commits, of which the older one has no name. -/
def unnamed : Archive :=
  { root.setText "raw/" "" with commits := [.small "" [], .small "b" [""]] }

end Archive

namespace Crawler

/-- Of three commits, first the second one is missing, and then the first one. -/
theorem incrementals_resume_small :
    (small .small).remote.IsSteady ∧ (small .small).YearsFit ∧ (3 : Nat) ≠ 0 ∧
    (small .small).remote.list [] ((small .small).perPage 3) 1 = .ok (Archive.small.page 3 1) ∧
    ((Archive.small.page 3 1).map CommitSummary.sha).Nodup ∧
    "" ∉ (Archive.small.page 3 1).map CommitSummary.sha ∧
    (∀ r ∈ ["b", "a"].map fun sha => (Archive.small.fail (.commit sha)).remote,
      (small .small).remote.Falters r) ∧
    Database.fresh.IsWorking ∧
    (∀ sha ∈ newer none (Archive.small.page 3 1),
      ∃ past d, (small .small).remote.commit past sha = .ok d) ∧
    ∃ stats t u, (small .small).incrementals 3
        (["b", "a"].map fun sha => (Archive.small.fail (.commit sha)).remote)
        { db := Database.fresh } = (.ok stats, t) ∧
      (small .small).incremental 3 { db := Database.fresh } = (.ok stats, u) ∧
      t.db = u.db ∧ t.cache = u.cache ∧
      t.visited = [] ++ (newer none (Archive.small.page 3 1)).reverse ∧
      (newer none (Archive.small.page 3 1)).Nodup := by
  have hsteady := Archive.small.remote_isSteady
  have hpage : (small .small).remote.list [] ((small .small).perPage 3) 1 =
      .ok (Archive.small.page 3 1) := rfl
  have hnodup : ((Archive.small.page 3 1).map CommitSummary.sha).Nodup := by decide +kernel
  have hnamed : "" ∉ (Archive.small.page 3 1).map CommitSummary.sha := by decide +kernel
  have hrs : ∀ r ∈ ["b", "a"].map fun sha => (Archive.small.fail (.commit sha)).remote,
      (small .small).remote.Falters r := by
    intro r hr
    obtain ⟨sha, -, rfl⟩ := List.mem_map.mp hr
    exact Archive.small.falters_fail sha
  have havailable : ∀ sha ∈ newer none (Archive.small.page 3 1),
      ∃ past d, (small .small).remote.commit past sha = .ok d := by
    have hnames : ["c", "b", "a"] = newer none (Archive.small.page 3 1) := by decide +kernel
    rw [← hnames]
    simp only [List.forall_mem_cons]
    exact ⟨⟨[], _, rfl⟩, ⟨[], _, rfl⟩, ⟨[], _, rfl⟩, List.forall_mem_nil _⟩
  exact ⟨hsteady, yearsFit_small _, by decide, hpage, hnodup, hnamed, hrs,
    Database.isWorking_fresh, havailable,
    incrementals_resume (p := {}) hsteady (yearsFit_small _) (by decide) hpage hnodup hnamed hrs
      Database.isWorking_fresh rfl havailable⟩

/-- A commit without a name is processed again, since its mark is read as no mark at all. -/
theorem unnamed_resumed :
    (small .unnamed).remote.IsSteady ∧ (small .unnamed).YearsFit ∧
    (small .unnamed).remote.list [] ((small .unnamed).perPage 2) 1 =
      .ok (Archive.unnamed.page 2 1) ∧
    ((Archive.unnamed.page 2 1).map CommitSummary.sha).Nodup ∧
    (small .unnamed).remote.Falters (Archive.unnamed.fail (.commit "b")).remote ∧
    Database.fresh.IsWorking ∧
    (newer none (Archive.unnamed.page 2 1)).reverse = ["", "b"] ∧
    (∀ sha ∈ newer none (Archive.unnamed.page 2 1),
      ∃ past d, (small .unnamed).remote.commit past sha = .ok d) ∧
    ((small .unnamed).incrementals 2 [(Archive.unnamed.fail (.commit "b")).remote]
      { db := Database.fresh }).2.visited = ["", "", "b"] ∧
    ¬ ∃ stats t u, (small .unnamed).incrementals 2
        [(Archive.unnamed.fail (.commit "b")).remote] { db := Database.fresh } = (.ok stats, t) ∧
      (small .unnamed).incremental 2 { db := Database.fresh } = (.ok stats, u) := by
  have hnames : ["b", ""] = newer none (Archive.unnamed.page 2 1) := by decide +kernel
  refine ⟨Archive.unnamed.remote_isSteady, yearsFit_small _, rfl, by decide +kernel,
    Archive.unnamed.falters_fail "b", Database.isWorking_fresh, by rw [← hnames]; rfl, ?_,
    by decide +kernel, ?_⟩
  · rw [← hnames]
    simp only [List.forall_mem_cons]
    exact ⟨⟨[], _, rfl⟩, ⟨[], _, rfl⟩, List.forall_mem_nil _⟩
  rintro ⟨stats, t, u, hrow, hsingle⟩
  have hthree : ((small .unnamed).incrementals 2
      [(Archive.unnamed.fail (.commit "b")).remote] { db := Database.fresh }).1.map
      PassStats.commits = .ok 3 := by decide +kernel
  have htwo : ((small .unnamed).incremental 2 { db := Database.fresh }).1.map
      PassStats.commits = .ok 2 := by decide +kernel
  rw [hrow] at hthree
  rw [hsingle] at htwo
  cases hthree.symm.trans htwo

end Crawler

end Harvest
