import Harvest.Proofs.Crawl.Commit

/-!
# What the incremental pass does

The pass reads the positions once, at its beginning, and moves the mark once, at its end. If it ends
with an error of the database, the mark is where it was.

## Main definitions

* `Positions.advance` — the positions after the mark has been moved
* `Crawler.perPage` — how many commits the pass asks for
* `Crawler.IncrementalRun` — the ways in which the pass ends with a value

## Main results

* `Crawler.incrementalRun_of_incremental` — no other ways exist
* `Crawler.incremental_error` — an error leaves the positions alone
* `Crawler.within_incremental` — the pass is within what its statements are within
-/

namespace Harvest

open CrawlStep

/-- The positions after the mark has been moved to a commit, if there is one. -/
def Positions.advance (p : Positions) (now : Option String) : Positions :=
  { p with latest := now.or p.latest }

theorem Positions.checkpoint_advance {p : Positions} {now : Option String}
    (hnow : ∀ sha, now = some sha → sha ≠ "") :
    (p.advance now).checkpoint = ⟨now.or p.checkpoint.latest, p.checkpoint.next⟩ := by
  cases now with
  | none => rfl
  | some sha => simp [checkpoint, advance, hnow sha rfl]

theorem Positions.latest_of_checkpoint {p : Positions} {sha : String}
    (h : p.checkpoint.latest = some sha) : p.latest = some sha :=
  (Option.filter_eq_some_iff.mp h).1

/-- Moving the mark to where it is changes nothing. -/
theorem Positions.advance_self {p : Positions} {sha : String}
    (h : p.checkpoint.latest = some sha) : p.advance (some sha) = p := by
  simp [advance, ← latest_of_checkpoint h]

namespace CrawlStep

variable {s t : Crawl}

theorem checkpoint_ok {cp : Checkpoint} (h : checkpoint s = (.ok cp, t)) :
    t = s ∧ ∃ p, s.db.positions = some p ∧ cp = p.checkpoint := by
  unfold checkpoint query Database.load at h
  cases hp : s.db.positions with
  | none => rw [hp] at h; cases h
  | some p =>
    rw [hp] at h
    cases h
    exact ⟨rfl, p, rfl, rfl⟩

theorem checkpoint_error {e : CrawlError} (h : checkpoint s = (.error e, t)) : t = s := by
  unfold checkpoint query at h
  cases hl : s.db.load with
  | error e => rw [hl] at h; cases h; rfl
  | ok cp => rw [hl] at h; cases h

theorem updatePositions_ok {p : Positions} {part : CrawlPart} {w : Change}
    {f : Positions → Positions} (hp : s.db.positions = some p)
    (h : update part (·.updatePositions w f) s = (.ok (), t)) :
    t = { s with db := { s.db with positions := some (f p) } } := by
  obtain ⟨d, hd, rfl⟩ := update_ok h
  obtain ⟨q, hq, -, rfl⟩ := Database.updatePositions_eq_ok_iff.mp hd
  cases hp.symm.trans hq
  rfl

end CrawlStep

namespace Crawler

variable {c : Crawler} {limit : Nat} {stats : PassStats} {s t : Crawl}

theorem list_run (c : Crawler) (n page : Nat) (s : Crawl) :
    c.list n page s = (.ok (c.remote.list s.calls n page), s.call (.list n page)) := rfl

/-- How many commits the incremental pass asks for. -/
def perPage (c : Crawler) (limit : Nat) : Nat := min limit (max c.settings.pageSize 1)

/-! ### The incremental pass -/

/-- The ways in which the incremental pass ends with a value. -/
inductive IncrementalRun (c : Crawler) (limit : Nat) (s : Crawl) : PassStats → Crawl → Prop
  /-- There is nothing to go through. -/
  | idle {t : Crawl} (hidle : limit = 0 ∨ c.remote.list s.calls (c.perPage limit) 1 = .ok [] ∨
        ∃ e, c.remote.list s.calls (c.perPage limit) 1 = .error e)
      (ht : Crawl.Extends s t) (hvisited : t.visited = s.visited) : IncrementalRun c limit s {} t
  /-- The pass goes through a page, and moves the mark to its head, or to the last commit that has
  been processed if some are left. -/
  | through {t : Crawl} {stats : PassStats} {p : Positions} {head : CommitSummary}
      {page : List CommitSummary} {done left : List String} (hlimit : limit ≠ 0)
      (hp : s.db.positions = some p)
      (hpage : c.remote.list s.calls (c.perPage limit) 1 = .ok (head :: page))
      (hpending : (newer p.checkpoint.latest (head :: page)).reverse = done ++ left)
      (hleft : ∀ sha ∈ left.head?, ∃ past e, c.remote.commit past sha = .error e)
      (hvisited : t.visited = s.visited ++ done) (hstats : stats.commits = done.length)
      (ht : t.db.positions =
        some (p.advance (if left = [] then some head.sha else done.getLast?))) :
      IncrementalRun c limit s stats t

theorem advance_ok {p : Positions} {now : Option String} (hp : s.db.positions = some p)
    (h : advance p.checkpoint.latest now s = (.ok (), t)) :
    t = { s with db := { s.db with positions := some (p.advance now) } } := by
  unfold advance at h
  have same : ∀ {q : Positions}, q = p → s = { s with db := { s.db with positions := some q } } := by
    rintro _ rfl
    rw [← hp]
  cases now with
  | none =>
    cases h
    exact same rfl
  | some sha =>
    simp only at h
    split at h
    next heq =>
      -- the mark is there already, so it is not written
      cases h
      exact same (Positions.advance_self heq.symm)
    next => exact updatePositions_ok hp h

theorem advance_error {before now : Option String} {e : CrawlError}
    (h : advance before now s = (.error e, t)) : t = s := by
  unfold advance at h
  cases now with
  | none => cases h
  | some sha =>
    simp only at h
    split at h
    · cases h
    · exact (update_error h).1

/-- The incremental pass ends with a value in one of two ways. -/
theorem incrementalRun_of_incremental (h : c.incremental limit s = (.ok stats, t)) :
    IncrementalRun c limit s stats t := by
  unfold incremental at h
  split at h
  next hlimit =>
    cases h
    exact .idle (.inl hlimit) (refl_of Crawl.Extends s) rfl
  next hlimit =>
    obtain ⟨cp, u, hcp, h⟩ := bind_ok h
    obtain ⟨rfl, p, hp, rfl⟩ := checkpoint_ok hcp
    obtain ⟨answer, v, hv, h⟩ := bind_ok h
    rw [list_run] at hv
    cases hv
    change _ = _ at h
    cases hpage : c.remote.list u.calls (c.perPage limit) 1 with
    | error e =>
      rw [show c.remote.list u.calls (min limit (max c.settings.pageSize 1)) 1 = _ from hpage] at h
      cases h
      exact .idle (.inr (.inr ⟨e, hpage⟩)) (u.extends_call _) rfl
    | ok page =>
      rw [show c.remote.list u.calls (min limit (max c.settings.pageSize 1)) 1 = _ from hpage] at h
      cases page with
      | nil =>
        cases h
        exact .idle (.inr (.inl hpage)) (u.extends_call _) rfl
      | cons head page =>
        obtain ⟨⟨stats', last, complete⟩, w, hcatch, h⟩ := bind_ok h
        obtain ⟨⟨⟩, x, hadvance, h⟩ := bind_ok h
        cases h
        obtain ⟨done, left, hpending, hw, hstats, rfl, rfl, hleft⟩ := catchUp_ok hcatch
        -- the positions that are written over are those that were read at the beginning
        have hext := (within_catchUp (within_extends_processCommit c) _).of_run hcatch
        have ht := advance_ok (hext.positions.trans hp) hadvance
        refine .through hlimit hp hpage hpending hleft ?_ hstats ?_
        · rw [ht]
          exact hw
        · rw [ht]
          cases left <;> rfl

/-- An error in the incremental pass leaves the positions alone. -/
theorem incremental_error {e : CrawlError} (h : c.incremental limit s = (.error e, t)) :
    Crawl.Extends s t := by
  unfold incremental at h
  split at h
  · cases h
  rcases bind_error h with hcp | ⟨cp, u, hcp, hlist⟩
  · rw [checkpoint_error hcp]
    exact refl_of Crawl.Extends s
  obtain ⟨rfl, -⟩ := checkpoint_ok hcp
  rcases bind_error hlist with hlist | ⟨answer, v, hv, hpass⟩
  · cases hlist
  rw [list_run] at hv
  cases hv
  -- the mark is moved by the last statement, so whatever fails comes before that or is that
  refine trans_of Crawl.Extends (u.extends_call (.list (c.perPage limit) 1)) ?_
  cases hpage : c.remote.list u.calls (min limit (max c.settings.pageSize 1)) 1 with
  | error e => rw [hpage] at hpass; cases hpass
  | ok page =>
    rw [hpage] at hpass
    cases page with
    | nil => cases hpass
    | cons head page =>
      have hcatchUp := within_catchUp (within_extends_processCommit c)
        (newer cp.latest (head :: page)).reverse
      rcases bind_error hpass with hcatch | ⟨_, w, hw, hmove⟩
      · exact hcatchUp.of_run hcatch
      · rcases bind_error hmove with hmove | ⟨_, _, _, hmove⟩
        · rw [advance_error hmove]
          exact hcatchUp.of_run hw
        · cases hmove

section Within

variable {R : Crawl → Crawl → Prop} [IsPreorder Crawl R]

theorem within_updatePositions {part : CrawlPart} {w : Change} {f : Positions → Positions}
    (hsave : ∀ s positions, R s { s with db := { s.db with positions := positions } }) :
    Within R (update part (·.updatePositions w f)) := by
  refine within_update (refl_of R) fun s db hdb => ?_
  obtain ⟨p, -, -, rfl⟩ := Database.updatePositions_eq_ok_iff.mp hdb
  exact hsave s _

/-- The incremental pass is within what its request, its commits and its write are within. -/
theorem within_incremental (hlist : ∀ s n page, R s (s.call (.list n page)))
    (hcommit : ∀ pass sha, Within R (c.processCommit pass sha))
    (hsave : ∀ s positions, R s { s with db := { s.db with positions := positions } })
    (limit : Nat) : Within R (c.incremental limit) := by
  unfold incremental
  split
  · exact within_pure _
  refine .bind (within_query _ _) fun cp => .bind (fun s => hlist s _ _) fun answer => ?_
  cases answer with
  | error e => exact within_pure _
  | ok page =>
    cases page with
    | nil => exact within_pure _
    | cons head page =>
      refine .bind (within_catchUp hcommit _) fun outcome => .bind ?_ fun _ => within_pure _
      unfold advance
      cases (if outcome.2.2 = true then some head.sha else outcome.2.1) with
      | none => exact within_pure _
      | some sha =>
        simp only
        split
        · exact within_pure _
        · exact within_updatePositions hsave

end Within

end Crawler

end Harvest
