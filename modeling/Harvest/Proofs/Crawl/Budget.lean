import Harvest.Proofs.Crawl.Alike
import Harvest.Proofs.Crawl.World
import Harvest.Store.Schema

/-!
# Budgets of the way back

The way back may be gone in portions: two backfill passes lead as far as one with both their
budgets, because the position that is stored in between is read back, and a commit whose details
could not be had cannot be had the next time either.

## Main definitions

* `BackfillCursor.IsStorable` — a position that is read back
* `Remote.NamesProperly` — no first parent has a name that is stored for something else
* `Crawler.resume` — the walk from a position on

## Main results

* `Crawler.agree_walkBack_add` — a walk may be interrupted
* `Crawler.begins_of_steady` — the way back begins at the same place whenever it begins
* `Crawler.backfill_add` — two backfill passes do what one with both budgets does
-/

namespace Harvest

open CrawlStep

/-! ### Sums -/

namespace PassStats

theorem add_def (x y : PassStats) :
    x + y = ⟨x.commits + y.commits, x.files + y.files, x.streams + y.streams⟩ := rfl

theorem zero_add (x : PassStats) : {} + x = x := by
  simp [add_def]

theorem add_zero (x : PassStats) : x + {} = x := rfl

theorem add_assoc (x y z : PassStats) : x + y + z = x + (y + z) := by
  simp [add_def, Nat.add_assoc]

end PassStats

/-! ### Positions that are read back -/

namespace BackfillCursor

/-- The commit of the position, if there is one, has neither the empty name nor that of the mark. -/
def IsStorable (next : BackfillCursor) : Prop := ∀ sha, next = .at sha → sha ≠ "" ∧ sha ≠ doneMark

/-- What has been read can be stored. -/
theorem isStorable_ofStored (text : Option String) : (ofStored text).IsStorable := by
  intro sha h
  cases text with
  | none => cases h
  | some s =>
    unfold ofStored at h
    dsimp only at h
    split at h
    · cases h
    next hempty =>
      split at h
      · cases h
      next hmark =>
        cases h
        exact ⟨by simpa using hempty, hmark⟩

/-- A position that is stored beside the mark is read back. -/
theorem IsStorable.next_checkpoint {next : BackfillCursor} (h : next.IsStorable) (p : Positions) :
    ({ p with next := next.stored? } : Positions).checkpoint.next = next :=
  ofStored_stored h

theorem isStorable_done : IsStorable done := fun _ h => BackfillCursor.noConfusion h

end BackfillCursor

/-- No first parent of a commit has a name that would be read back as something else. -/
def Remote.NamesProperly (r : Remote) : Prop :=
  ∀ past sha d parent, r.commit past sha = .ok d → d.firstParent? = some parent →
    parent ≠ "" ∧ parent ≠ BackfillCursor.doneMark

namespace Crawler

variable {c : Crawler} {sha : String} {s t u : Crawl} {p : Positions} {a b n : Nat}

/-- Wherever a way back leads, it leads to a position that is read back. -/
theorem WayBack.isStorable (hnames : c.remote.NamesProperly) {shas : List String}
    {next : BackfillCursor} (h : WayBack c sha shas next)
    (hsha : sha ≠ "" ∧ sha ≠ BackfillCursor.doneMark) : next.IsStorable ∧ next ≠ .unset := by
  induction h with
  | here sha =>
    refine ⟨fun sha' h => ?_, BackfillCursor.noConfusion⟩
    cases h
    exact hsha
  | root => exact ⟨BackfillCursor.isStorable_done, BackfillCursor.noConfusion⟩
  | step hd hparent _ ih => exact ih (hnames _ _ _ _ hd hparent)

/-! ### Walks that are interrupted -/

/-- The walk from a position on, over at most `n` commits. -/
def resume (c : Crawler) (n : Nat) : BackfillCursor → CrawlStep (PassStats × BackfillCursor)
  | .at sha => c.walkBack n sha
  | next => pure ({}, next)

/-- The walk after its first commit, which has been processed unless its details cannot be had. -/
def onward (c : Crawler) (n : Nat) (sha : String) :
    Option ProcessedCommit → CrawlStep (PassStats × BackfillCursor)
  | none => pure ({}, .at sha)
  | some p =>
    match p.firstParent with
    | none => pure (p.stats, .done)
    | some parent => c.walkBack n parent >>= fun rest => pure (p.stats + rest.1, rest.2)

theorem walkBack_succ (c : Crawler) (n : Nat) (sha : String) :
    c.walkBack (n + 1) sha = c.processCommit .backfill sha >>= c.onward n sha := by
  rw [walkBack]
  rfl

theorem processCommit_of_failing {pass : Pass} {e : FetchError}
    (h : c.remote.commit s.calls sha = .error e) :
    c.processCommit pass sha s = (.ok none, s.call (.commit sha)) := by
  rw [processCommit, bind_run, commit_run, h]
  rfl

/-- A walk does not get away from a commit whose details cannot be had. -/
theorem walkBack_of_failing (hfail : ∀ past, ∃ e, c.remote.commit past sha = .error e) (n : Nat)
    (s : Crawl) : ∃ calls, c.walkBack n sha s = (.ok ({}, .at sha), { s with calls := calls }) := by
  cases n with
  | zero => exact ⟨s.calls, rfl⟩
  | succ n =>
    obtain ⟨e, he⟩ := hfail s.calls
    refine ⟨s.calls ++ [.commit sha], ?_⟩
    rw [walkBack_succ, bind_run, processCommit_of_failing he]
    rfl

theorem agree_walkBack (hsteady : c.remote.IsSteady) (n : Nat) (sha : String) :
    Agree (c.walkBack n sha) (c.walkBack n sha) := by
  induction n generalizing sha with
  | zero => exact agree_pure _
  | succ n ih =>
    rw [walkBack_succ]
    refine (agree_processCommit_of_steady hsteady .backfill sha).bind fun found => ?_
    unfold onward
    cases found with
    | none => exact agree_pure _
    | some q =>
      cases hq : q.firstParent with
      | none => simpa only [hq] using agree_pure _
      | some parent => simpa only [hq] using (ih parent).bind fun _ => agree_pure _

theorem agree_resume (hsteady : c.remote.IsSteady) (n : Nat) (next : BackfillCursor) :
    Agree (c.resume n next) (c.resume n next) := by
  cases next with
  | «at» sha => exact agree_walkBack hsteady n sha
  | unset | done => exact agree_pure _

theorem works_resume (hyears : c.YearsFit) (n : Nat) (next : BackfillCursor) :
    Works (c.resume n next) := by
  cases next with
  | «at» sha => exact works_walkBack hyears n sha
  | unset | done => exact works_pure _

/-- The walk that goes on where another one has stopped. -/
def continued (c : Crawler) (n : Nat) (first : PassStats × BackfillCursor) :
    CrawlStep (PassStats × BackfillCursor) := do
  let second ← c.resume n first.2
  return (first.1 + second.1, second.2)

/-- What has been done before is added to what comes. -/
theorem continued_add (x y : PassStats) (next : BackfillCursor) :
    c.continued n (x + y, next) =
      c.continued n (y, next) >>= fun rest => pure (x + rest.1, rest.2) := by
  simp only [continued, bind_assoc, pure_bind, PassStats.add_assoc]

/-- A walk may be interrupted after some commits and taken up again where it has stopped. -/
theorem agree_walkBack_add (hsteady : c.remote.IsSteady) (a b : Nat) (sha : String) :
    Agree (c.walkBack (a + b) sha) (c.walkBack a sha >>= c.continued b) := by
  induction a generalizing sha with
  | zero =>
    have hwhole : c.continued b ({}, .at sha) = c.walkBack b sha := by
      simp only [continued, resume, PassStats.zero_add]
      exact bind_pure _
    rw [Nat.zero_add]
    change Agree _ (c.continued b ({}, .at sha))
    rw [hwhole]
    exact agree_walkBack hsteady b sha
  | succ a ih =>
    rw [Nat.add_right_comm, walkBack_succ, walkBack_succ, bind_assoc]
    refine (agree_processCommit_of_steady hsteady .backfill sha).bind_of
      fun s t found u v hs ht huv => ?_
    cases found with
    | none =>
      -- the second walk asks for the same commit once more, and cannot have it either
      obtain ⟨⟨e, he⟩, -⟩ := processCommit_none ht
      have hfail : ∀ past, ∃ e, c.remote.commit past sha = .error e := fun past =>
        ⟨e, (congrFun (hsteady past t.calls).2.1 sha).trans he⟩
      obtain ⟨calls, hw⟩ := walkBack_of_failing hfail b v
      have hagain : c.continued b ({}, .at sha) v =
          (.ok ({}, .at sha), { v with calls := calls }) := by
        rw [continued, resume, bind_run, hw]
        rfl
      change _ = (c.continued b ({}, .at sha) v).1 ∧ _ = (c.continued b ({}, .at sha) v).2.core
      rw [hagain]
      exact ⟨rfl, huv⟩
    | some q =>
      cases hq : q.firstParent with
      | none =>
        simp only [onward, hq]
        exact ⟨rfl, huv⟩
      | some parent =>
        have hregroup : (c.onward a sha (some q) >>= c.continued b) =
            ((c.walkBack a parent >>= c.continued b) >>= fun rest =>
              pure (q.stats + rest.1, rest.2)) := by
          simp only [onward, hq, bind_assoc, pure_bind, continued_add]
        rw [hregroup]
        simp only [onward, hq]
        exact (ih parent).bind (fun _ => agree_pure _) u v huv

/-- Once a walk has been made in two portions, it is clear what the whole walk does. -/
theorem walkBack_add (hsteady : c.remote.IsSteady) {x y : PassStats} {next next' : BackfillCursor}
    (hx : c.walkBack a sha s = (.ok (x, next), t)) {t' : Crawl} (ht : t'.core = t.core)
    (hy : c.resume b next t' = (.ok (y, next'), u)) :
    ∃ v, c.walkBack (a + b) sha s = (.ok (x + y, next'), v) ∧ v.core = u.core := by
  obtain ⟨hvalue, hcore⟩ := agree_walkBack_add hsteady a b sha s s rfl
  obtain ⟨hvalue', hcore'⟩ := agree_resume hsteady b next t t' ht.symm
  rw [hy] at hvalue' hcore'
  have hrest : c.resume b next t = (.ok (y, next'), (c.resume b next t).2) := Prod.ext hvalue' rfl
  have hboth : (c.walkBack a sha >>= c.continued b) s =
      (.ok (x + y, next'), (c.resume b next t).2) := by
    rw [bind_run, hx]
    change c.continued b (x, next) t = _
    rw [continued, bind_run, hrest]
    rfl
  rw [hboth] at hvalue hcore
  exact ⟨(c.walkBack (a + b) sha s).2, Prod.ext hvalue rfl, hcore.trans hcore'⟩

/-! ### Passes -/

theorem checkpoint_run (hp : s.db.positions = some p) :
    CrawlStep.checkpoint s = (.ok p.checkpoint, s) := by
  unfold CrawlStep.checkpoint query Database.load
  rw [hp]
  rfl

/-- The positions are written if they are there and the change is not refused. -/
theorem updatePositions_run {part : CrawlPart} {w : Change} {f : Positions → Positions}
    (hp : s.db.positions = some p) (hopen : s.db.refusal w = none) :
    update part (·.updatePositions w f) s = (.ok (), s.withPositions (f p)) := by
  have hupdate : s.db.updatePositions w f = .ok { s.db with positions := some (f p) } :=
    Database.updatePositions_eq_ok_iff.mpr ⟨p, hp, hopen, rfl⟩
  simp only [update, hupdate]
  rfl

theorem saveNext_run {next : BackfillCursor} (hp : s.db.positions = some p)
    (hopen : s.db.refusal (.saveNext next) = none) : update .checkpoint (·.saveNext next) s =
      (.ok (), s.withPositions { p with next := next.stored? }) :=
  updatePositions_run hp hopen

/-- The walk stores where it has stopped. -/
theorem backfillFrom_run {x : PassStats} {next : BackfillCursor} (hp : s.db.positions = some p)
    (hopen : s.db.refusal (.saveNext next) = none) (h : c.walkBack n sha s = (.ok (x, next), t)) :
    c.backfillFrom n sha s = (.ok x, t.withPositions { p with next := next.stored? }) := by
  have hext := (within_walkBack (within_extends_processCommit c) n sha).of_run h
  rw [backfillFrom, bind_run, h]
  simp only [bind_run, saveNext_run (hext.positions.trans hp) (hext.refusal ▸ hopen)]
  rfl

theorem backfill_of_done (hp : s.db.positions = some p) (hnext : p.checkpoint.next = .done) :
    c.backfill n s = (.ok {}, s) := by
  unfold backfill
  split
  · rfl
  · rw [bind_run, checkpoint_run hp]
    simp only [hnext]
    rfl

theorem backfill_of_at (hn : n ≠ 0) (hp : s.db.positions = some p)
    (hnext : p.checkpoint.next = .at sha) : c.backfill n s = c.backfillFrom n sha s := by
  unfold backfill
  rw [if_neg hn, bind_run, checkpoint_run hp]
  simp only [hnext]

theorem backfill_of_unset (hn : n ≠ 0) (hp : s.db.positions = some p)
    (hnext : p.checkpoint.next = .unset) :
    c.backfill n s = (c.backfillStart p.checkpoint.latest >>= fun start =>
      match start with
      | none => pure {}
      | some sha => c.backfillFrom n sha) s := by
  unfold backfill
  rw [if_neg hn, bind_run, checkpoint_run hp]
  generalize p.checkpoint = cp at hnext ⊢
  obtain ⟨latest, next⟩ := cp
  obtain rfl : next = .unset := hnext
  rfl

/-! ### Where the way back begins -/

/-- The commit at which a remote whose answers do not change lets the way back begin, unless there
is no way back to go. -/
inductive Begins (c : Crawler) (latest : Option String) : Prop
  /-- The anchor has a first parent. -/
  | atParent (sha : String) (hsha : sha ≠ "" ∧ sha ≠ BackfillCursor.doneMark)
      (h : ∀ s, ∃ calls, c.backfillStart latest s = (.ok (some sha), { s with calls := calls }))
  /-- The anchor is the first commit of all. -/
  | atRoot (h : ∀ s p, s.db.positions = some p → s.db.refusal (.saveNext .done) = none →
      ∃ calls, c.backfillStart latest s = (.ok none,
        ({ s with calls := calls } : Crawl).withPositions
          { p with next := BackfillCursor.done.stored? }))
  /-- There is no anchor, or its details cannot be had. -/
  | nowhere (h : ∀ s, ∃ calls, c.backfillStart latest s = (.ok none, { s with calls := calls }))

/-- Looking for the anchor leaves nothing behind but requests, and finds the same one every time. -/
theorem anchor_of_steady (hsteady : c.remote.IsSteady) (latest : Option String) :
    ∃ anchor, ∀ s, ∃ calls, c.anchor latest s = (.ok anchor, { s with calls := calls }) := by
  cases latest with
  | some sha => exact ⟨some sha, fun s => ⟨s.calls, rfl⟩⟩
  | none =>
    have hlist : ∀ s : Crawl, c.remote.list s.calls 1 1 = c.remote.list [] 1 1 := fun s =>
      congrFun (congrFun (hsteady s.calls []).1 1) 1
    cases hpage : c.remote.list [] 1 1 with
    | error e =>
      refine ⟨none, fun s => ⟨s.calls ++ [.list 1 1], ?_⟩⟩
      rw [Crawler.anchor, bind_run, list_run, hlist s, hpage]
      rfl
    | ok page =>
      refine ⟨page.head?.map CommitSummary.sha, fun s => ⟨s.calls ++ [.list 1 1], ?_⟩⟩
      rw [Crawler.anchor, bind_run, list_run, hlist s, hpage]
      rfl

/-- It turns out the same way every time where the way back begins: there is a first commit or none,
and only requests are left behind, or the anchor is the first commit of all, which is noted. -/
theorem backfillStart_of_steady (hsteady : c.remote.IsSteady) (latest : Option String) :
    (∃ start, (∀ sha, start = some sha →
        ∃ past anchor d, c.remote.commit past anchor = .ok d ∧ d.firstParent? = some sha) ∧
      ∀ s, ∃ calls, c.backfillStart latest s = (.ok start, { s with calls := calls })) ∨
    ∀ s, ∃ calls, c.backfillStart latest s =
      (update .checkpoint (·.saveNext .done) >>= fun _ => pure none)
        ({ s with calls := calls } : Crawl) := by
  obtain ⟨anchor, hanchor⟩ := anchor_of_steady hsteady latest
  cases anchor with
  | none =>
    refine .inl ⟨none, fun sha h => (by cases h), fun s => ?_⟩
    obtain ⟨calls, hrun⟩ := hanchor s
    refine ⟨calls, ?_⟩
    rw [backfillStart, bind_run, hrun]
    rfl
  | some sha =>
    have hdetail : ∀ past, c.remote.commit past sha = c.remote.commit [] sha := fun past =>
      congrFun (hsteady past []).2.1 sha
    cases hd : c.remote.commit [] sha with
    | error e =>
      refine .inl ⟨none, fun sha h => (by cases h), fun s => ?_⟩
      obtain ⟨calls, hrun⟩ := hanchor s
      refine ⟨calls ++ [.commit sha], ?_⟩
      rw [backfillStart, bind_run, hrun]
      simp only [bind_run, commit_run, hdetail, hd]
      rfl
    | ok d =>
      cases hparent : d.firstParent? with
      | some parent =>
        refine .inl ⟨some parent, fun sha' h => ⟨[], sha, d, hd, hparent.trans h⟩, fun s => ?_⟩
        obtain ⟨calls, hrun⟩ := hanchor s
        refine ⟨calls ++ [.commit sha], ?_⟩
        rw [backfillStart, bind_run, hrun]
        simp only [bind_run, commit_run, hdetail, hd, hparent]
        rfl
      | none =>
        refine .inr fun s => ?_
        obtain ⟨calls, hrun⟩ := hanchor s
        refine ⟨calls ++ [.commit sha], ?_⟩
        rw [backfillStart, bind_run, hrun]
        simp only [bind_run, commit_run, hdetail, hd, hparent]
        rfl

/-- The way back begins at the same place whenever it begins. -/
theorem begins_of_steady (hsteady : c.remote.IsSteady) (hnames : c.remote.NamesProperly)
    (latest : Option String) : c.Begins latest := by
  rcases backfillStart_of_steady hsteady latest with ⟨start, hparent, hstart⟩ | hroot
  · cases start with
    | none => exact .nowhere hstart
    | some sha =>
      obtain ⟨past, anchor, d, hd, hfirst⟩ := hparent sha rfl
      exact .atParent sha (hnames past anchor d sha hd hfirst) hstart
  · refine .atRoot fun s p hp hopen => ?_
    obtain ⟨calls, hrun⟩ := hroot s
    refine ⟨calls, ?_⟩
    rw [hrun, bind_run, saveNext_run (s := { s with calls := calls }) hp hopen]
    rfl

/-! ### Both budgets -/

/-- A walk of a pass is gone on with by the next pass. -/
theorem backfillFrom_add (hsteady : c.remote.IsSteady) (hnames : c.remote.NamesProperly)
    (hyears : c.YearsFit) (hs : s.db.IsWorking) (hb : b ≠ 0)
    (hsha : sha ≠ "" ∧ sha ≠ BackfillCursor.doneMark) :
    ∃ x y t u v, c.backfillFrom a sha s = (.ok x, t) ∧ c.backfill b t = (.ok y, u) ∧
      c.backfillFrom (a + b) sha s = (.ok (x + y), v) ∧ u.db = v.db ∧ u.cache = v.cache := by
  obtain ⟨p, hp⟩ := hs.positions
  obtain ⟨⟨x, next⟩, t, hwalk, ht⟩ := works_walkBack hyears a sha s hs
  obtain ⟨shas, hway, -⟩ := walkBack_ok hwalk
  obtain ⟨hstorable, hset⟩ := hway.isStorable hnames hsha
  -- the second pass reads the position that the first one has stored
  have hnext := hstorable.next_checkpoint p
  have hstored : (t.withPositions { p with next := next.stored? }).db.IsWorking :=
    { ht with positions := ⟨_, rfl⟩ }
  obtain ⟨⟨y, next'⟩, u, hresume, -⟩ := works_resume hyears b next _ hstored
  have hsecond : c.backfill b (t.withPositions { p with next := next.stored? }) =
      (.ok y, u.withPositions { p with next := next'.stored? }) := by
    cases next with
    | unset => exact absurd rfl hset
    | done =>
      cases hresume
      exact backfill_of_done rfl hnext
    | «at» sha' =>
      rw [backfill_of_at hb rfl hnext]
      have hrun :=
        backfillFrom_run (p := { p with next := some sha' }) rfl (hstored.refusal _) hresume
      exact hrun
  obtain ⟨v, hall, hcore⟩ := walkBack_add hsteady hwalk (Crawl.core_withPositions _) hresume
  obtain ⟨hdb, hcache, -⟩ := Crawl.core_eq_iff.mp hcore
  refine ⟨x, y, _, _, _, backfillFrom_run hp (hs.refusal _) hwalk, hsecond,
    backfillFrom_run hp (hs.refusal _) hall, ?_, ?_⟩
  · exact Database.eq_of_core_of_positions hdb.symm rfl
  · exact hcache.symm

/-- A way back that has not begun begins at the same place for both passes and for one with both
their budgets. -/
theorem backfill_add_of_unset (hsteady : c.remote.IsSteady) (hnames : c.remote.NamesProperly)
    (hyears : c.YearsFit) (hs : s.db.IsWorking) (hp : s.db.positions = some p)
    (hnext : p.checkpoint.next = .unset) (ha : a ≠ 0) (hb : b ≠ 0) :
    ∃ x y t u v, c.backfill a s = (.ok x, t) ∧ c.backfill b t = (.ok y, u) ∧
      c.backfill (a + b) s = (.ok (x + y), v) ∧ u.db = v.db ∧ u.cache = v.cache := by
  have hab : a + b ≠ 0 := by omega
  cases begins_of_steady hsteady hnames p.checkpoint.latest with
  | atParent sha hsha hstart =>
    obtain ⟨calls, hrun⟩ := hstart s
    have hfrom : ∀ n, n ≠ 0 →
        c.backfill n s = c.backfillFrom n sha { s with calls := calls } := by
      intro n hn
      rw [backfill_of_unset hn hp hnext, bind_run, hrun]
    rw [hfrom a ha, hfrom (a + b) hab]
    exact backfillFrom_add hsteady hnames hyears hs hb hsha
  | atRoot hstart =>
    -- the first pass stores that nothing is left, and the second one reads it
    obtain ⟨calls, hrun⟩ := hstart s p hp (hs.refusal _)
    have hroot : ∀ n, n ≠ 0 → c.backfill n s =
        (.ok {}, ({ s with calls := calls } : Crawl).withPositions
          { p with next := BackfillCursor.done.stored? }) := by
      intro n hn
      rw [backfill_of_unset hn hp hnext, bind_run, hrun]
      rfl
    have hdone := BackfillCursor.isStorable_done.next_checkpoint p
    exact ⟨{}, {}, _, _, _, hroot a ha, backfill_of_done rfl hdone, hroot (a + b) hab, rfl, rfl⟩
  | nowhere hstart =>
    -- every pass looks for the anchor, finds no way back, and stores nothing
    have hidle : ∀ n s, n ≠ 0 → s.db.positions = some p →
        ∃ calls, c.backfill n s = (.ok {}, { s with calls := calls }) := by
      intro n s hn hp
      obtain ⟨calls, hrun⟩ := hstart s
      refine ⟨calls, ?_⟩
      rw [backfill_of_unset hn hp hnext, bind_run, hrun]
      rfl
    obtain ⟨calls, hrun⟩ := hidle a s ha hp
    obtain ⟨calls', hrun'⟩ := hidle b { s with calls := calls } hb hp
    obtain ⟨calls'', hrun''⟩ := hidle (a + b) s hab hp
    exact ⟨{}, {}, _, _, _, hrun, hrun', hrun'', rfl, rfl⟩

/-- Two backfill passes do what one with both their budgets does. -/
theorem backfill_add (hsteady : c.remote.IsSteady) (hnames : c.remote.NamesProperly)
    (hyears : c.YearsFit) (hs : s.db.IsWorking) (a b : Nat) :
    ∃ x y t u v, c.backfill a s = (.ok x, t) ∧ c.backfill b t = (.ok y, u) ∧
      c.backfill (a + b) s = (.ok (x + y), v) ∧ u.db = v.db ∧ u.cache = v.cache := by
  obtain ⟨p, hp⟩ := hs.positions
  -- a pass without a budget reads nothing, not even the positions
  by_cases ha : a = 0
  · obtain ⟨y, u, hrun, -⟩ := works_backfill hyears b s hs
    refine ⟨{}, y, s, u, u, by rw [ha]; rfl, hrun, ?_, rfl, rfl⟩
    rw [ha, Nat.zero_add, PassStats.zero_add]
    exact hrun
  by_cases hb : b = 0
  · obtain ⟨x, t, hrun, -⟩ := works_backfill hyears a s hs
    refine ⟨x, {}, t, t, t, hrun, by rw [hb]; rfl, ?_, rfl, rfl⟩
    rw [hb, Nat.add_zero, PassStats.add_zero]
    exact hrun
  cases hnext : p.checkpoint.next with
  | done =>
    exact ⟨{}, {}, s, s, s, backfill_of_done hp hnext, backfill_of_done hp hnext,
      backfill_of_done hp hnext, rfl, rfl⟩
  | «at» sha =>
    have hab : a + b ≠ 0 := by omega
    rw [backfill_of_at ha hp hnext, backfill_of_at hab hp hnext]
    exact backfillFrom_add hsteady hnames hyears hs hb
      (BackfillCursor.isStorable_ofStored p.next sha hnext)
  | unset => exact backfill_add_of_unset hsteady hnames hyears hs hp hnext ha hb

end Crawler

/-! ### A small example -/

theorem Database.isWorking_fresh : Database.fresh.IsWorking where
  refusal _ := rfl
  positions := ⟨_, rfl⟩
  blobs := ⟨_, rfl⟩
  media := ⟨{}, rfl, fun row hrow => by cases hrow⟩
  streams := ⟨_, rfl⟩
  files := ⟨_, rfl⟩

theorem Archive.namesProperly {a : Archive}
    (h : ∀ d ∈ a.commits, ∀ parent ∈ d.firstParent?,
      parent ≠ "" ∧ parent ≠ BackfillCursor.doneMark) : a.remote.NamesProperly := by
  intro past sha d parent hd hparent
  simp only [remote, answer] at hd
  split at hd
  · cases hd
  · cases hfind : a.find? sha with
    | none => rw [hfind] at hd; cases hd
    | some d' =>
      rw [hfind] at hd
      cases hd
      exact h _ (List.mem_of_find?_eq_some hfind) parent hparent

namespace Crawler

theorem yearsFit_small (a : Archive) : (small a).YearsFit := by
  intro past q results h r hr
  cases h
  cases hr

/-- The way back over three commits is cut behind the first of them. -/
theorem backfill_add_small :
    (small .small).remote.IsSteady ∧ (small .small).remote.NamesProperly ∧
    (small .small).YearsFit ∧ Database.fresh.IsWorking ∧
    ∃ x y t u v, (small .small).backfill 1 { db := Database.fresh } = (.ok x, t) ∧
      (small .small).backfill 2 t = (.ok y, u) ∧
      (small .small).backfill (1 + 2) { db := Database.fresh } = (.ok (x + y), v) ∧
      u.db = v.db ∧ u.cache = v.cache := by
  have hsteady := Archive.small.remote_isSteady
  have hnames : Archive.small.remote.NamesProperly :=
    Archive.namesProperly (by decide +kernel)
  exact ⟨hsteady, hnames, yearsFit_small _, Database.isWorking_fresh,
    backfill_add hsteady hnames (yearsFit_small _) Database.isWorking_fresh 1 2⟩

end Crawler

end Harvest
