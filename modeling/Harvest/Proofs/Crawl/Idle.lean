import Harvest.Proofs.Crawl.Resume

/-!
# Runs that do nothing

A run may process no commit for many reasons: there is nothing new, the listing or the details of a
commit cannot be had, the way back is over or cannot begin. If the answers of the remote do not
change, the same reason holds for the next run. So the first idle run, which may still write where
the way back goes on, is the last one that changes anything.

## Main definitions

* `CrawlStep.OnlyAsks` — a step leaves nothing behind but requests
* `Database.withNext` — a database with another position of the way back
* `Crawler.IncrementalIdle`, `Crawler.BackfillIdle`, `Crawler.Idle` — why a pass, or a run, has
  nothing to do
* `Crawler.runs` — runs in a row

## Main results

* `Crawler.Idle.onlyAsks` — with nothing to do, a run leaves nothing behind but requests
* `Crawler.idle_of_run` — after a run that has done nothing, there is nothing to do
* `Crawler.idle_of_iterate` — nor after iterations that have ended without progress
* `Crawler.idle_runs_repeat` — idle runs repeat themselves for good
-/

namespace Harvest

open CrawlStep

namespace CrawlStep

variable {α β : Type} {x : CrawlStep α} {s t : Crawl} {a : α}

/-- The step ends with the value, and leaves nothing behind but requests to the remote. -/
def OnlyAsks (x : CrawlStep α) (s : Crawl) (a : α) : Prop :=
  ∃ calls, x s = (.ok a, { s with calls := calls })

theorem onlyAsks_pure (a : α) (s : Crawl) : OnlyAsks (pure a) s a := ⟨s.calls, rfl⟩

theorem OnlyAsks.bind {f : α → CrawlStep β} {b : β} (hx : x.OnlyAsks s a)
    (hf : ∀ calls, (f a).OnlyAsks { s with calls := calls } b) : (x >>= f).OnlyAsks s b := by
  obtain ⟨calls, hx⟩ := hx
  obtain ⟨calls', hf⟩ := hf calls
  refine ⟨calls', ?_⟩
  rw [bind_run, hx]
  exact hf

theorem OnlyAsks.during (part : CrawlPart) (h : x.OnlyAsks s a) :
    (x.during part).OnlyAsks s a := by
  obtain ⟨calls, h⟩ := h
  exact ⟨calls, by rw [CrawlStep.during, h]⟩

theorem OnlyAsks.withFreshCache (h : x.OnlyAsks { s with cache := {} } a) :
    (x.withFreshCache).OnlyAsks s a := by
  obtain ⟨calls, h⟩ := h
  refine ⟨calls, ?_⟩
  rw [CrawlStep.withFreshCache, h]

/-- A step has one end only. -/
theorem OnlyAsks.eq_of_run {b : α} (h : x.OnlyAsks s a) (hrun : x s = (.ok b, t)) :
    b = a ∧ ∃ calls, t = { s with calls := calls } := by
  obtain ⟨calls, h⟩ := h
  rw [h] at hrun
  cases hrun
  exact ⟨rfl, calls, rfl⟩

end CrawlStep

namespace Database

/-- The database with another position of the way back. -/
def withNext (d : Database) (next : Option String) : Database :=
  { d with positions := d.positions.map fun p => { p with next := next } }

variable {d : Database} {p : Positions}

theorem withNext_of_positions (hp : d.positions = some p) (next : Option String) :
    d.withNext next = { d with positions := some { p with next := next } } := by
  rw [withNext, hp]
  rfl

/-- A database has a position of the way back already. -/
theorem exists_withNext_self (d : Database) : ∃ next, d.withNext next = d := by
  refine ⟨d.positions.bind (·.next), ?_⟩
  obtain ⟨version, positions, blobs, media, streams, files, _, _⟩ := d
  cases positions <;> rfl

end Database

/-- A commit that stands for the next one on the way back has been stored under its name. -/
theorem BackfillCursor.eq_some_of_ofStored {text : Option String} {sha : String}
    (h : ofStored text = .at sha) : text = some sha := by
  cases text with
  | none => cases h
  | some s =>
    unfold ofStored at h
    dsimp only at h
    split at h
    · cases h
    · split at h
      · cases h
      · cases h
        rfl

namespace Crawler

variable {c : Crawler} {limit : Nat} {limits : PassLimits} {s t : Crawl} {p : Positions}
  {d : Database} {sha : String}

/-- An answer about a commit does not depend on the requests of the past. -/
theorem commit_of_steady (hsteady : c.remote.IsSteady) {past : List RemoteCall}
    {answer : Except FetchError CommitDetail} (h : c.remote.commit past sha = answer)
    (past' : List RemoteCall) : c.remote.commit past' sha = answer :=
  (congrFun (hsteady past' past).2.1 sha).trans h

/-- A step that begins with the positions and ends with a value has found them. -/
theorem exists_positions_of_checkpoint {α : Type} {g : Checkpoint → CrawlStep α} {a : α}
    (h : (checkpoint >>= g) s = (.ok a, t)) : ∃ p, s.db.positions = some p := by
  obtain ⟨cp, u, hcp, -⟩ := bind_ok h
  obtain ⟨-, p, hp, -⟩ := checkpoint_ok hcp
  exact ⟨p, hp⟩

/-! ### The incremental pass -/

/-- The incremental pass has nothing to do. -/
inductive IncrementalIdle (c : Crawler) (limit : Nat) (d : Database) : Prop
  /-- No commit may be processed. -/
  | closed (hlimit : limit = 0)
  /-- The commits cannot be listed. -/
  | unlisted {p : Positions} {e : FetchError} (hp : d.positions = some p)
      (hpage : c.remote.list [] (c.perPage limit) 1 = .error e)
  /-- No commit is newer than the mark. -/
  | level {p : Positions} {page : List CommitSummary} (hp : d.positions = some p)
      (hpage : c.remote.list [] (c.perPage limit) 1 = .ok page)
      (hnewer : newer p.checkpoint.latest page = [])
  /-- The details of the oldest commit that is newer cannot be had. -/
  | missing {p : Positions} {page : List CommitSummary} {sha : String} {shas : List String}
      {e : FetchError} (hp : d.positions = some p)
      (hpage : c.remote.list [] (c.perPage limit) 1 = .ok page)
      (hnewer : (newer p.checkpoint.latest page).reverse = sha :: shas)
      (he : c.remote.commit [] sha = .error e)

/-- The pass does not go by the position of the way back. -/
theorem IncrementalIdle.withNext (h : c.IncrementalIdle limit d) {d' : Database}
    {next : Option String} (hd : d'.positions = (d.withNext next).positions) :
    c.IncrementalIdle limit d' := by
  have hstored : ∀ {p : Positions}, d.positions = some p →
      d'.positions = some { p with next := next } := fun hp =>
    hd.trans (congrArg Database.positions (d.withNext_of_positions hp next))
  cases h with
  | closed hlimit => exact .closed hlimit
  | unlisted hp hpage => exact .unlisted (hstored hp) hpage
  | level hp hpage hnewer => exact .level (hstored hp) hpage hnewer
  | missing hp hpage hnewer he => exact .missing (hstored hp) hpage hnewer he

/-- With nothing to do, the pass leaves nothing behind but requests. -/
theorem IncrementalIdle.onlyAsks (hsteady : c.remote.IsSteady)
    (h : c.IncrementalIdle limit s.db) : (c.incremental limit).OnlyAsks s {} := by
  by_cases hlimit : limit = 0
  · refine ⟨s.calls, ?_⟩
    rw [hlimit]
    rfl
  have hlist : ∀ {answer}, c.remote.list [] (c.perPage limit) 1 = answer →
      c.remote.list s.calls (c.perPage limit) 1 = answer := fun hpage =>
    (congrFun (congrFun (hsteady s.calls []).1 _) 1).trans hpage
  cases h with
  | closed hzero => exact absurd hzero hlimit
  | unlisted hp hpage =>
    have hpage' := hlist hpage
    unfold perPage at hpage'
    refine ⟨s.calls ++ [.list (c.perPage limit) 1], ?_⟩
    rw [incremental, if_neg hlimit, bind_run, checkpoint_run hp]
    simp only [bind_run, list_run, hpage']
    rfl
  | @level p page hp hpage hnewer =>
    have hcatch : c.catchUp (newer p.checkpoint.latest page).reverse
        (s.call (.list (c.perPage limit) 1)) =
        (.ok ({}, none, true), s.call (.list (c.perPage limit) 1)) := by
      rw [hnewer]
      rfl
    have hlevel : ∀ sha, page.head?.map CommitSummary.sha = some sha →
        page.head?.map CommitSummary.sha = p.checkpoint.latest := by
      intro sha hhead
      cases page with
      | nil => cases hhead
      | cons head page =>
        -- the commit at the top of the page is not newer, so it bears the mark
        by_contra hne
        rw [newer, List.map_cons, List.takeWhile_cons_of_pos (by simpa using hne)] at hnewer
        cases hnewer
    exact ⟨_, incremental_eq hlimit hp (hlist hpage) hcatch (advance_of_level hlevel)⟩
  | @missing p page sha shas e hp hpage hnewer he =>
    have hcommit : c.processCommit .incremental sha (s.call (.list (c.perPage limit) 1)) =
        (.ok none, _) :=
      processCommit_of_failing (commit_of_steady hsteady he _)
    have hcatch : c.catchUp (sha :: shas) _ = _ := catchUp_cons_none hcommit
    rw [← hnewer] at hcatch
    -- no commit has been processed, so there is no new mark either
    exact ⟨_, incremental_eq hlimit hp (hlist hpage) hcatch
      (advance_of_level fun sha h => by cases h)⟩

/-- An incremental pass that has processed nothing has had nothing to do. -/
theorem incrementalIdle_of_incremental (hsteady : c.remote.IsSteady) {x : PassStats}
    (h : c.incremental limit s = (.ok x, t)) (hx : x.commits = 0) :
    c.IncrementalIdle limit s.db := by
  by_cases hlimit : limit = 0
  · exact .closed hlimit
  obtain ⟨p, hp⟩ : ∃ p, s.db.positions = some p := by
    rw [incremental, if_neg hlimit] at h
    exact exists_positions_of_checkpoint h
  have hlist : ∀ {answer}, c.remote.list s.calls (c.perPage limit) 1 = answer →
      c.remote.list [] (c.perPage limit) 1 = answer := fun hpage =>
    (congrFun (congrFun (hsteady [] s.calls).1 _) 1).trans hpage
  cases incrementalRun_of_incremental h with
  | idle hidle =>
    rcases hidle with hzero | hpage | ⟨e, hpage⟩
    · exact absurd hzero hlimit
    · exact .level hp (hlist hpage) rfl
    · exact .unlisted hp (hlist hpage)
  | @through _ _ p head page done left _ hp hpage hpending hleft _ hstats _ =>
    obtain rfl : done = [] := List.eq_nil_of_length_eq_zero (hstats.symm.trans hx)
    cases left with
    | nil => exact .level hp (hlist hpage) (List.reverse_eq_nil_iff.mp hpending)
    | cons sha left =>
      obtain ⟨past, e, he⟩ := hleft sha rfl
      exact .missing hp (hlist hpage) hpending (commit_of_steady hsteady he [])

/-! ### The backfill pass -/

/-- The backfill pass has nothing to do. -/
inductive BackfillIdle (c : Crawler) (limit : Nat) (d : Database) : Prop
  /-- No commit may be processed. -/
  | closed (hlimit : limit = 0)
  /-- The way back is over. -/
  | finished {p : Positions} (hp : d.positions = some p) (hnext : p.checkpoint.next = .done)
  /-- The details of the next commit cannot be had. -/
  | missing {p : Positions} {sha : String} {e : FetchError} (hp : d.positions = some p)
      (hopen : d.refusal (.saveNext (.at sha)) = none) (hnext : p.checkpoint.next = .at sha)
      (he : c.remote.commit [] sha = .error e)
  /-- The way back cannot begin. -/
  | unanchored {p : Positions} (hp : d.positions = some p) (hnext : p.checkpoint.next = .unset)
      (hstart : ∀ s, (c.backfillStart p.checkpoint.latest).OnlyAsks s none)
  /-- The way back begins at a commit without a name, whose details cannot be had. What is stored of
  it is read as if the way back had not begun. -/
  | unnamed {p : Positions} {e : FetchError} (hp : d.positions = some p)
      (hopen : d.refusal (.saveNext (.at "")) = none) (hnext : p.next = some "")
      (hstart : ∀ s, (c.backfillStart p.checkpoint.latest).OnlyAsks s (some ""))
      (he : c.remote.commit [] "" = .error e)

/-- A pass that comes to a commit whose details cannot be had stores that this is the next one. -/
theorem backfillFrom_of_failing (hsteady : c.remote.IsSteady) {e : FetchError}
    (hp : s.db.positions = some p) (hopen : s.db.refusal (.saveNext (.at sha)) = none)
    (he : c.remote.commit [] sha = .error e) (limit : Nat) :
    ∃ calls, c.backfillFrom limit sha s = (.ok {}, ({ s with calls := calls } : Crawl).withPositions
      { p with next := some sha }) := by
  obtain ⟨calls, hwalk⟩ :=
    walkBack_of_failing (fun past => ⟨e, commit_of_steady hsteady he past⟩) limit s
  exact ⟨calls, backfillFrom_run hp hopen hwalk⟩

/-- It cannot end with a value if that is refused. -/
theorem refusal_of_backfillFrom (hsteady : c.remote.IsSteady) {e : FetchError} {x : PassStats}
    (he : c.remote.commit [] sha = .error e) (h : c.backfillFrom limit sha s = (.ok x, t)) :
    s.db.refusal (.saveNext (.at sha)) = none := by
  obtain ⟨calls, hwalk⟩ :=
    walkBack_of_failing (fun past => ⟨e, commit_of_steady hsteady he past⟩) limit s
  rw [backfillFrom, bind_run, hwalk] at h
  obtain ⟨_, u, hsave, -⟩ := bind_ok h
  obtain ⟨d, hd, -⟩ := update_ok hsave
  obtain ⟨-, -, hopen, -⟩ := Database.updatePositions_eq_ok_iff.mp hd
  exact hopen

/-- If that is stored already, nothing changes. -/
theorem onlyAsks_backfillFrom (hsteady : c.remote.IsSteady) {e : FetchError}
    (hp : s.db.positions = some p) (hopen : s.db.refusal (.saveNext (.at sha)) = none)
    (hnext : p.next = some sha) (he : c.remote.commit [] sha = .error e) (limit : Nat) :
    (c.backfillFrom limit sha).OnlyAsks s {} := by
  obtain ⟨calls, hrun⟩ := backfillFrom_of_failing hsteady hp hopen he limit
  refine ⟨calls, hrun.trans (congrArg (Except.ok _, ·) ?_)⟩
  rw [← hnext]
  exact Crawl.withPositions_self (s := { s with calls := calls }) hp

/-- With nothing to do, the pass leaves nothing behind but requests. -/
theorem BackfillIdle.onlyAsks (hsteady : c.remote.IsSteady) (h : c.BackfillIdle limit s.db) :
    (c.backfill limit).OnlyAsks s {} := by
  by_cases hlimit : limit = 0
  · refine ⟨s.calls, ?_⟩
    rw [hlimit]
    rfl
  cases h with
  | closed hzero => exact absurd hzero hlimit
  | finished hp hnext => exact ⟨s.calls, backfill_of_done hp hnext⟩
  | missing hp hopen hnext he =>
    have hfrom := onlyAsks_backfillFrom hsteady hp hopen
      (BackfillCursor.eq_some_of_ofStored hnext) he limit
    unfold OnlyAsks at hfrom ⊢
    rwa [backfill_of_at hlimit hp hnext]
  | unanchored hp hnext hstart =>
    unfold OnlyAsks
    rw [backfill_of_unset hlimit hp hnext]
    exact (hstart s).bind fun calls => onlyAsks_pure _ _
  | @unnamed p e hp hopen hnext hstart he =>
    have hunset : p.checkpoint.next = .unset := by
      rw [Positions.checkpoint, hnext]
      rfl
    unfold OnlyAsks
    rw [backfill_of_unset hlimit hp hunset]
    exact (hstart s).bind fun calls =>
      onlyAsks_backfillFrom hsteady (s := { s with calls := calls }) hp hopen hnext he limit

/-- The first commit on the way back, once it is stored as the next one and cannot be had, keeps the
pass from doing anything. -/
theorem backfillIdle_of_start (hp : d.positions = some p) {e : FetchError}
    (hopen : d.refusal (.saveNext (.at sha)) = none)
    (hstart : ∀ s, (c.backfillStart p.checkpoint.latest).OnlyAsks s (some sha))
    (he : c.remote.commit [] sha = .error e) : c.BackfillIdle limit (d.withNext (some sha)) := by
  have hstored := congrArg Database.positions (d.withNext_of_positions hp (some sha))
  -- the name of the commit may be one that is read as something else
  by_cases hempty : sha = ""
  · subst hempty
    exact .unnamed hstored hopen rfl hstart he
  by_cases hmark : sha = BackfillCursor.doneMark
  · subst hmark
    exact .finished hstored (BackfillCursor.isStorable_done.next_checkpoint p)
  · have hat : BackfillCursor.IsStorable (.at sha) := fun sha' h => by
      cases h
      exact ⟨hempty, hmark⟩
    exact .missing hstored hopen (hat.next_checkpoint p) he

/-- A backfill pass that has processed nothing has changed at most the position of the way back, and
leaves nothing to do. -/
theorem backfillIdle_of_backfill (hsteady : c.remote.IsSteady) {x : PassStats}
    (h : c.backfill limit s = (.ok x, t)) (hx : x.commits = 0) :
    ∃ calls next, t = { s with calls := calls, db := s.db.withNext next } ∧
      c.BackfillIdle limit t.db := by
  -- in all cases but one, the pass has had nothing to do before
  have unchanged : c.BackfillIdle limit s.db → ∃ calls next,
      t = { s with calls := calls, db := s.db.withNext next } ∧ c.BackfillIdle limit t.db := by
    intro hidle
    obtain ⟨-, calls, rfl⟩ := (hidle.onlyAsks hsteady).eq_of_run h
    obtain ⟨next, hnext⟩ := s.db.exists_withNext_self
    exact ⟨calls, next, by rw [hnext], hidle⟩
  by_cases hlimit : limit = 0
  · exact unchanged (.closed hlimit)
  obtain ⟨p, hp⟩ : ∃ p, s.db.positions = some p := by
    rw [backfill, if_neg hlimit] at h
    exact exists_positions_of_checkpoint h
  cases hnext : p.checkpoint.next with
  | done => exact unchanged (.finished hp hnext)
  | «at» sha =>
    have hfrom := h
    rw [backfill_of_at hlimit hp hnext] at hfrom
    obtain ⟨shas, -, -, -, hstats, hstuck, -⟩ := backfillFrom_ok hlimit hp hfrom
    obtain ⟨past, e, he⟩ := hstuck (List.eq_nil_of_length_eq_zero (hstats.symm.trans hx))
    have he := commit_of_steady hsteady he []
    exact unchanged (.missing hp (refusal_of_backfillFrom hsteady he hfrom) hnext he)
  | unset =>
    have hrest := h
    rw [backfill_of_unset hlimit hp hnext] at hrest
    rcases backfillStart_of_steady hsteady p.checkpoint.latest with ⟨start, -, hstart⟩ | hroot
    · cases start with
      | none => exact unchanged (.unanchored hp hnext hstart)
      | some sha =>
        obtain ⟨calls, hrun⟩ := hstart s
        rw [bind_run, hrun] at hrest
        -- the pass has come to the first commit on the way back, and no further
        obtain ⟨shas, -, -, -, hstats, hstuck, -⟩ :=
          backfillFrom_ok (s := { s with calls := calls }) hlimit hp hrest
        obtain ⟨past, e, he⟩ := hstuck (List.eq_nil_of_length_eq_zero (hstats.symm.trans hx))
        have he := commit_of_steady hsteady he []
        have hopen := refusal_of_backfillFrom hsteady he hrest
        obtain ⟨calls', hfrom⟩ :=
          backfillFrom_of_failing (s := { s with calls := calls }) hsteady hp hopen he limit
        cases hfrom.symm.trans hrest
        have hstored := s.db.withNext_of_positions hp (some sha)
        refine ⟨calls', some sha, by rw [hstored]; rfl, ?_⟩
        have hidle : c.BackfillIdle limit _ := backfillIdle_of_start hp hopen hstart he
        rw [hstored] at hidle
        exact hidle
    · -- the anchor is the first commit, which is noted by the start itself
      obtain ⟨calls, hrun⟩ := hroot s
      obtain ⟨start, u, hstart, hend⟩ := bind_ok hrest
      obtain ⟨_, v, hsave, hnone⟩ := bind_ok (hrun.symm.trans hstart)
      obtain rfl := updatePositions_ok (s := { s with calls := calls }) hp hsave
      cases hnone
      cases hend
      refine ⟨calls, BackfillCursor.done.stored?, ?_, ?_⟩
      · rw [s.db.withNext_of_positions hp]
      · exact .finished rfl (BackfillCursor.isStorable_done.next_checkpoint p)

/-! ### Runs -/

/-- A run has nothing to do. -/
structure Idle (c : Crawler) (limits : PassLimits) (d : Database) : Prop where
  incremental : c.IncrementalIdle limits.incremental d
  backfill : c.BackfillIdle limits.backfill d

/-- With nothing to do, a run leaves nothing behind but requests. -/
theorem Idle.onlyAsks (hsteady : c.remote.IsSteady) (h : c.Idle limits s.db) :
    (c.run limits).OnlyAsks s {} :=
  OnlyAsks.withFreshCache <|
    ((h.incremental.onlyAsks (s := { s with cache := {} }) hsteady).during _).bind fun calls =>
      ((h.backfill.onlyAsks (s := { s with cache := {}, calls := calls }) hsteady).during _).bind
        fun _ => onlyAsks_pure _ _

/-- A run that has done nothing has changed at most the position of the way back, and leaves nothing
to do. -/
theorem idle_of_run (hsteady : c.remote.IsSteady) {stats : RunStats}
    (h : c.run limits s = (.ok stats, t)) (hzero : stats.isZero = true) :
    ∃ calls next, t = { s with calls := calls, db := s.db.withNext next } ∧ c.Idle limits t.db := by
  obtain ⟨u, v, hfirst, hsecond, rfl⟩ := run_ok h
  obtain ⟨hx, hy⟩ : stats.incremental = {} ∧ stats.backfill = {} := by
    simpa [RunStats.isZero, PassStats.isZero] using hzero
  have hincremental :=
    incrementalIdle_of_incremental hsteady hfirst (congrArg PassStats.commits hx)
  obtain ⟨-, calls, rfl⟩ :=
    (hincremental.onlyAsks (s := { s with cache := {} }) hsteady).eq_of_run hfirst
  obtain ⟨calls', next, rfl, hbackfill⟩ :=
    backfillIdle_of_backfill hsteady hsecond (congrArg PassStats.commits hy)
  exact ⟨calls', next, rfl, hincremental.withNext rfl, hbackfill⟩

/-- Runs in a row with the same limits. -/
def runs (c : Crawler) (limits : PassLimits) : Nat → CrawlStep (List RunStats)
  | 0 => pure []
  | n + 1 => do
    let first ← c.run limits
    let rest ← runs c limits n
    return first :: rest

/-- With nothing to do, any number of runs leaves nothing behind but requests. -/
theorem Idle.onlyAsks_runs (hsteady : c.remote.IsSteady) (h : c.Idle limits s.db) (n : Nat) :
    (c.runs limits n).OnlyAsks s (List.replicate n {}) := by
  induction n generalizing s with
  | zero => exact onlyAsks_pure _ _
  | succ n ih =>
    exact (h.onlyAsks hsteady).bind fun calls =>
      (ih (s := { s with calls := calls }) h).bind fun _ => onlyAsks_pure _ _

theorem state_ok {state : CrawlState} (h : CrawlStep.state s = (.ok state, t)) : t = s := by
  obtain ⟨cp, u, hcp, hend⟩ := bind_ok h
  obtain ⟨rfl, -⟩ := checkpoint_ok hcp
  exact (pure_ok hend).2

/-- Iterations begin with a run, and go on unless the way back is over or the run has done nothing. -/
theorem iterate_succ_ok {n : Nat} {outcome : IterationOutcome}
    (h : c.iterate limits (n + 1) s = (.ok outcome, t)) :
    ∃ stats state u, c.run limits s = (.ok stats, u) ∧ CrawlStep.state u = (.ok state, u) ∧
      (state = .backfillDone ∧ outcome = ⟨stats, 1, .backfillComplete⟩ ∧ t = u ∨
        state ≠ .backfillDone ∧ stats.isZero = true ∧ outcome = ⟨stats, 1, .noProgress⟩ ∧ t = u ∨
        state ≠ .backfillDone ∧ stats.isZero = false ∧
          ∃ later, c.iterate limits n u = (.ok later, t) ∧ outcome = later.after stats) := by
  obtain ⟨stats, u, hrun, hstep⟩ := bind_ok h
  obtain ⟨state, v, hstate, hrest⟩ := bind_ok hstep
  have hread := during_ok hstate
  obtain rfl := state_ok hread
  refine ⟨stats, state, v, hrun, hread, ?_⟩
  by_cases hdone : state = .backfillDone
  · rw [if_pos hdone] at hrest
    cases hrest
    exact .inl ⟨hdone, rfl, rfl⟩
  rw [if_neg hdone] at hrest
  by_cases hzero : stats.isZero = true
  · rw [if_pos hzero] at hrest
    cases hrest
    exact .inr (.inl ⟨hdone, hzero, rfl, rfl⟩)
  · rw [if_neg hzero] at hrest
    obtain ⟨later, w, hiterate, hend⟩ := bind_ok hrest
    cases hend
    exact .inr (.inr ⟨hdone, Bool.eq_false_iff.mpr hzero, later, hiterate, rfl⟩)

/-- Iterations that have ended without progress leave nothing to do. -/
theorem idle_of_iterate (hsteady : c.remote.IsSteady) {n : Nat} {outcome : IterationOutcome}
    (h : c.iterate limits n s = (.ok outcome, t)) (hreason : outcome.reason = .noProgress) :
    c.Idle limits t.db := by
  induction n generalizing s outcome with
  | zero =>
    cases h
    cases hreason
  | succ n ih =>
    obtain ⟨stats, state, u, hrun, -, hend⟩ := iterate_succ_ok h
    rcases hend with ⟨-, rfl, -⟩ | ⟨-, hzero, -, rfl⟩ | ⟨-, -, later, hiterate, rfl⟩
    · cases hreason
    · obtain ⟨-, -, -, hidle⟩ := idle_of_run hsteady hrun hzero
      exact hidle
    · exact ih hiterate hreason

theorem status_ok {status : StatusReport} (h : CrawlStep.status s = (.ok status, t)) : t = s := by
  obtain ⟨cp, u, hcp, hrest⟩ := bind_ok h
  obtain ⟨rfl, -⟩ := checkpoint_ok hcp
  obtain ⟨blobs, v, hblobs, hend⟩ := bind_ok hrest
  obtain ⟨rfl, -⟩ := query_ok hblobs
  exact (pure_ok hend).2

/-- A full ingestion is made of its runs, after a reset if it is asked for, and tells at the end
where the crawl stands. -/
theorem fullIngestion_ok {o : FullOptions} {report : FullReport}
    (h : c.fullIngestion o s = (.ok report, t)) :
    ∃ u outcome, (if o.reset then CrawlStep.reset s = (.ok (), u) else s = u) ∧
      c.iterate report.limits (max o.maxIterations 1) u = (.ok outcome, t) ∧
      CrawlStep.status t = (.ok report.final, t) ∧ report.totals = outcome.totals ∧
      report.iterationsRun = outcome.runs ∧ report.reason = outcome.reason := by
  have ingested : ∀ {u : Crawl}, c.fullIngestion { o with reset := false } u = (.ok report, t) →
      ∃ outcome, c.iterate report.limits (max o.maxIterations 1) u = (.ok outcome, t) ∧
        CrawlStep.status t = (.ok report.final, t) ∧ report.totals = outcome.totals ∧
        report.iterationsRun = outcome.runs ∧ report.reason = outcome.reason := by
    intro u hu
    obtain ⟨outcome, v, hiterate, hrest⟩ := bind_ok hu
    obtain ⟨status, w, hstatus, hend⟩ := bind_ok hrest
    obtain rfl := status_ok hstatus
    cases hend
    exact ⟨outcome, hiterate, hstatus, rfl, rfl, rfl⟩
  obtain ⟨maxIterations, limits, reset⟩ := o
  cases reset with
  | false =>
    obtain ⟨outcome, hrun⟩ := ingested h
    exact ⟨s, outcome, rfl, hrun⟩
  | true =>
    obtain ⟨⟨⟩, u, hreset, hrest⟩ := bind_ok h
    obtain ⟨outcome, hrun⟩ := ingested hrest
    exact ⟨u, outcome, hreset, hrun⟩

/-- A full ingestion that has ended without progress leaves nothing to do. -/
theorem idle_of_fullIngestion (hsteady : c.remote.IsSteady) {o : FullOptions} {report : FullReport}
    (h : c.fullIngestion o s = (.ok report, t)) (hreason : report.reason = .noProgress) :
    c.Idle report.limits t.db := by
  obtain ⟨u, outcome, -, hiterate, -, -, -, hsame⟩ := fullIngestion_ok h
  exact idle_of_iterate hsteady hiterate (hsame ▸ hreason)

/-! ### No new commits -/

/-- Once the way back is over and no commit is newer than the mark, there is nothing to do. -/
theorem idle_of_level (hp : d.positions = some p) (hdone : p.checkpoint.next = .done)
    (hlevel : ∀ page, c.remote.list [] (c.perPage limits.incremental) 1 = .ok page →
      newer p.checkpoint.latest page = []) : c.Idle limits d where
  incremental := by
    cases hpage : c.remote.list [] (c.perPage limits.incremental) 1 with
    | error e => exact .unlisted hp hpage
    | ok page => exact .level hp hpage (hlevel page hpage)
  backfill := .finished hp hdone

/-- After an incremental pass, the commits that are newer than the mark begin with one whose details
cannot be had. -/
theorem incrementalIdle_after (hsteady : c.remote.IsSteady) {x : PassStats}
    (h : c.incremental limit s = (.ok x, t))
    (hpage : ∀ page, c.remote.list [] (c.perPage limit) 1 = .ok page →
      (page.map CommitSummary.sha).Nodup ∧ "" ∉ page.map CommitSummary.sha) :
    c.IncrementalIdle limit t.db := by
  have unmoved : x.commits = 0 → c.IncrementalIdle limit t.db := by
    intro hx
    have hidle := incrementalIdle_of_incremental hsteady h hx
    obtain ⟨-, calls, rfl⟩ := (hidle.onlyAsks hsteady).eq_of_run h
    exact hidle
  cases incrementalRun_of_incremental h with
  | idle => exact unmoved rfl
  | @through _ _ p head page done left hlimit hp hlist hpending hleft _ _ ht =>
    have hlist' : c.remote.list [] (c.perPage limit) 1 = .ok (head :: page) :=
      (congrFun (congrFun (hsteady [] s.calls).1 _) 1).trans hlist
    obtain ⟨hnodup, hnamed⟩ := hpage _ hlist'
    have hnewer := newer_of_advance hnodup hnamed hpending
    cases left with
    | nil => exact .level ht hlist' (List.reverse_eq_nil_iff.mp hnewer)
    | cons sha left =>
      obtain ⟨past, e, he⟩ := hleft sha rfl
      exact .missing ht hlist' hnewer (commit_of_steady hsteady he [])

/-- A backfill pass moves at most the position of the way back. -/
theorem positions_of_backfill {x : PassStats} (h : c.backfill limit s = (.ok x, t)) :
    ∃ next, t.db.positions = (s.db.withNext next).positions := by
  have unmoved : t.db.positions = s.db.positions →
      ∃ next, t.db.positions = (s.db.withNext next).positions := by
    intro ht
    obtain ⟨next, hnext⟩ := s.db.exists_withNext_self
    exact ⟨next, by rw [hnext, ht]⟩
  have moved : ∀ {p : Positions} {next : Option String}, s.db.positions = some p →
      t.db.positions = some { p with next := next } →
        ∃ next, t.db.positions = (s.db.withNext next).positions := by
    intro p next hp ht
    exact ⟨next, by rw [ht, s.db.withNext_of_positions hp]⟩
  cases backfillRun_of_backfill h with
  | idle _ ht => exact unmoved (by rw [ht])
  | unanchored _ _ _ ht => exact unmoved ht.positions
  | rootless hp _ _ _ _ _ ht => exact moved hp ht
  | walk hp _ _ _ _ _ ht => exact moved hp ht

/-- After a run at whose end the way back is over, there is nothing to do until there are new
commits. -/
theorem idle_after_run (hsteady : c.remote.IsSteady) {stats : RunStats}
    (h : c.run limits s = (.ok stats, t)) (hp : t.db.positions = some p)
    (hdone : p.checkpoint.next = .done)
    (hpage : ∀ page, c.remote.list [] (c.perPage limits.incremental) 1 = .ok page →
      (page.map CommitSummary.sha).Nodup ∧ "" ∉ page.map CommitSummary.sha) :
    c.Idle limits t.db := by
  obtain ⟨u, v, hfirst, hsecond, rfl⟩ := run_ok h
  obtain ⟨next, hv⟩ := positions_of_backfill hsecond
  exact ⟨(incrementalIdle_after hsteady hfirst hpage).withNext hv, .finished hp hdone⟩

/-- An idle run is repeated by all later ones. -/
theorem idle_runs_repeat (hsteady : c.remote.IsSteady) (limits : PassLimits) (s t : Crawl) :
    -- a run that has done nothing has changed at most the position of the way back, and so it is
    -- with the last run of a full ingestion that has ended without progress
    (∀ stats, c.run limits s = (.ok stats, t) → stats.isZero = true →
      (∃ calls next, t = { s with calls := calls, db := s.db.withNext next }) ∧
        ∀ u n, u.db = t.db → (c.runs limits n).OnlyAsks u (List.replicate n {})) ∧
    (∀ o report, c.fullIngestion o s = (.ok report, t) → report.reason = .noProgress →
      ∀ u n, u.db = t.db → (c.runs report.limits n).OnlyAsks u (List.replicate n {})) ∧
    -- once the way back is over, runs do nothing while no commit is newer than the mark
    (∀ p, s.db.positions = some p → p.checkpoint.next = .done →
      (∀ page, c.remote.list [] (c.perPage limits.incremental) 1 = .ok page →
        newer p.checkpoint.latest page = []) →
      ∀ u n, u.db = s.db → (c.runs limits n).OnlyAsks u (List.replicate n {})) ∧
    -- and from the second run on
    (∀ stats p, c.run limits s = (.ok stats, t) → t.db.positions = some p →
      p.checkpoint.next = .done →
      (∀ page, c.remote.list [] (c.perPage limits.incremental) 1 = .ok page →
        (page.map CommitSummary.sha).Nodup ∧ "" ∉ page.map CommitSummary.sha) →
      ∀ u n, u.db = t.db → (c.runs limits n).OnlyAsks u (List.replicate n {})) := by
  have repeats : ∀ {limits : PassLimits} {d : Database}, c.Idle limits d →
      ∀ u n, u.db = d → (c.runs limits n).OnlyAsks u (List.replicate n {}) := by
    rintro limits d hidle u n rfl
    exact hidle.onlyAsks_runs hsteady n
  refine ⟨fun stats h hzero => ?_, fun o report h hreason => ?_, fun p hp hdone hlevel => ?_,
    fun stats p h hp hdone hpage => ?_⟩
  · obtain ⟨calls, next, ht, hidle⟩ := idle_of_run hsteady h hzero
    exact ⟨⟨calls, next, ht⟩, repeats hidle⟩
  · exact repeats (idle_of_fullIngestion hsteady h hreason)
  · exact repeats (idle_of_level hp hdone hlevel)
  · exact repeats (idle_after_run hsteady h hp hdone hpage)

end Crawler

/-! ### Small examples -/

namespace Crawler

/-- A crawler that cannot have the details of the commit at which the way back begins. -/
def blocked : Crawler := small (Archive.small.fail (.commit "b"))

/-- A run that gets no further than to the beginning of the way back, and only stores where that is,
and a run over the whole history. -/
theorem idle_runs_repeat_small :
    let s : Crawl := { db := Database.fresh }
    let t := (blocked.run ⟨0, 2⟩ s).2
    let u := ((small .small).run {} s).2
    blocked.remote.IsSteady ∧ (small .small).remote.IsSteady ∧
    blocked.run ⟨0, 2⟩ s = (.ok {}, t) ∧ t.db.positions = some ⟨none, some "b"⟩ ∧
    (blocked.runs ⟨0, 2⟩ 3).OnlyAsks t [{}, {}, {}] ∧
    (∃ report v, blocked.fullIngestion ⟨5, ⟨0, 2⟩, false⟩ s = (.ok report, v) ∧
      report.reason = .noProgress ∧ report.iterationsRun = 1 ∧
      (blocked.runs report.limits 3).OnlyAsks v [{}, {}, {}]) ∧
    (small .small).run {} s = (.ok ⟨⟨3, 0, 0⟩, ⟨2, 0, 0⟩⟩, u) ∧
    u.db.positions = some ⟨some "c", some BackfillCursor.doneMark⟩ ∧
    ((small .small).runs {} 3).OnlyAsks u [{}, {}, {}] := by
  intro s t u
  have hsteady : blocked.remote.IsSteady := (Archive.small.fail (.commit "b")).remote_isSteady
  have hsteady' : (small .small).remote.IsSteady := Archive.small.remote_isSteady
  have hrun : blocked.run ⟨0, 2⟩ s = (.ok {}, t) := Prod.ext (by decide +kernel) rfl
  have hrun' : (small .small).run {} s = (.ok ⟨⟨3, 0, 0⟩, ⟨2, 0, 0⟩⟩, u) :=
    Prod.ext (by decide +kernel) rfl
  have hingest : blocked.fullIngestion ⟨5, ⟨0, 2⟩, false⟩ s =
      (.ok ⟨.noProgress, 1, 5, ⟨0, 2⟩, {}, ⟨.backfillActive, none, some "b", 0⟩⟩,
        (blocked.fullIngestion ⟨5, ⟨0, 2⟩, false⟩ s).2) :=
    Prod.ext (by decide +kernel) rfl
  have hpositions : u.db.positions = some ⟨some "c", some BackfillCursor.doneMark⟩ := by
    decide +kernel
  refine ⟨hsteady, hsteady', hrun, by decide +kernel, ?_, ⟨_, _, hingest, rfl, rfl, ?_⟩, hrun',
    hpositions, ?_⟩
  · exact ((idle_runs_repeat hsteady ⟨0, 2⟩ s t).1 {} hrun rfl).2 t 3 rfl
  · exact (idle_runs_repeat hsteady ⟨0, 2⟩ s _).2.1 _ _ hingest rfl _ 3 rfl
  · refine (idle_runs_repeat hsteady' {} s u).2.2.2 _ _ hrun' hpositions (by decide +kernel) ?_ u 3
      rfl
    intro page hpage
    cases hpage
    decide +kernel

end Crawler

end Harvest
