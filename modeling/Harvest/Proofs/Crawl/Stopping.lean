import Harvest.Proofs.Crawl.Idle

/-!
# Why a full ingestion stops

After each run a full ingestion reads where the crawl stands, and gives the reason at which it stops
from that and from the numbers of the run. What it reports at its end is read once more. Nothing
happens between the two, so the reason, the result and the state of a report belong together,
whatever the remote answers.

## Main definitions

* `MadeRun` — the numbers of a run, and what it has left behind
* `Crawler.Makes` — runs in a row, with where the crawl stands after each of them
* `StopReason.Holds` — what a reason says of the runs

## Main results

* `Crawler.holds_of_iterate` — iterations end at the first run after which their reason holds
* `Crawler.report_agrees` — a report agrees with itself and with the runs
-/

namespace Harvest

open CrawlStep

/-- A run that has been made. -/
structure MadeRun where
  /-- Its numbers. -/
  stats : RunStats
  /-- Where the crawl stands after it. -/
  state : CrawlState
  /-- What it has left behind. -/
  crawl : Crawl

/-- The run gives no reason to stop. -/
structure MadeRun.GoesOn (r : MadeRun) : Prop where
  unfinished : r.state ≠ .backfillDone
  progress : r.stats ≠ {}

/-- What a reason says of the last run, and of how many runs there were. -/
def StopReason.Holds (runs limit : Nat) (last : MadeRun) : StopReason → Prop
  | backfillComplete => last.state = .backfillDone
  | noProgress => last.state ≠ .backfillDone ∧ last.stats = {}
  | maxIterationsReached => last.GoesOn ∧ runs = limit

theorem StopReason.Holds.succ {runs limit : Nat} {last : MadeRun} {reason : StopReason}
    (h : reason.Holds runs limit last) : reason.Holds (runs + 1) (limit + 1) last := by
  cases reason with
  | backfillComplete => exact h
  | noProgress => exact h
  | maxIterationsReached => exact ⟨h.1, congrArg (· + 1) h.2⟩

/-- Only the run after which the way back is over is the last one for that reason. -/
theorem StopReason.Holds.complete_iff {runs limit : Nat} {last : MadeRun} {reason : StopReason}
    (h : reason.Holds runs limit last) :
    reason = .backfillComplete ↔ last.state = .backfillDone := by
  cases reason with
  | backfillComplete => exact ⟨fun _ => h, fun _ => rfl⟩
  | noProgress => exact ⟨nofun, fun hdone => absurd hdone h.1⟩
  | maxIterationsReached => exact ⟨nofun, fun hdone => absurd hdone h.1.unfinished⟩

theorem RunStats.isZero_iff {stats : RunStats} : stats.isZero = true ↔ stats = {} := by
  obtain ⟨incremental, backfill⟩ := stats
  simp [RunStats.isZero, PassStats.isZero]

theorem FullReport.isComplete_iff {report : FullReport} :
    report.isComplete = true ↔ report.final.state = .backfillDone := beq_iff_eq

theorem FullReport.result_eq_success_iff {report : FullReport} :
    report.result = "success" ↔ report.isComplete = true := by
  unfold result
  split <;> simp [*]

namespace Crawler

variable {c : Crawler} {limits : PassLimits} {s t : Crawl}

/-- The runs are made in a row from one state to another. -/
inductive Makes (c : Crawler) (limits : PassLimits) : Crawl → List MadeRun → Crawl → Prop
  | none (s : Crawl) : Makes c limits s [] s
  | run {s t : Crawl} {r : MadeRun} {rs : List MadeRun}
      (run : c.run limits s = (.ok r.stats, r.crawl))
      (read : CrawlStep.state r.crawl = (.ok r.state, r.crawl))
      (rest : Makes c limits r.crawl rs t) : Makes c limits s (r :: rs) t

/-- Where the crawl stands at the end is where it stands after the last run. -/
theorem Makes.state_eq {earlier : List MadeRun} {last : MadeRun}
    (h : c.Makes limits s (earlier ++ [last]) t) :
    CrawlStep.state t = (.ok last.state, t) := by
  induction earlier generalizing s with
  | nil =>
    obtain _ | ⟨-, hread, hnone⟩ := h
    cases hnone
    exact hread
  | cons r rs ih =>
    obtain _ | ⟨-, -, hrest⟩ := h
    exact ih hrest

/-- The first run is the last one, or it gives no reason to stop. -/
theorem exists_run_of_iterate {n : Nat} {outcome : IterationOutcome}
    (h : c.iterate limits (n + 1) s = (.ok outcome, t)) :
    ∃ r : MadeRun, c.run limits s = (.ok r.stats, r.crawl) ∧
      CrawlStep.state r.crawl = (.ok r.state, r.crawl) ∧
      (t = r.crawl ∧ outcome.runs = 1 ∧ (∀ limit, outcome.reason.Holds 1 limit r) ∨
        r.GoesOn ∧ ∃ later, c.iterate limits n r.crawl = (.ok later, t) ∧
          outcome.runs = later.runs + 1 ∧ outcome.reason = later.reason) := by
  obtain ⟨stats, state, u, hrun, hread, hend⟩ := iterate_succ_ok h
  refine ⟨⟨stats, state, u⟩, hrun, hread, ?_⟩
  rcases hend with ⟨hdone, rfl, rfl⟩ | ⟨hdone, hzero, rfl, rfl⟩ |
    ⟨hdone, hzero, later, hiterate, rfl⟩
  · exact .inl ⟨rfl, rfl, fun _ => hdone⟩
  · exact .inl ⟨rfl, rfl, fun _ => ⟨hdone, RunStats.isZero_iff.mp hzero⟩⟩
  · have hprogress : stats ≠ {} := fun hempty =>
      Bool.eq_false_iff.mp hzero (RunStats.isZero_iff.mpr hempty)
    exact .inr ⟨⟨hdone, hprogress⟩, later, hiterate, rfl, rfl⟩

/-- Iterations go on until a run gives a reason to stop, or there may be no more runs. -/
theorem holds_of_iterate {n : Nat} {outcome : IterationOutcome}
    (h : c.iterate limits (n + 1) s = (.ok outcome, t)) :
    ∃ earlier last, c.Makes limits s (earlier ++ [last]) t ∧ outcome.runs = earlier.length + 1 ∧
      earlier.length ≤ n ∧ (∀ r ∈ earlier, r.GoesOn) ∧
      outcome.reason.Holds outcome.runs (n + 1) last := by
  induction n generalizing s outcome with
  | zero =>
    obtain ⟨r, hrun, hread, ⟨rfl, hone, hholds⟩ | ⟨hgoes, later, hnone, hruns, hreason⟩⟩ :=
      exists_run_of_iterate h
    · exact ⟨[], r, .run hrun hread (.none _), hone, le_rfl, by simp, hone ▸ hholds _⟩
    · -- there may be no more runs
      cases hnone
      exact ⟨[], r, .run hrun hread (.none _), hruns, le_rfl, by simp,
        hreason ▸ ⟨hgoes, hruns⟩⟩
  | succ n ih =>
    -- the reason of the later runs is also that of all, with one more run and a limit one higher
    obtain ⟨r, hrun, hread, ⟨rfl, hone, hholds⟩ | ⟨hgoes, later, hlater, hruns, hreason⟩⟩ :=
      exists_run_of_iterate h
    · exact ⟨[], r, .run hrun hread (.none _), hone, by simp, by simp, hone ▸ hholds _⟩
    · obtain ⟨earlier, last, hmakes, hlen, hle, hgo, hholds⟩ := ih hlater
      refine ⟨r :: earlier, last, .run hrun hread hmakes, by rw [hruns, hlen]; rfl,
        Nat.succ_le_succ hle, List.forall_mem_cons.mpr ⟨hgoes, hgo⟩, ?_⟩
      rw [hreason, hruns]
      exact hholds.succ

/-- The state of a status is the one that is read after a run. -/
theorem status_state {status : StatusReport} {state : CrawlState}
    (h : CrawlStep.status t = (.ok status, t)) (hread : CrawlStep.state t = (.ok state, t)) :
    status.state = state := by
  obtain ⟨checkpoint, u, hcheckpoint, hrest⟩ := bind_ok h
  obtain ⟨checkpoint', u', hcheckpoint', hend⟩ := bind_ok hread
  obtain ⟨blobs, v, -, hend'⟩ := bind_ok hrest
  cases hcheckpoint.symm.trans hcheckpoint'
  cases hend
  cases hend'
  rfl

/-- A report agrees with itself, and with the runs of which it reports. -/
theorem report_agrees {o : FullOptions} {report : FullReport}
    (h : c.fullIngestion o s = (.ok report, t)) :
    ∃ u earlier last, (if o.reset then CrawlStep.reset s = (.ok (), u) else s = u) ∧
      c.Makes report.limits u (earlier ++ [last]) t ∧
      -- as many runs as it says, and not more than were asked for
      report.iterationsRun = (earlier ++ [last]).length ∧
      1 ≤ report.iterationsRun ∧ report.iterationsRun ≤ max 1 o.maxIterations ∧
      -- the reason, the state, the result and the flag say the same
      (report.reason = .backfillComplete ↔ report.final.state = .backfillDone) ∧
      (report.reason = .backfillComplete ↔ report.result = "success") ∧
      (report.reason = .backfillComplete ↔ report.isComplete = true) ∧
      -- the other reasons
      (report.reason = .noProgress → last.stats = {} ∧ ∀ r ∈ earlier, r.stats ≠ {}) ∧
      (report.reason = .maxIterationsReached → report.iterationsRun = max 1 o.maxIterations ∧
        ∀ r ∈ earlier ++ [last], r.stats ≠ {}) ∧
      -- the ingestion stops at the first run after which the way back is over
      ∀ r ∈ earlier, r.state ≠ .backfillDone := by
  obtain ⟨u, outcome, hstart, hiterate, hstatus, -, hruns, hreason⟩ := fullIngestion_ok h
  have hmax : max o.maxIterations 1 = max 1 o.maxIterations - 1 + 1 := by omega
  rw [hmax] at hiterate
  obtain ⟨earlier, last, hmakes, hlen, hle, hgo, hholds⟩ := holds_of_iterate hiterate
  -- the status is read from the state that the last run has left behind
  have hfinal : report.final.state = last.state := status_state hstatus hmakes.state_eq
  have hcomplete : report.reason = .backfillComplete ↔ report.final.state = .backfillDone := by
    rw [hreason, hfinal]
    exact hholds.complete_iff
  refine ⟨u, earlier, last, hstart, hmakes, ?_, ?_, ?_, hcomplete, ?_, ?_, fun hr => ?_,
    fun hr => ?_, fun r hr => (hgo r hr).unfinished⟩
  · rw [hruns, hlen, List.length_append, List.length_singleton]
  · omega
  · omega
  · rw [hcomplete, FullReport.result_eq_success_iff, FullReport.isComplete_iff]
  · rw [hcomplete, FullReport.isComplete_iff]
  · rw [← hreason, hr] at hholds
    exact ⟨hholds.2, fun r hr => (hgo r hr).progress⟩
  · rw [← hreason, hr] at hholds
    refine ⟨by rw [hruns, hholds.2]; omega, fun r hr => ?_⟩
    obtain hr | rfl := List.mem_append.mp hr |>.imp_right List.mem_singleton.mp
    · exact (hgo r hr).progress
    · exact hholds.1.progress

/-- Two runs reach the first commit, no run at all is asked for and one is made, and a run that does
nothing is the last one. -/
theorem report_agrees_small :
    let s : Crawl := { db := Database.fresh }
    (∃ report t, (small .small).fullIngestion ⟨5, ⟨2, 1⟩, false⟩ s = (.ok report, t) ∧
      report.reason = .backfillComplete ∧ report.iterationsRun = 2 ∧
      report.final.state = .backfillDone ∧ report.result = "success" ∧
      ∃ first last, (small .small).Makes report.limits s [first, last] t ∧
        first.state ≠ .backfillDone) ∧
    (∃ report t, (small .small).fullIngestion ⟨0, ⟨2, 1⟩, false⟩ s = (.ok report, t) ∧
      report.reason = .maxIterationsReached ∧ report.iterationsRun = 1 ∧
      report.final.state ≠ .backfillDone ∧
      ∃ only, (small .small).Makes report.limits s [only] t ∧ only.stats ≠ {}) ∧
    ∃ report t, blocked.fullIngestion ⟨5, ⟨0, 2⟩, false⟩ s = (.ok report, t) ∧
      report.reason = .noProgress ∧ report.iterationsRun = 1 ∧ report.isComplete = false ∧
      ∃ only, blocked.Makes report.limits s [only] t ∧ only.stats = {} := by
  intro s
  have hvalues :
      ((small .small).fullIngestion ⟨5, ⟨2, 1⟩, false⟩ s).1 =
        .ok ⟨.backfillComplete, 2, 5, ⟨2, 1⟩, ⟨⟨2, 0, 0⟩, ⟨2, 0, 0⟩⟩,
          ⟨.backfillDone, some "c", some BackfillCursor.doneMark, 3⟩⟩ ∧
      ((small .small).fullIngestion ⟨0, ⟨2, 1⟩, false⟩ s).1 =
        .ok ⟨.maxIterationsReached, 1, 0, ⟨2, 1⟩, ⟨⟨2, 0, 0⟩, ⟨1, 0, 0⟩⟩,
          ⟨.backfillActive, some "c", some "a", 2⟩⟩ ∧
      (blocked.fullIngestion ⟨5, ⟨0, 2⟩, false⟩ s).1 =
        .ok ⟨.noProgress, 1, 5, ⟨0, 2⟩, {}, ⟨.backfillActive, none, some "b", 0⟩⟩ := by
    decide +kernel
  obtain ⟨htwo, hone, hidle⟩ := hvalues
  obtain ⟨t, ht⟩ := exists_run htwo
  obtain ⟨u, hu⟩ := exists_run hone
  obtain ⟨v, hv⟩ := exists_run hidle
  refine ⟨⟨_, t, ht, rfl, rfl, ?_⟩, ⟨_, u, hu, rfl, rfl, ?_⟩, ⟨_, v, hv, rfl, rfl, ?_⟩⟩
  · obtain ⟨_, earlier, last, rfl, hmakes, hlen, -, -, hstate, hresult, -, -, -, hearlier⟩ :=
      report_agrees ht
    obtain ⟨first, rfl⟩ : ∃ first, earlier = [first] := by
      rw [List.length_append] at hlen
      exact List.length_eq_one_iff.mp (by simpa using hlen.symm)
    exact ⟨hstate.mp rfl, hresult.mp rfl, first, last, hmakes, hearlier first (by simp)⟩
  · obtain ⟨_, earlier, last, rfl, hmakes, hlen, -, -, hstate, -, -, -, hmax, -⟩ :=
      report_agrees hu
    obtain rfl : earlier = [] := by simpa using hlen
    exact ⟨fun h => (nomatch hstate.mpr h), last, hmakes, (hmax rfl).2 last (by simp)⟩
  · obtain ⟨_, earlier, last, rfl, hmakes, hlen, -, -, -, -, hflag, hidle, -, -⟩ :=
      report_agrees hv
    obtain rfl : earlier = [] := by simpa using hlen
    exact ⟨Bool.eq_false_iff.mpr fun h => (nomatch hflag.mpr h), last, hmakes, (hidle rfl).1⟩

end Crawler

end Harvest
