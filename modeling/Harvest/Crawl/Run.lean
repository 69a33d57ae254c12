import Harvest.Crawl.Pass

/-!
# Runs

A run is an incremental pass followed by a backfill pass. A full ingestion repeats runs until the
first commit is reached, nothing more happens, or the number of runs is used up.

## Main definitions

* `PassLimits`, `RunStats` — the limits of a run, and what it has done
* `Crawler.run` — a run
* `StatusReport`, `CrawlStep.status` — where the crawl stands
* `CrawlStep.reset` — forgets where the crawl stands
* `FullReport`, `Crawler.fullIngestion` — a full ingestion
-/

namespace Harvest

/-- How many commits each pass of a run may process. -/
structure PassLimits where
  incremental : Nat := 25
  backfill : Nat := 25
  deriving DecidableEq, Repr

/-- The limits, neither larger than a page. -/
def PassLimits.clamp (l : PassLimits) (pageSize : Nat) : PassLimits :=
  ⟨min l.incremental pageSize, min l.backfill pageSize⟩

/-- What a run has done. -/
structure RunStats where
  incremental : PassStats := {}
  backfill : PassStats := {}
  deriving DecidableEq, Repr

namespace RunStats

instance : Add RunStats := ⟨fun a b => ⟨a.incremental + b.incremental, a.backfill + b.backfill⟩⟩

/-- Whether nothing was done. -/
def isZero (s : RunStats) : Bool := s.incremental.isZero && s.backfill.isZero

end RunStats

/-- Where the crawl stands, and how many snapshots need no further work. -/
structure StatusReport where
  state : CrawlState
  latest : Option String
  next : Option String
  blobs : Nat
  deriving DecidableEq, Repr

namespace CrawlStep

/-- Where the crawl stands. -/
def status : CrawlStep StatusReport := do
  let checkpoint ← checkpoint
  let blobs ← query .checkpoint Database.blobCount
  return ⟨checkpoint.state, checkpoint.latest, checkpoint.next.stored?, blobs⟩

/-- Forgets where the crawl stands, and which snapshots need no further work. -/
def reset : CrawlStep Unit := do
  update .checkpoint Database.clearPositions
  update .checkpoint Database.clearBlobs
  report (.system "checkpoints_reset" "cursors and processed blobs cleared")

end CrawlStep

/-- Why a full ingestion ends. -/
inductive StopReason where
  /-- The first commit has been reached. -/
  | backfillComplete
  /-- The last run has done nothing. -/
  | noProgress
  /-- The number of runs is used up. -/
  | maxIterationsReached
  deriving DecidableEq, Repr

/-- The name of a reason. -/
def StopReason.name : StopReason → String
  | backfillComplete => "backfill_complete"
  | noProgress => "no_progress"
  | maxIterationsReached => "max_iterations_reached"

/-- What repeated runs have done, how many they were, and why they ended. -/
structure IterationOutcome where
  totals : RunStats
  runs : Nat
  reason : StopReason
  deriving DecidableEq, Repr

/-- The outcome with one more run in front. -/
def IterationOutcome.after (first : RunStats) (o : IterationOutcome) : IterationOutcome :=
  { o with totals := first + o.totals, runs := o.runs + 1 }

/-- What a full ingestion is asked to do. -/
structure FullOptions where
  /-- How many runs there may be; at least one is made. -/
  maxIterations : Nat
  /-- The limits of a run. -/
  limits : PassLimits
  /-- Whether to forget first where the crawl stands. -/
  reset : Bool := false
  deriving DecidableEq, Repr

/-- What a full ingestion has done. -/
structure FullReport where
  reason : StopReason
  iterationsRun : Nat
  maxIterations : Nat
  limits : PassLimits
  totals : RunStats
  final : StatusReport
  deriving DecidableEq, Repr

namespace FullReport

/-- Whether the first commit has been reached. -/
def isComplete (r : FullReport) : Bool := r.final.state == .backfillDone

/-- The name of the result. -/
def result (r : FullReport) : String := if r.isComplete then "success" else "partial"

end FullReport

namespace Crawler

variable (c : Crawler)

/-- A run: an incremental pass, then a backfill pass, with resolutions of their own. -/
def run (limits : PassLimits) : CrawlStep RunStats :=
  .withFreshCache do
    let incremental ← (c.incremental limits.incremental).during .walker
    let backfill ← (c.backfill limits.backfill).during .walker
    return ⟨incremental, backfill⟩

/-- Makes runs until there is a reason to stop, at most a certain number. -/
def iterate (limits : PassLimits) : Nat → CrawlStep IterationOutcome
  | 0 => pure ⟨{}, 0, .maxIterationsReached⟩
  | n + 1 => do
    let stats ← c.run limits
    let state ← CrawlStep.state.during .walker
    if state = .backfillDone then return ⟨stats, 1, .backfillComplete⟩
    else if stats.isZero then return ⟨stats, 1, .noProgress⟩
    else return (← iterate limits n).after stats

/-- A full ingestion. No limit is larger than a page. -/
def fullIngestion (o : FullOptions) : CrawlStep FullReport := do
  if o.reset then .reset
  let limits := o.limits.clamp (max c.settings.pageSize 1)
  let outcome ← c.iterate limits (max o.maxIterations 1)
  return {
    reason := outcome.reason
    iterationsRun := outcome.runs
    maxIterations := o.maxIterations
    limits := limits
    totals := outcome.totals
    final := ← .status }

end Crawler

end Harvest
