import Harvest.Crawl.Run
import Harvest.Json.Value

/-!
# Reports as JSON values

## Main definitions

* `PassStats.json`, `RunStats.json`, `StatusReport.json`, `FullReport.json`, `StoreSummary.json`
-/

namespace Harvest

namespace Json.Value

/-- A natural number. -/
def nat (n : Nat) : Value := .number (.int n)

/-- A text or nothing. -/
def optionalString (s : Option String) : Value := s.elim .null .string

end Json.Value

/-- What a pass has done. -/
def PassStats.json (s : PassStats) : Json.Value :=
  .object [("commits_processed", .nat s.commits), ("files_processed", .nat s.files),
    ("streams_created", .nat s.streams)]

/-- What a run has done. -/
def RunStats.json (s : RunStats) : Json.Value :=
  .object [("incremental", s.incremental.json), ("backfill", s.backfill.json)]

/-- The limits of a run. -/
def PassLimits.json (l : PassLimits) : Json.Value :=
  .object [("incremental_commits", .nat l.incremental), ("backfill_commits", .nat l.backfill)]

/-- The members that say where a crawl stands. -/
def StatusReport.members (r : StatusReport) : List (String × Json.Value) :=
  [("state", .string r.state.name), ("latest_incremental_sha", .optionalString r.latest),
    ("next_backfill_sha", .optionalString r.next), ("processed_blobs", .nat r.blobs)]

/-- Where a crawl stands. -/
def StatusReport.json (r : StatusReport) : Json.Value := .object r.members

/-- What a full ingestion has done. -/
def FullReport.json (r : FullReport) : Json.Value :=
  .object ([("status", .string r.result), ("backfill_complete", .bool r.isComplete),
    ("stopped_reason", .string r.reason.name), ("iterations_run", .nat r.iterationsRun),
    ("max_iterations", .nat r.maxIterations), ("per_iteration_limits", r.limits.json),
    ("totals", r.totals.json)] ++ r.final.members)

/-- How many entries came how far. -/
def StoreSummary.json (s : StoreSummary) : Json.Value :=
  .object [("total", .nat s.total), ("unique", .nat s.unique),
    ("adult_skipped", .nat s.adultSkipped), ("sports_skipped", .nat s.sportsSkipped),
    ("metadata_keys", .nat s.metadataKeys), ("resolved", .nat s.resolved),
    ("payloads", .nat s.payloads), ("stored", .nat s.stored)]

end Harvest
