import Harvest.Crawl.Storing
import Harvest.Text.Substring

/-!
# Walking through commits

There are two passes. The incremental pass processes the commits that are newer than the newest one
that has been caught up with, the oldest first. The backfill pass goes from commit to first parent
towards the first commit. In both, the snapshots among the files of a commit are processed one by
one; a snapshot is never needed again once it has been dealt with for good.

## Main definitions

* `PassStats` — what a pass has done
* `Crawler.processFile`, `Crawler.processCommit` — deals with one file, with one commit
* `Crawler.incremental` — the incremental pass
* `Crawler.backfill` — the backfill pass
-/

namespace Harvest

/-- The two passes. -/
inductive Pass where
  | incremental
  | backfill
  deriving DecidableEq, Repr

/-- The name of a pass. -/
def Pass.name : Pass → String
  | incremental => "incremental"
  | backfill => "backfill"

/-- What a pass has done. -/
structure PassStats where
  /-- Commits that were processed. -/
  commits : Nat := 0
  /-- Snapshots whose entries were stored. -/
  files : Nat := 0
  /-- Streams that were new. -/
  streams : Nat := 0
  deriving DecidableEq, Repr

namespace PassStats

instance : Add PassStats :=
  ⟨fun a b => ⟨a.commits + b.commits, a.files + b.files, a.streams + b.streams⟩⟩

/-- Whether nothing was done. -/
def isZero (s : PassStats) : Bool := s == {}

end PassStats

/-- What processing a commit has yielded. -/
structure ProcessedCommit where
  /-- The commit before it on the same branch. -/
  firstParent : Option String
  /-- Snapshots whose entries were stored. -/
  files : Nat
  /-- Streams that were new. -/
  streams : Nat
  deriving DecidableEq, Repr

/-- A processed commit as a part of a pass. -/
def ProcessedCommit.stats (p : ProcessedCommit) : PassStats := ⟨1, p.files, p.streams⟩

namespace CrawlStep

/-- Where the crawl stands. -/
def checkpoint : CrawlStep Checkpoint := query .checkpoint Database.load

/-- The state of the crawl. -/
def state : CrawlStep CrawlState := do return (← checkpoint).state

end CrawlStep

namespace Crawler

variable (c : Crawler)

/-! ### Files and commits -/

/-- Whether a file needs no further work. -/
def isProcessed (f : ChangedFile) : CrawlStep Bool :=
  match f.blob with
  | some blob => .query .checkpoint (·.hasBlob blob)
  | none => pure false

/-- Notes that a file needs no further work. -/
def markProcessed (f : ChangedFile) : CrawlStep Unit :=
  match f.blob with
  | some blob => .update .checkpoint (·.insertBlob blob)
  | none => pure ()

/-- Reports what becomes of a file. -/
def reportFile (d : CommitDetail) (f : ChangedFile) (status : SnapshotStatus)
    (detail : Option String := none) : CrawlStep Unit :=
  .report (.snapshot d.sha f.path f.blob status detail)

/-- Deals with the text of a file. The result is the number of new streams, if the entries of the
file were stored. -/
def processText (d : CommitDetail) (f : ChangedFile) (html : String) :
    CrawlStep (Option Nat) := do
  match Snapshot.fragment? c.settings.host html with
  | none =>
    markProcessed f
    reportFile d f .noFragment
    return none
  | some fragment =>
    match Snapshot.entriesOfPayload fragment with
    | .error e =>
      if e.isPermanent then
        markProcessed f
        reportFile d f .malformed (some e.message)
        return none
      else
        -- the blob stays open, like that of a file that cannot be fetched
        reportFile d f .decodeFailed (some e.message)
        return none
    | .ok entries =>
      let summary ← (c.storeEntries entries d.date).during .pipeline
      markProcessed f
      reportFile d f .stored
      return some summary.stored

/-- Deals with a file. The result is the number of new streams, if the entries of the file were
stored. -/
def processFile (d : CommitDetail) (f : ChangedFile) : CrawlStep (Option Nat) := do
  if ← isProcessed f then
    reportFile d f .alreadyProcessed
    return none
  else
    match ← c.raw f.url with
    | .error e =>
      reportFile d f .fetchFailed (some e.message)
      return none
    | .ok html => c.processText d f html

/-- Deals with files in order. The result is how many files had their entries stored, and how many
streams were new. -/
def processFiles (d : CommitDetail) : List ChangedFile → CrawlStep (Nat × Nat)
  | [] => pure (0, 0)
  | f :: fs => do
    let new ← c.processFile d f
    let (files, streams) ← processFiles d fs
    return (new.toList.length + files, new.getD 0 + streams)

/-- The snapshots among the files of a commit. -/
def snapshots (d : CommitDetail) : List ChangedFile :=
  d.files.filter fun f => Text.endsWith c.settings.extension.toList f.path.toList

/-- Processes a commit. There is no result if the details of the commit cannot be had. -/
def processCommit (pass : Pass) (sha : String) : CrawlStep (Option ProcessedCommit) := do
  match ← c.commit sha with
  | .error _ => return none
  | .ok d =>
    let (files, streams) ← c.processFiles d (c.snapshots d)
    .report (.commit pass.name sha files streams)
    return some ⟨d.firstParent?, files, streams⟩

/-! ### The incremental pass -/

/-- The commits of a page that come before a certain one. -/
def newer (latest : Option String) (page : List CommitSummary) : List String :=
  (page.map CommitSummary.sha).takeWhile fun sha => some sha != latest

/-- Processes commits in order up to the first whose details cannot be had. The result is what was
done, the last commit that was processed, and whether that was the last of all. -/
def catchUp : List String → CrawlStep (PassStats × Option String × Bool)
  | [] => pure ({}, none, true)
  | sha :: rest => do
    match ← c.processCommit .incremental sha with
    | none => return ({}, none, false)
    | some p =>
      let (stats, last, complete) ← catchUp rest
      return (p.stats + stats, last.or (some sha), complete)

/-- Notes the newest commit that has been caught up with, if it is another than before. -/
def advance (before now : Option String) : CrawlStep Unit :=
  match now with
  | some sha =>
    if some sha = before then pure () else .update .checkpoint (·.saveLatest sha)
  | none => pure ()

/-- The incremental pass over a page of commits, the newest first. If it has to stop early, the
newest commit that has been caught up with is the last one that was processed. -/
def catchUpWith (latest : Option String) : List CommitSummary → CrawlStep PassStats
  | [] => pure {}
  | head :: page => do
    let (stats, last, complete) ← c.catchUp (newer latest (head :: page)).reverse
    -- the page need not reach down to the mark; the mark is moved all the same
    advance latest (if complete then some head.sha else last)
    return stats

/-- The incremental pass over at most `limit` commits. -/
def incremental (limit : Nat) : CrawlStep PassStats := do
  if limit = 0 then return {}
  else
    let checkpoint ← .checkpoint
    match ← c.list (min limit (max c.settings.pageSize 1)) 1 with
    | .error _ => return {}
    | .ok page => c.catchUpWith checkpoint.latest page

/-! ### The backfill pass -/

/-- Processes commits from first parent to first parent, at most a certain number. The result is
what was done, and the commit that comes next. -/
def walkBack : Nat → String → CrawlStep (PassStats × BackfillCursor)
  | 0, sha => pure ({}, .at sha)
  | n + 1, sha => do
    match ← c.processCommit .backfill sha with
    | none => return ({}, .at sha)
    | some p =>
      match p.firstParent with
      | none => return (p.stats, .done)
      | some parent =>
        let (stats, next) ← walkBack n parent
        return (p.stats + stats, next)

/-- The commit whose first parent is the first on the way back: the newest one that has been caught
up with, or else the newest one of all. -/
def anchor (latest : Option String) : CrawlStep (Option String) := do
  match latest with
  | some sha => return some sha
  | none =>
    match ← c.list 1 1 with
    | .error _ => return none
    | .ok page => return page.head?.map CommitSummary.sha

/-- The first commit on the way back, if there is one and it can be found out. -/
def backfillStart (latest : Option String) : CrawlStep (Option String) := do
  match ← c.anchor latest with
  | none => return none
  | some sha =>
    match ← c.commit sha with
    | .error _ => return none
    | .ok d =>
      match d.firstParent? with
      | some parent => return some parent
      | none =>
        -- the anchor is the first commit of all, so there is no way back to go
        .update .checkpoint (·.saveNext .done)
        return none

/-- The backfill pass from a commit on. -/
def backfillFrom (limit : Nat) (sha : String) : CrawlStep PassStats := do
  let (stats, next) ← c.walkBack limit sha
  .update .checkpoint (·.saveNext next)
  return stats

/-- The backfill pass over at most `limit` commits. -/
def backfill (limit : Nat) : CrawlStep PassStats := do
  if limit = 0 then return {}
  else
    let checkpoint ← .checkpoint
    match checkpoint.next with
    | .done => return {}
    | .at sha => c.backfillFrom limit sha
    | .unset =>
      match ← c.backfillStart checkpoint.latest with
      | none => return {}
      | some sha => c.backfillFrom limit sha

end Crawler

end Harvest
