import Harvest.Crawl.Linking
import Harvest.Release.Parse
import Harvest.Stream.Record

/-!
# Storing the entries of a snapshot

The entries of a snapshot are judged by their names; those that may be linked to a title become
streams, if the link succeeds.

## Main definitions

* `EntryVerdict`, `EntryVerdict.ofEntry` — the judgement on an entry
* `Prospect` — an entry that may be linked to a title
* `StoreSummary` — how many entries came how far
* `Crawler.storeEntries` — stores the entries of a snapshot
-/

namespace Harvest

/-- An entry that may be linked to a title. -/
structure Prospect where
  entry : Entry
  /-- What the release name tells. -/
  parsed : ParsedRelease
  deriving DecidableEq, Repr

namespace Prospect

/-- The kind of the release. -/
def mediaType (p : Prospect) : MediaType := p.parsed.mediaType

/-- The request to link the entry. -/
def request (p : Prospect) : ResolutionRequest :=
  .ofTitle p.parsed.title p.parsed.year p.mediaType p.entry.filename

/-- What has to agree for two entries to be linked alike. -/
def key (p : Prospect) : ResolutionKey := p.request.key

/-- The record of the entry once it is linked to an external id. -/
def record (p : Prospect) (createdAt : Moment) (metaId : String) : StreamRecord :=
  Stream.record p.entry p.parsed metaId createdAt p.mediaType

end Prospect

/-- The judgement on an entry. -/
inductive EntryVerdict where
  /-- The name contains a word that is not for children. -/
  | adult
  /-- The name contains no title. -/
  | untitled
  /-- The name is that of a broadcast of sports. -/
  | sports
  /-- The entry may be linked to a title. -/
  | prospect (p : Prospect)
  deriving DecidableEq, Repr

namespace EntryVerdict

/-- The judgement on an entry. -/
def ofEntry (e : Entry) : EntryVerdict :=
  if Release.isAdult e.filename then adult
  else
    let p : Prospect := ⟨e, Release.parse e.filename⟩
    if p.parsed.title.isEmpty then untitled
    else if p.mediaType == .movie && Release.isSportsBroadcast e.filename then sports
    else prospect p

/-- The entry, if it may be linked to a title. -/
def prospect? : EntryVerdict → Option Prospect
  | prospect p => some p
  | _ => none

end EntryVerdict

/-- How many entries came how far. -/
structure StoreSummary where
  /-- All entries. -/
  total : Nat
  /-- Entries without those whose hashes came before. -/
  unique : Nat
  /-- Entries that are not for children. -/
  adultSkipped : Nat
  /-- Broadcasts of sports. -/
  sportsSkipped : Nat
  /-- Different keys among the entries that may be linked. -/
  metadataKeys : Nat
  /-- Keys that are linked to a title. -/
  resolved : Nat
  /-- Entries that are linked to a title. -/
  payloads : Nat
  /-- Streams that are new. -/
  stored : Nat
  deriving DecidableEq, Repr

/-- The requests for some entries, one for every key. -/
def Prospect.requests (ps : List Prospect) : List ResolutionRequest :=
  firstOfEach ResolutionRequest.key (ps.map Prospect.request)

/-- The records of the entries that are linked to a title. -/
def Prospect.records (ps : List Prospect) (cache : ResolutionCache) (createdAt : Moment) :
    List StreamRecord :=
  ps.filterMap fun p => (cache.linked? p.key).map (p.record createdAt)

/-- The judgements on the entries of a snapshot, one for every hash. -/
def Snapshot.verdicts (entries : List Entry) : List EntryVerdict :=
  (Snapshot.firstOfEachHash entries).map EntryVerdict.ofEntry

/-- Stores the entries of a snapshot that was made at the given moment. -/
def Crawler.storeEntries (c : Crawler) (entries : List Entry) (createdAt : Moment) :
    CrawlStep StoreSummary := do
  let verdicts := Snapshot.verdicts entries
  let prospects := verdicts.filterMap EntryVerdict.prospect?
  let requests := Prospect.requests prospects
  (c.resolveAll requests).during .resolver
  let cache ← .cache
  let records := Prospect.records prospects cache createdAt
  let stored ← .perform .streams (·.storeStreams records)
  return {
    total := entries.length
    unique := verdicts.length
    adultSkipped := verdicts.count .adult
    sportsSkipped := verdicts.count .sports
    metadataKeys := requests.length
    resolved := requests.countP fun r => (cache.linked? r.key).isSome
    payloads := records.length
    stored := stored }

end Harvest
