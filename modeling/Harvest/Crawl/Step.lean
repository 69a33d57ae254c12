import Harvest.Crawl.Cache
import Harvest.Crawl.Event
import Harvest.Crawl.Remote
import Harvest.Search.Result
import Harvest.Snapshot.Fragment
import Harvest.Store.Database

/-!
# Steps of a crawl

A crawl works on a database and remembers resolutions; what it asks of the remote and of the
external search, and what it reports, is kept in order. A step changes the crawl and ends with a
value, or with an error of the database; trouble of the remote and of the search never ends a step.

## Main definitions

* `Crawl` — the state of a crawl
* `CrawlError` — an error of the database, and what it happened during
* `CrawlStep` — a step
* `CrawlStep.query`, `CrawlStep.update`, `CrawlStep.perform` — a statement of the database as a step
* `CrawlStep.during`, `CrawlStep.attempt` — steps with another treatment of errors
* `Crawler` — the remote, the external search and the settings that steps use
-/

namespace Harvest

/-- The state of a crawl. -/
structure Crawl where
  /-- The database. -/
  db : Database := {}
  /-- The resolutions that are remembered. -/
  cache : ResolutionCache := {}
  /-- The requests made to the remote, in order. -/
  calls : List RemoteCall := []
  /-- The queries put to the external search, in order. -/
  queries : List SearchQuery := []
  /-- The events, in order. -/
  events : List Event := []

/-- A part of a crawl in which an error can happen. -/
inductive CrawlPart where
  /-- The catalog is used. -/
  | catalog
  /-- Where the crawl stands is read or written. -/
  | checkpoint
  /-- Streams are stored. -/
  | streams
  /-- Names are linked to titles. -/
  | resolver
  /-- The entries of a snapshot are stored. -/
  | pipeline
  /-- Commits are walked through. -/
  | walker
  deriving DecidableEq, Repr

/-- The wording of a part in front of an error. -/
def CrawlPart.label : CrawlPart → String
  | catalog => "Catalog error: "
  | checkpoint => "Checkpoint error: "
  | streams => "Stream store error: "
  | resolver => "Resolver error: "
  | pipeline => "Pipeline error: "
  | walker => "Walker error: "

/-- An error of the database that ends a step. -/
structure CrawlError where
  /-- What it happened during, the most comprehensive part first. -/
  parts : List CrawlPart
  /-- The error. -/
  cause : StoreError
  deriving DecidableEq, Repr

/-- The wording of an error. -/
def CrawlError.message (e : CrawlError) : String :=
  String.join (e.parts.map CrawlPart.label) ++ e.cause.report

/-- A step of a crawl. -/
abbrev CrawlStep (α : Type) := ExceptT CrawlError (StateM Crawl) α

namespace CrawlStep

/-- A statement that reads the database. -/
def query {α : Type} (part : CrawlPart) (f : Database → Except StoreError α) : CrawlStep α :=
  fun s =>
    match f s.db with
    | .ok a => (.ok a, s)
    | .error e => (.error ⟨[part], e⟩, s)

/-- A statement that changes the database, unless it fails. -/
def update (part : CrawlPart) (f : Database → Except StoreError Database) : CrawlStep Unit :=
  fun s =>
    match f s.db with
    | .ok db => (.ok (), { s with db := db })
    | .error e => (.error ⟨[part], e⟩, s)

/-- A statement that may change the database even if it fails. -/
def perform {α : Type} (part : CrawlPart) (f : Database → Except StoreError α × Database) :
    CrawlStep α :=
  fun s =>
    match f s.db with
    | (.ok a, db) => (.ok a, { s with db := db })
    | (.error e, db) => (.error ⟨[part], e⟩, { s with db := db })

/-- The step as a part of a more comprehensive one. -/
def during {α : Type} (part : CrawlPart) (x : CrawlStep α) : CrawlStep α :=
  fun s =>
    match x s with
    | (.ok a, s) => (.ok a, s)
    | (.error e, s) => (.error { e with parts := part :: e.parts }, s)

/-- The step with its error as a value. -/
def attempt {α : Type} (x : CrawlStep α) : CrawlStep (Except CrawlError α) :=
  fun s => (.ok (x s).1, (x s).2)

/-- Reports an event. -/
def report (e : Event) : CrawlStep Unit :=
  fun s => (.ok (), { s with events := s.events ++ [e] })

/-- The resolutions that are remembered. -/
def cache : CrawlStep ResolutionCache := fun s => (.ok s.cache, s)

/-- Remembers a resolution. -/
def remember (k : ResolutionKey) (id : Option String) : CrawlStep Unit :=
  fun s => (.ok (), { s with cache := s.cache.insert k id })

/-- The step with nothing remembered at its beginning; afterwards the crawl remembers what it
remembered before. -/
def withFreshCache {α : Type} (x : CrawlStep α) : CrawlStep α :=
  fun s => ((x { s with cache := {} }).1, { (x { s with cache := {} }).2 with cache := s.cache })

theorem bind_run {α β : Type} (x : CrawlStep α) (f : α → CrawlStep β) (s : Crawl) :
    (x >>= f) s = match x s with
      | (.ok a, t) => f a t
      | (.error e, t) => (.error e, t) := by
  simp only [bind, ExceptT.bind, ExceptT.mk, StateT.bind]
  cases x s with
  | mk r t => cases r <;> rfl

@[simp] theorem pure_run {α : Type} (a : α) (s : Crawl) :
    (pure a : CrawlStep α) s = (.ok a, s) := rfl

@[simp] theorem throw_run {α : Type} (e : CrawlError) (s : Crawl) :
    (throw e : CrawlStep α) s = (.error e, s) := rfl

end CrawlStep

/-- The settings of a crawl. -/
structure CrawlSettings where
  /-- The similarity in percent that is asked for. -/
  minSimilarity : Nat := defaultMinSimilarity
  /-- How many titles of the catalog are considered for a name. -/
  localLimit : Nat := 10
  /-- How many results of the external search are asked for. -/
  externalLimit : Nat := 5
  /-- How the paths of snapshots end. -/
  extension : String := ".html"
  /-- The host to which the lists of snapshots belong. -/
  host : String := Snapshot.defaultHost
  /-- How many commits are listed on a page at most. -/
  pageSize : Nat := 100
  deriving DecidableEq, Repr

/-- What the steps of a crawl use. -/
structure Crawler where
  /-- The remote. -/
  remote : Remote
  /-- The external search; its answer may depend on the queries that were put to it before. -/
  search : List SearchQuery → SearchQuery → SearchAnswer
  /-- The settings. -/
  settings : CrawlSettings := {}

namespace Crawler

variable (c : Crawler)

/-- Asks the remote for a page of commits. -/
def list (perPage page : Nat) : CrawlStep (Except FetchError (List CommitSummary)) :=
  fun s => (.ok (c.remote.list s.calls perPage page),
    { s with calls := s.calls ++ [.list perPage page] })

/-- Asks the remote for the details of a commit. -/
def commit (sha : String) : CrawlStep (Except FetchError CommitDetail) :=
  fun s => (.ok (c.remote.commit s.calls sha), { s with calls := s.calls ++ [.commit sha] })

/-- Asks the remote for the text of a file. -/
def raw (url : String) : CrawlStep (Except FetchError String) :=
  fun s => (.ok (c.remote.raw s.calls url), { s with calls := s.calls ++ [.raw url] })

/-- Asks the external search. -/
def ask (q : SearchQuery) : CrawlStep SearchAnswer :=
  fun s => (.ok (c.search s.queries q), { s with queries := s.queries ++ [q] })

end Crawler

end Harvest
