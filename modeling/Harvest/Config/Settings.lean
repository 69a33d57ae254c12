import Harvest.Crawl.Run
import Harvest.Json.Value
import Harvest.Number.Binary

/-!
# Settings

The settings of the program in sections, and what its parts are told of them.

## Main definitions

* `Settings` — the settings, with their defaults
* `Settings.crawlSettings`, `Settings.passLimits`, `Settings.fullOptions` — what crawls are told
* `SettingField` — how a setting is read and replaced by its name
* `Settings.sections` — all settings by section and name
-/

namespace Harvest

/-- Where the program keeps its files. -/
structure PathSettings where
  databaseFile : String := "./data/hashlist.sqlite"
  logDirectory : String := "./logs"
  lockFile : String := "./data/hashlist-ingest.lock"
  deriving DecidableEq, Repr

/-- Where the lists come from. -/
structure SourceSettings where
  apiBaseUrl : String := "https://api.github.com"
  rawBaseUrl : String := "https://raw.githubusercontent.com"
  owner : String := "debridmediamanager"
  repo : String := "hashlists"
  branch : String := "main"
  snapshotExtension : String := ".html"
  fragmentHost : String := Snapshot.defaultHost
  userAgent : String := "hashlist-ingest/1.0.0"
  apiToken : Option String := none
  deriving DecidableEq, Repr

/-- How long to wait for the remote, in seconds. -/
structure HttpSettings where
  timeout : Nat := 40
  connectTimeout : Nat := 10
  deriving DecidableEq, Repr

/-- How much is done at a time. -/
structure LimitSettings where
  incremental : Nat := 25
  backfill : Nat := 25
  fullIncremental : Nat := 100
  fullBackfill : Nat := 100
  fullMaxIterations : Nat := 200
  maxPerPage : Nat := 100
  deriving DecidableEq, Repr

/-- How names are linked to titles. -/
structure ResolverSettings where
  minSimilarity : Nat := defaultMinSimilarity
  searchTimeout : Nat := 8
  concurrency : Nat := 8
  localLimit : Nat := 10
  externalLimit : Nat := 5
  searchEndpoint : Option String := none
  deriving DecidableEq, Repr

/-- What is written to the log. -/
structure LogSettings where
  level : String := "info"
  format : String := "json"
  toTerminal : Bool := true
  toFile : Bool := true
  deriving DecidableEq, Repr

/-- The settings of the program. -/
structure Settings where
  paths : PathSettings := {}
  source : SourceSettings := {}
  http : HttpSettings := {}
  limits : LimitSettings := {}
  resolver : ResolverSettings := {}
  logging : LogSettings := {}
  deriving DecidableEq, Repr

namespace Settings

/-- How many commits are listed on a page; at least one. -/
def pageSize (s : Settings) : Nat := max s.limits.maxPerPage 1

/-- How many names may be linked at the same time; at least one. -/
def concurrency (s : Settings) : Nat := max s.resolver.concurrency 1

/-- The settings of a crawl. -/
def crawlSettings (s : Settings) : CrawlSettings where
  minSimilarity := s.resolver.minSimilarity
  localLimit := s.resolver.localLimit
  externalLimit := s.resolver.externalLimit
  extension := s.source.snapshotExtension
  host := s.source.fragmentHost
  pageSize := s.pageSize

/-- The limits of a run. -/
def passLimits (s : Settings) : PassLimits := ⟨s.limits.incremental, s.limits.backfill⟩

/-- What a full ingestion is asked to do. -/
def fullOptions (s : Settings) : FullOptions where
  maxIterations := s.limits.fullMaxIterations
  limits := ⟨s.limits.fullIncremental, s.limits.fullBackfill⟩

end Settings

/-- The value of a setting. -/
inductive SettingValue where
  | text (s : String)
  | number (n : Nat)
  | flag (b : Bool)
  /-- Nothing, for a setting that may be missing. -/
  | absent
  deriving DecidableEq, Repr

/-- How a setting is read and replaced. -/
structure SettingField where
  /-- The name of the setting. -/
  name : String
  /-- Whether the setting may be missing. -/
  isOptional : Bool := false
  /-- The value of the setting. -/
  get : Settings → SettingValue
  /-- The settings with another value, if it is one for this setting. -/
  set? : SettingValue → Settings → Option Settings

namespace SettingField

/-- A setting that is a text. -/
def text (name : String) (get : Settings → String) (set : String → Settings → Settings) :
    SettingField where
  name := name
  get s := .text (get s)
  set? v s :=
    match v with
    | .text t => some (set t s)
    | _ => none

/-- A setting that is a number of so many bits. -/
def number (name : String) (bits : Nat) (get : Settings → Nat)
    (set : Nat → Settings → Settings) : SettingField where
  name := name
  get s := .number (get s)
  set? v s :=
    match v with
    | .number n => if Bits.holds bits n then some (set n s) else none
    | _ => none

/-- A setting that is on or off. -/
def flag (name : String) (get : Settings → Bool) (set : Bool → Settings → Settings) :
    SettingField where
  name := name
  get s := .flag (get s)
  set? v s :=
    match v with
    | .flag b => some (set b s)
    | _ => none

/-- A setting that is a text or missing. -/
def optionalText (name : String) (get : Settings → Option String)
    (set : Option String → Settings → Settings) : SettingField where
  name := name
  isOptional := true
  get s := (get s).elim .absent .text
  set? v s :=
    match v with
    | .text t => some (set (some t) s)
    | .absent => some (set none s)
    | _ => none

end SettingField

namespace Settings

open SettingField

/-- The settings about files. -/
def pathFields : List SettingField :=
  [text "database_file" (·.paths.databaseFile)
      fun v s => { s with paths := { s.paths with databaseFile := v } },
    text "log_directory" (·.paths.logDirectory)
      fun v s => { s with paths := { s.paths with logDirectory := v } },
    text "lock_file" (·.paths.lockFile)
      fun v s => { s with paths := { s.paths with lockFile := v } }]

/-- The settings about the lists. -/
def sourceFields : List SettingField :=
  [text "api_base_url" (·.source.apiBaseUrl)
      fun v s => { s with source := { s.source with apiBaseUrl := v } },
    text "raw_base_url" (·.source.rawBaseUrl)
      fun v s => { s with source := { s.source with rawBaseUrl := v } },
    text "owner" (·.source.owner) fun v s => { s with source := { s.source with owner := v } },
    text "repo" (·.source.repo) fun v s => { s with source := { s.source with repo := v } },
    text "branch" (·.source.branch) fun v s => { s with source := { s.source with branch := v } },
    text "snapshot_extension" (·.source.snapshotExtension)
      fun v s => { s with source := { s.source with snapshotExtension := v } },
    text "fragment_host" (·.source.fragmentHost)
      fun v s => { s with source := { s.source with fragmentHost := v } },
    text "user_agent" (·.source.userAgent)
      fun v s => { s with source := { s.source with userAgent := v } },
    optionalText "api_token" (·.source.apiToken)
      fun v s => { s with source := { s.source with apiToken := v } }]

/-- The settings about waiting. -/
def httpFields : List SettingField :=
  [number "timeout_secs" 64 (·.http.timeout)
      fun v s => { s with http := { s.http with timeout := v } },
    number "connect_timeout_secs" 64 (·.http.connectTimeout)
      fun v s => { s with http := { s.http with connectTimeout := v } }]

/-- The settings about limits. -/
def limitFields : List SettingField :=
  [number "incremental_commits_per_run" 64 (·.limits.incremental)
      fun v s => { s with limits := { s.limits with incremental := v } },
    number "backfill_commits_per_run" 64 (·.limits.backfill)
      fun v s => { s with limits := { s.limits with backfill := v } },
    number "full_ingest_incremental_commits" 64 (·.limits.fullIncremental)
      fun v s => { s with limits := { s.limits with fullIncremental := v } },
    number "full_ingest_backfill_commits" 64 (·.limits.fullBackfill)
      fun v s => { s with limits := { s.limits with fullBackfill := v } },
    number "full_ingest_max_iterations" 64 (·.limits.fullMaxIterations)
      fun v s => { s with limits := { s.limits with fullMaxIterations := v } },
    number "max_commits_per_page" 64 (·.limits.maxPerPage)
      fun v s => { s with limits := { s.limits with maxPerPage := v } }]

/-- The settings about linking. -/
def resolverFields : List SettingField :=
  [number "min_similarity" 32 (·.resolver.minSimilarity)
      fun v s => { s with resolver := { s.resolver with minSimilarity := v } },
    number "search_timeout_secs" 64 (·.resolver.searchTimeout)
      fun v s => { s with resolver := { s.resolver with searchTimeout := v } },
    number "resolve_concurrency" 64 (·.resolver.concurrency)
      fun v s => { s with resolver := { s.resolver with concurrency := v } },
    number "local_candidate_limit" 64 (·.resolver.localLimit)
      fun v s => { s with resolver := { s.resolver with localLimit := v } },
    number "external_candidate_limit" 64 (·.resolver.externalLimit)
      fun v s => { s with resolver := { s.resolver with externalLimit := v } },
    optionalText "search_endpoint" (·.resolver.searchEndpoint)
      fun v s => { s with resolver := { s.resolver with searchEndpoint := v } }]

/-- The settings about the log. -/
def logFields : List SettingField :=
  [text "log_level" (·.logging.level)
      fun v s => { s with logging := { s.logging with level := v } },
    text "log_format" (·.logging.format)
      fun v s => { s with logging := { s.logging with format := v } },
    flag "log_to_terminal" (·.logging.toTerminal)
      fun v s => { s with logging := { s.logging with toTerminal := v } },
    flag "log_to_file" (·.logging.toFile)
      fun v s => { s with logging := { s.logging with toFile := v } }]

/-- All settings by section and name. -/
def sections : List (String × List SettingField) :=
  [("paths", pathFields), ("source", sourceFields), ("http", httpFields),
    ("limits", limitFields), ("resolver", resolverFields), ("logging", logFields)]

/-- The settings with another value for one of them, if it is a value for that setting. -/
def set? (s : Settings) (sectionName name : String) (v : SettingValue) : Option Settings := do
  let fields ← sections.lookup sectionName
  let field ← fields.find? (·.name == name)
  field.set? v s

/-- Reading back a setting that was replaced. -/
theorem get_text {name : String} {get : Settings → String} {set : String → Settings → Settings}
    (h : ∀ t s, get (set t s) = t) {v : SettingValue} {s s' : Settings}
    (hs : (text name get set).set? v s = some s') : (text name get set).get s' = v := by
  cases v <;> simp only [text, Option.some.injEq, reduceCtorEq] at hs ⊢
  rw [← hs, h]

end Settings

end Harvest
