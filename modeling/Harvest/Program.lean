import Harvest.CommandLine.Help
import Harvest.Config.File
import Harvest.Crawl.Report
import Harvest.Http.Github
import Harvest.Http.TitleSearch
import Harvest.Json.Printer
import Harvest.Log.Filter
import Harvest.RunLock

/-!
# The program

The program reads its settings, opens its database and carries out one command. Every command but
the one that tells where the crawl stands needs the run lock.

## Main definitions

* `Host` — what the program works with
* `Failure` — why the program gives up, with `Failure.message`
* `Program.loadSettings`, `Program.startLog`, `Program.openDatabase`, `Program.crawler?` — the
  preparations
* `Program.task` — what a command does to a crawl
* `Program.carryOut` — a command with its preparations
* `Outcome`, `Program.execute` — how a call of the program ends

## Main results

* `Program.execute_of_mistake` — arguments that make no sense change nothing
-/

namespace Harvest

open Files

/-- What the program works with. -/
structure Host (m : Type → Type) where
  /-- The files. -/
  files : Access m
  /-- What becomes of requests. -/
  transport : Http.Transport
  /-- The current moment. -/
  now : Moment
  /-- The number of the process. -/
  process : Nat

/-- Why the program gives up. -/
inductive Failure where
  /-- The settings can be neither read nor written. -/
  | settings
  /-- The settings for the log make no sense, or there can be no folder for it. -/
  | log
  /-- The folder for the log is a file. -/
  | logFile
  /-- The database cannot be opened. -/
  | database (path : String)
  /-- The external search cannot be set up. -/
  | search (cause : SearchFailure)
  /-- The access to the commits cannot be set up. -/
  | source (cause : FetchError)
  /-- The run lock cannot be taken. -/
  | lock (cause : LockError)
  /-- The database fails during a command. -/
  | crawl (cause : CrawlError)
  deriving DecidableEq

namespace Failure

/-- The wording of a failure. -/
def message : Failure → String
  | settings => "Failed to load configuration"
  | log => "Failed to initialize logging"
  | logFile => "initializing rolling file appender failed"
  | database path => "Failed to open database " ++ path
  | search cause => cause.message
  | source cause => cause.message
  | lock cause => cause.message
  | crawl cause => cause.message

/-- The exit code of the program after a failure. -/
def exitCode : Failure → UInt32
  | logFile => 101
  | _ => 1

end Failure

/-- What the program writes when a command has been carried out. -/
inductive Output where
  | report (v : Json.Value)
  | text (s : String)

/-- The text that is written. -/
def Output.write : Output → String
  | report v => v.pretty ++ "\n"
  | text s => s

/-- How a call of the program ends. -/
inductive Outcome where
  /-- What was asked for has been done. -/
  | done (output : Output)
  /-- The program gives up. -/
  | failed (cause : Failure)
  /-- The arguments make no sense. -/
  | mistake

/-- The exit code of a call. -/
def Outcome.exitCode : Outcome → UInt32
  | done _ => 0
  | failed cause => cause.exitCode
  | mistake => 2

namespace Program

variable {m : Type → Type} [Monad m] (h : Host m)

/-- A part of the work of the program. -/
abbrev Work (m : Type → Type) (α : Type) := ExceptT Failure m α

/-- Gives up unless an operation on files can be done. -/
def orFail {α : Type} (f : Failure) (x : m (Except FileError α)) : Work m α := do
  match ← ExceptT.lift x with
  | .ok a => return a
  | .error _ => throw f

/-! ### Preparations -/

/-- Creates a folder unless there is something at its path. -/
def ensureFolder (f : Failure) (path : String) : Work m Unit := do
  unless ← h.files.isPresent path do orFail f (h.files.createFolders path)

/-- The name of the settings file. -/
def settingsName : String := "config.toml"

/-- Reads the settings in a folder. A file that is missing is written with the defaults; one that
cannot be read is set aside first. -/
def loadSettings (folder : String) : Work m Settings := do
  ensureFolder h .settings folder
  let path := join folder settingsName
  let text ← do
    if ← h.files.isPresent path then some <$> orFail .settings (h.files.read path)
    else pure none
  let (settings, file) := SettingsFile.load { text := text }
  if file.backup.isSome then
    discard <| h.files.rename path (path ++ ".backup")
    discard <| h.files.write path (file.text.getD "")
  unless ← h.files.isPresent path do
    orFail .settings (h.files.write path (SettingsFile.reset {} |>.text.getD ""))
  return settings

/-- Sets up the log. -/
def startLog (s : LogSettings) (folder : String) : Work m Unit := do
  unless Log.isFilter s.level do throw .log
  if s.toFile then
    ensureFolder h .log folder
    match ← h.files.createFolders folder with
    | .ok () => return ()
    | .error _ => throw .logFile

/-- Opens the database; missing folders around it are created. -/
def openDatabase (path : String) : Work m Database := do
  if let some folder := RunLock.folderOf path then ensureFolder h (.database path) folder
  match ← h.files.openDatabase path with
  | some d => return d
  | none => throw (.database path)

/-- The crawler for some settings. -/
def crawler? (transport : Http.Transport) (now : Moment) (s : Settings) :
    Except Failure Crawler := do
  let search ← (SearchClient.make? s.resolver.searchEndpoint s.source.userAgent
    transport).mapError .search
  let source ← ((GithubSettings.ofSource s.source).client? transport).mapError .source
  return {
    remote := source.remote now
    search := fun _ => search.answer
    settings := s.crawlSettings }

/-! ### Commands -/

/-- The options of a full ingestion: what the settings say, except for what was chosen. -/
def fullOptions (s : Settings) (c : FullChoice) : FullOptions where
  maxIterations := c.maxIterations.getD s.fullOptions.maxIterations
  limits :=
    ⟨c.incremental.getD s.fullOptions.limits.incremental,
      c.backfill.getD s.fullOptions.limits.backfill⟩
  reset := c.reset

/-- What a command does to a crawl. -/
def task (s : Settings) (c : Crawler) : Command → CrawlStep Output
  | .run => do return .report (← c.run s.passLimits).json
  | .full choice => do return .report (← c.fullIngestion (fullOptions s choice)).json
  | .status => do return .report (← CrawlStep.status).json
  | .reset => do
    CrawlStep.reset
    return .text "Checkpoints cleared\n"

/-- Whether a command needs the run lock. -/
def needsLock : Command → Bool
  | .status => false
  | _ => true

/-- Does something to the crawl of a database, which is kept whatever happens. -/
def crawl (path : String) (d : Database) (task : CrawlStep Output) : Work m Output := do
  let (result, after) := task { db := d }
  h.files.keepDatabase path after.db
  match result with
  | .ok output => return output
  | .error e => throw (.crawl e)

/-- Works while holding the run lock, which is given back whatever happens. -/
def whileLocked (path : String) (work : Work m Output) : Work m Output := do
  match ← ExceptT.lift (RunLock.acquire h.files path h.process) with
  | .error e => throw (.lock e)
  | .ok lock =>
    let result ← ExceptT.lift work.run
    discard <| ExceptT.lift (lock.release h.files)
    ExceptT.mk (pure result)

/-- Carries out a command with the settings in a folder. -/
def carryOut (folder : String) (c : Command) : Work m Output := do
  let s ← loadSettings h folder
  startLog h s.logging s.paths.logDirectory
  let path := s.paths.databaseFile
  let d ← openDatabase h path
  let crawler ← ExceptT.mk (pure (crawler? h.transport h.now s))
  let work := crawl h path d (task s crawler c)
  if needsLock c then whileLocked h s.paths.lockFile work else work

/-- A call of the program. The environment may name the folder of the settings. -/
def execute (environment : Option String) (args : List String) : m Outcome :=
  match Invocation.parse environment args with
  | .mistake => return .mistake
  | .help topic => return .done (.text topic.text)
  | .version => return .done (.text CommandLine.version)
  | .command folder c => do
    match ← (carryOut h folder c).run with
    | .ok output => return .done output
    | .error e => return .failed e

/-- Arguments that make no sense change nothing. -/
theorem execute_of_mistake {environment : Option String} {args : List String}
    (hm : Invocation.parse environment args = .mistake) :
    execute h environment args = pure .mistake := by
  simp [execute, hm]

end Program

end Harvest
