import Harvest.Crawl.Event
import Harvest.Files.Access

/-!
# The run lock

At most one instance of the program works at a time: it holds a file that nobody else can create
while it is there.

## Main definitions

* `RunLock` — a lock that is held
* `LockError` — why a lock cannot be taken, with `LockError.message`
* `RunLock.acquire`, `RunLock.release` — takes a lock and gives it back

## Main results

* `RunLock.createFile_of_isPresent` — a lock whose file is there cannot be taken
-/

namespace Harvest

open Files

/-- A lock that is held. -/
structure RunLock where
  /-- The file of the lock. -/
  path : String
  deriving DecidableEq, Repr

/-- Why a lock cannot be taken. -/
inductive LockError where
  /-- Another instance holds the lock. -/
  | alreadyRunning (path : String)
  /-- The file of the lock cannot be created. -/
  | file (cause : FileError)
  deriving DecidableEq, Repr

/-- The wording of an error. -/
def LockError.message : LockError → String
  | alreadyRunning path => "Another instance holds the run lock at " ++ path
  | file cause => "IO error: " ++ cause.message

/-- The error of a lock whose file cannot be created. -/
def LockError.ofFile (path : String) : FileError → LockError
  | .alreadyExists => .alreadyRunning path
  | e => .file e

namespace RunLock

variable {m : Type → Type} [Monad m] (files : Access m)

/-- The path to the folder around a file, if that is another one than the current one. -/
def folderOf (path : String) : Option String :=
  (Path.ofString path).parents.head?.bind fun p =>
    if p.isEmpty then none
    else some ((if p.isAbsolute then "/" else "") ++ "/".intercalate p.steps)

/-- Creates the file of a lock, which says which process holds it. -/
def createFile (path : String) (process : Nat) : m (Except LockError RunLock) := do
  match ← files.createNew path (toString process ++ "\n") with
  | .ok () => return .ok ⟨path⟩
  | .error e => return .error (.ofFile path e)

/-- Takes a lock for a process; missing folders around its file are created. -/
def acquire (path : String) (process : Nat) : m (Except LockError RunLock) := do
  match folderOf path with
  | none => createFile files path process
  | some folder =>
    match ← files.createFolders folder with
    | .error e => return .error (.file e)
    | .ok () => createFile files path process

/-- What is reported when a lock has been taken. -/
def acquired (l : RunLock) : Event := .system "lock_acquired" l.path

/-- Gives a lock back. Only if its file was still there, this is reported. -/
def release (l : RunLock) : m (Option Event) := do
  match ← files.remove l.path with
  | .ok () => return some (.system "lock_released" l.path)
  | .error _ => return none

/-- A lock whose file is there cannot be taken, and the file stays. -/
theorem createFile_of_isPresent {t : Tree} {path : String} (process : Nat)
    (h : t.isPresent (.ofString path) = true) (hs : (Path.ofString path).hasFinalSlash = false) :
    createFile Tree.access path process t = (.error (.alreadyRunning path), t) := by
  have hc := Tree.createNew_of_isPresent (toString process ++ "\n") h hs
  simp only [createFile, bind, StateT.bind, Tree.createNew_run, hc]
  rfl

end RunLock

end Harvest
