import Harvest.Program

/-!
# The command line program

The outer layer of the program: the files are those of the machine. It has no way to reach a server,
so that every request fails and a database stays as empty as the file that stands for it.

## Main definitions

* `Disk.access` — the operations on the files of the machine
* `main` — a call of the program
-/

namespace Harvest

open Files

namespace Disk

/-- The reason why an operation on files cannot be done. -/
def errorOf : IO.Error → FileError
  | .noFileOrDirectory .. => .notFound
  | .alreadyExists .. => .alreadyExists
  | e => .other (toString e)

/-- An operation with its error as a value. -/
def attempt {α : Type} (x : IO α) : IO (Except FileError α) := do
  try
    return .ok (← x)
  catch e =>
    return .error (errorOf e)

/-- A database in a file; only an empty one can be opened. -/
def openDatabase (path : String) : IO (Option Database) := do
  if Tree.isPrivate path then return some .fresh
  match ← attempt (IO.FS.readFile path) with
  | .ok "" => return some .fresh
  | .error .notFound =>
    match ← attempt (IO.FS.writeFile path "") with
    | .ok () => return some .fresh
    | .error _ => return none
  | _ => return none

/-- The operations on the files of the machine. -/
def access : Access IO where
  isPresent path := return (← attempt (IO.FS.Handle.mk path .read)).isOk
  read path := attempt (IO.FS.readFile path)
  write path text := attempt (IO.FS.writeFile path text)
  createNew path text :=
    attempt do
      let handle ← IO.FS.Handle.mk path .writeNew
      handle.putStr text
  remove path := attempt (IO.FS.removeFile path)
  rename path new := attempt (IO.FS.rename path new)
  createFolders path := attempt (IO.FS.createDirAll path)
  openDatabase := openDatabase
  keepDatabase _ _ := return ()

/-- The number of this process, zero if the machine does not tell. -/
def processNumber : IO Nat := do
  match ← attempt (IO.FS.readFile "/proc/self/stat") with
  | .ok text => return ((text.splitOn " ").head?.bind String.toNat?).getD 0
  | .error _ => return 0

end Disk

end Harvest

open Harvest in
/-- A call of the program. -/
def main (args : List String) : IO UInt32 := do
  let host : Host IO := {
    files := Disk.access
    transport := Http.unreachable
    now := .reference
    process := ← Disk.processNumber }
  let outcome ← Program.execute host (← IO.getEnv "HASHLIST_CONFIG_DIR") args
  match outcome with
  | .done output => IO.print output.write
  | .failed cause => IO.eprintln ("Error: " ++ cause.message)
  | .mistake => IO.eprintln "error: unexpected arguments\n\nFor more information, try '--help'."
  return outcome.exitCode
