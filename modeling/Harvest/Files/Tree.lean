import Harvest.Files.Path
import Harvest.Store.Schema

/-!
# A tree of files

Folders and files by the place at which they stand. An operation either changes the tree or says why
it cannot be done; creating folders may get a part of the way.

## Main definitions

* `Files.FileError` — why an operation cannot be done, with `Files.FileError.message`
* `Files.Content` — what a file contains
* `Files.Tree` — a tree of files
* `Files.Tree.makeFolder`, `Files.Tree.createFolders` — a new folder, without and with those around it
* `Files.Tree.createNew`, `Files.Tree.write`, `Files.Tree.read?`, `Files.Tree.remove`,
  `Files.Tree.rename` — operations on files
* `Files.Tree.openDatabase` — a database in a file

## Main results

* `Files.Tree.find?_put` — what stands at a place after something was put at some place
* `Files.Tree.createNew_of_isPresent` — a file cannot be created twice
-/

namespace Harvest.Files

/-- Why an operation on files cannot be done. -/
inductive FileError where
  /-- There is nothing at the path, or there is no folder on the way. -/
  | notFound
  /-- There is something at the path already. -/
  | alreadyExists
  /-- A file is used as a folder. -/
  | notFolder
  /-- A folder is used as a file. -/
  | isFolder
  /-- A name is longer than names may be. -/
  | nameTooLong
  /-- A name contains the character zero. -/
  | badName
  /-- There is another cause. -/
  | other (cause : String)
  deriving DecidableEq, Repr

/-- The wording of an error. -/
def FileError.message : FileError → String
  | notFound => "No such file or directory (os error 2)"
  | alreadyExists => "File exists (os error 17)"
  | notFolder => "Not a directory (os error 20)"
  | isFolder => "Is a directory (os error 21)"
  | nameTooLong => "File name too long (os error 36)"
  | badName => "file name contained an unexpected NUL byte"
  | other cause => cause

/-- What a file contains. -/
inductive Content where
  | text (s : String)
  | database (d : Database)

/-- What stands at a place. -/
inductive Entry where
  | folder
  | file (content : Content)

/-- Whether a folder stands at a place. -/
def Entry.isFolder : Entry → Bool
  | folder => true
  | file _ => false

/-- A place in a tree: the names that lead to it, the last one first. -/
abbrev Place := List String

/-- A tree of files. -/
structure Tree where
  /-- What stands at the places other than the root. -/
  entries : List (Place × Entry) := []

namespace Tree

/-! ### Places -/

/-- What stands at a place. -/
def find? (t : Tree) (p : Place) : Option Entry :=
  if p.isEmpty then some .folder else t.entries.lookup p

/-- The tree with something else at a place. -/
def put (t : Tree) (p : Place) (e : Entry) : Tree := ⟨(p, e) :: t.entries⟩

/-- The tree with nothing at a place. -/
def erase (t : Tree) (p : Place) : Tree := ⟨t.entries.filter (·.1 != p)⟩

theorem find?_put (t : Tree) (p q : Place) (e : Entry) (hp : p ≠ []) :
    (t.put p e).find? q = if q = p then some e else t.find? q := by
  simp only [find?, put, List.lookup_cons]
  cases q with
  | nil => simp [hp.symm]
  | cons n q =>
    by_cases h : n :: q = p
    · simp [h, hp]
    · have hb : ((n :: q) == p) = false := by simpa using h
      simp [h, hb]

/-- The place one step further. -/
def step (t : Tree) (here : Place) (name : String) : Except FileError Place :=
  match t.find? here with
  | none => .error .notFound
  | some (.file _) => .error .notFolder
  | some .folder =>
    if name = "." then .ok here
    else if name = ".." then .ok here.tail
    else if 255 < name.utf8ByteSize then .error .nameTooLong
    else .ok (name :: here)

/-- The place to which a path leads; every step but the last one leads into a folder. -/
def place (t : Tree) (p : Path) : Except FileError Place :=
  if p.steps.any fun s => s.toList.contains '\x00' then .error .badName
  else if p.isEmpty then .error .notFound
  else p.steps.foldlM t.step []

/-- What stands where a path leads; there is a folder if the path ends in a slash. -/
def entry? (t : Tree) (p : Path) : Except FileError Entry := do
  match t.find? (← t.place p) with
  | none => throw .notFound
  | some (.file c) => if p.hasFinalSlash then throw .notFolder else return .file c
  | some .folder => return .folder

/-- Whether there is something where a path leads. -/
def isPresent (t : Tree) (p : Path) : Bool := (t.entry? p).isOk

/-- Whether a path leads to a file. -/
def isFile (t : Tree) (p : Path) : Bool :=
  match t.entry? p with
  | .ok (.file _) => true
  | _ => false

/-- Whether a path leads to a folder. -/
def isFolder (t : Tree) (p : Path) : Bool :=
  match t.entry? p with
  | .ok .folder => true
  | _ => false

/-! ### Folders -/

/-- A new folder in an existing one. -/
def makeFolder (t : Tree) (p : Path) : Except FileError Tree := do
  let place ← t.place p
  if !p.endsInName || (t.find? place).isSome then throw .alreadyExists
  else return t.put place .folder

/-- The first folder of a list, with the others around it as far as they are missing. -/
def createFrom (t : Tree) : List Path → Except FileError Unit × Tree
  | [] => (.error .notFound, t)
  | p :: outer =>
    if p.isEmpty then (.ok (), t)
    else
      match t.makeFolder p with
      | .ok t => (.ok (), t)
      | .error .notFound =>
        match createFrom t outer with
        | (.error e, t) => (.error e, t)
        | (.ok (), t) =>
          match t.makeFolder p with
          | .ok t => (.ok (), t)
          | .error e => (if t.isFolder p then .ok () else .error e, t)
      | .error e => (if t.isFolder p then .ok () else .error e, t)

/-- A folder, with the folders around it as far as they are missing. -/
def createFolders (t : Tree) (p : Path) : Except FileError Unit × Tree :=
  t.createFrom (p :: p.parents)

/-! ### Files -/

/-- A file where nothing was before. -/
def createNew (t : Tree) (p : Path) (text : String) : Except FileError Tree := do
  let place ← t.place p
  if !p.endsInName then throw .alreadyExists
  else if p.hasFinalSlash then throw .isFolder
  else if (t.find? place).isSome then throw .alreadyExists
  else return t.put place (.file (.text text))

/-- A file with the given text, in place of the one that was there before. -/
def write (t : Tree) (p : Path) (text : String) : Except FileError Tree := do
  let place ← t.place p
  if !p.endsInName || p.hasFinalSlash || (t.find? place).any (·.isFolder) then throw .isFolder
  else return t.put place (.file (.text text))

/-- The text of a file. -/
def read? (t : Tree) (p : Path) : Except FileError String := do
  match ← t.entry? p with
  | .folder => throw .isFolder
  | .file (.text s) => return s
  | .file (.database _) => throw (.other "stream did not contain valid UTF-8")

/-- The tree without a file. -/
def remove (t : Tree) (p : Path) : Except FileError Tree := do
  let place ← t.place p
  if !p.endsInName then throw .isFolder
  else
    match ← t.entry? p with
    | .folder => throw .isFolder
    | .file _ => return t.erase place

/-- The tree with a file at another place, instead of a file that may be there. -/
def rename (t : Tree) (p q : Path) : Except FileError Tree := do
  let source ← t.place p
  let destination ← t.place q
  match ← t.entry? p with
  | .folder => throw .isFolder
  | .file c =>
    if !q.endsInName || q.hasFinalSlash || (t.find? destination).any (·.isFolder) then throw .isFolder
    else return (t.erase source).put destination (.file c)

/-- A file cannot be created where there is something already. -/
theorem createNew_of_isPresent {t : Tree} {p : Path} (text : String) (h : t.isPresent p = true)
    (hs : p.hasFinalSlash = false) : t.createNew p text = .error .alreadyExists := by
  simp only [isPresent, entry?, bind, Except.bind] at h
  simp only [createNew, bind, Except.bind]
  cases hp : t.place p with
  | error e => simp [hp, Except.isOk, Except.toBool] at h
  | ok place =>
    simp only [hp] at h
    cases hf : t.find? place with
    | none => simp [hf, Except.isOk, Except.toBool, throw, throwThe, MonadExceptOf.throw] at h
    | some e => simp [hf, hs, throw, throwThe, MonadExceptOf.throw]

/-! ### Databases -/

/-- Whether a database is kept in no file. -/
def isPrivate (path : String) : Bool := path.isEmpty || path == ":memory:"

/-- The place of a database: two dots undo the last step, whatever stands there. -/
def databasePlace (p : Path) : Place :=
  p.steps.foldl
    (fun here s => if s == "." then here else if s == ".." then here.tail else s :: here) []

/-- The database in a file. An empty file and a new one contain a new database. -/
def openDatabase (t : Tree) (path : String) : Option (Database × Tree) :=
  if isPrivate path then some (.fresh, t)
  else do
    let p := Path.ofString path
    let place := databasePlace p
    guard (!p.steps.any fun s => s.toList.contains '\x00' || 255 < s.utf8ByteSize)
    guard (!place.isEmpty && (t.find? place.tail).any (·.isFolder))
    let d ← match t.find? place with
      | none | some (.file (.text "")) => some Database.fresh
      | some (.file (.database d)) => d.reopen.toOption
      | _ => none
    return (d, t.put place (.file (.database d)))

/-- The tree with a database in a file. -/
def keepDatabase (t : Tree) (path : String) (d : Database) : Tree :=
  if isPrivate path then t
  else t.put (databasePlace (Path.ofString path)) (.file (.database d))

end Tree

end Harvest.Files
