import Harvest.Files.Tree

/-!
# Access to files

What a program may do with files, whatever they are kept in: a tree, or the disk of a machine.

## Main definitions

* `Files.Access` — the operations of a program on files
* `Files.Tree.access` — the operations on a tree

## Main results

* `Files.Tree.createNew_run`, `Files.Tree.remove_run` — the operations change the tree exactly if
  they can be done
-/

namespace Harvest.Files

/-- The operations of a program on files, in terms of the texts of paths. -/
structure Access (m : Type → Type) where
  /-- Whether there is something. -/
  isPresent : String → m Bool
  /-- The text of a file. -/
  read : String → m (Except FileError String)
  /-- Writes a file. -/
  write : String → String → m (Except FileError Unit)
  /-- Writes a file where nothing is yet. -/
  createNew : String → String → m (Except FileError Unit)
  /-- Removes a file. -/
  remove : String → m (Except FileError Unit)
  /-- Gives a file another path. -/
  rename : String → String → m (Except FileError Unit)
  /-- Creates a folder and the folders around it. -/
  createFolders : String → m (Except FileError Unit)
  /-- The database in a file, which is created if it is missing. -/
  openDatabase : String → m (Option Database)
  /-- Keeps a database in a file. -/
  keepDatabase : String → Database → m Unit

namespace Tree

/-- An operation that leaves the tree as it is if it cannot be done. -/
def attempt (f : Tree → Except FileError Tree) : StateM Tree (Except FileError Unit) := fun t =>
  match f t with
  | .ok t => (.ok (), t)
  | .error e => (.error e, t)

/-- The operations on a tree. -/
def access : Access (StateM Tree) where
  isPresent path t := (t.isPresent (.ofString path), t)
  read path t := (t.read? (.ofString path), t)
  write path text := attempt (·.write (.ofString path) text)
  createNew path text := attempt (·.createNew (.ofString path) text)
  remove path := attempt (·.remove (.ofString path))
  rename path new := attempt (·.rename (.ofString path) (.ofString new))
  createFolders path t := t.createFolders (.ofString path)
  openDatabase path t :=
    match t.openDatabase path with
    | some (d, t) => (some d, t)
    | none => (none, t)
  keepDatabase path d t := ((), t.keepDatabase path d)

theorem createNew_run (t : Tree) (path text : String) :
    access.createNew path text t =
      match t.createNew (.ofString path) text with
      | .ok u => (.ok (), u)
      | .error e => (.error e, t) := rfl

theorem remove_run (t : Tree) (path : String) :
    access.remove path t =
      match t.remove (.ofString path) with
      | .ok u => (.ok (), u)
      | .error e => (.error e, t) := rfl

end Tree

end Harvest.Files
