/-!
# Paths

A path lists the names on the way to a file, from the root if a slash stands in front of them and
from the current folder otherwise. One dot stays where it is, two dots lead back.

## Main definitions

* `Files.Path`, `Files.Path.ofString` — paths
* `Files.Path.names` — the steps that lead somewhere
* `Files.Path.parents` — the paths to the folders around a file
* `Files.join` — a path inside a folder

## Main results

* `Files.Path.length_parents` — there is one folder around a file for every step
-/

namespace Harvest.Files

/-- A path. -/
structure Path where
  /-- Whether the path begins at the root. -/
  isAbsolute : Bool := false
  /-- The names and dots on the way. -/
  steps : List String := []
  /-- Whether a slash stands after the last step. -/
  hasFinalSlash : Bool := false
  deriving DecidableEq, Repr

namespace Path

/-- The path that a text stands for. -/
def ofString (s : String) : Path :=
  let parts := s.toList.splitOnP (· == '/')
  let steps := parts.filter (!·.isEmpty)
  { isAbsolute := s.toList.head? == some '/'
    steps := steps.map String.ofList
    hasFinalSlash := !steps.isEmpty && parts.getLast?.all (·.isEmpty) }

/-- Whether the path leads nowhere at all. -/
def isEmpty (p : Path) : Bool := !p.isAbsolute && p.steps.isEmpty

/-- Whether the last step is a name, so that something can be created there. -/
def endsInName (p : Path) : Bool := p.steps.getLast?.any fun s => s != "." && s != ".."

/-- The steps that lead somewhere; only the first one may be a dot. -/
def names (p : Path) : List String :=
  match p.isAbsolute, p.steps with
  | false, "." :: steps => "." :: steps.filter (· != ".")
  | _, steps => steps.filter (· != ".")

/-- The path along the first steps. -/
def upTo (p : Path) (n : Nat) : Path := { isAbsolute := p.isAbsolute, steps := p.names.take n }

/-- The paths to the folders around a file, from the inside out. -/
def parents (p : Path) : List Path := (List.range p.names.length).reverse.map p.upTo

theorem length_parents (p : Path) : p.parents.length = p.names.length := by simp [parents]

end Path

/-- A path inside a folder. -/
def join (folder path : String) : String :=
  if path.startsWith "/" then path
  else if folder.isEmpty || folder.endsWith "/" then folder ++ path
  else folder ++ "/" ++ path

end Harvest.Files
