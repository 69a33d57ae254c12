import Harvest.Toml.Scalar

/-!
# TOML documents

A document is a sequence of lines that build up a tree of tables. Every table is either spelled out
under a header or inside braces, or it comes about by being part of a longer header or key. What may
be added to a table later depends on how it came about.

## Main definitions

* `Toml.Node` — a tree under construction
* `Toml.Members.setAt?`, `Toml.Members.openTable?`, `Toml.Members.openItem?` — what lines do
* `Toml.value?` — a value within a line
* `Toml.parse?` — the value of a document
-/

namespace Harvest.Toml

/-- How a table came about. -/
inductive Origin where
  /-- It has a header of its own. -/
  | header
  /-- It is part of a longer header. -/
  | longerHeader
  /-- It is part of a key with points. -/
  | key
  deriving DecidableEq, Repr

/-- A tree under construction. -/
inductive Node where
  /-- A value that is complete. -/
  | value (v : Value)
  /-- A table. -/
  | table (origin : Origin) (members : List (String × Node))
  /-- A list of tables with headers of their own. -/
  | items (tables : List (List (String × Node)))

/-- The members of a table. -/
abbrev Members := List (String × Node)

mutual

/-- The value that a tree stands for. -/
def Node.toValue : Node → Value
  | .value v => v
  | .table _ members => .table (memberValues members)
  | .items tables => .array (tableValues tables)

/-- The values of members. -/
def memberValues : Members → List (String × Value)
  | [] => []
  | m :: ms => memberValue m :: memberValues ms

/-- The value of a member. -/
def memberValue : String × Node → String × Value
  | (k, n) => (k, n.toValue)

/-- The values of a list of tables. -/
def tableValues : List Members → List Value
  | [] => []
  | t :: ts => .table (memberValues t) :: tableValues ts

end

namespace Members

/-- The members with another tree under a key that is there. -/
def replace (ms : Members) (k : String) (n : Node) : Members :=
  ms.map fun m => if m.1 == k then (k, n) else m

/-- Adds a member, unless its key is there. -/
def add? (k : String) (n : Node) (ms : Members) : Option Members :=
  if (ms.lookup k).isSome then none else some (ms ++ [(k, n)])

/-- Changes the table that a header names, creating what is missing on the way. Of a list of tables
the last one is meant. -/
def atHeader? (change : Members → Option Members) : List String → Members → Option Members
  | [], ms => change ms
  | k :: path, ms =>
    match ms.lookup k with
    | none => (atHeader? change path []).map fun t => ms ++ [(k, .table .longerHeader t)]
    | some (.table origin t) =>
      (atHeader? change path t).map fun t => ms.replace k (.table origin t)
    | some (.items ts) => do
      let t ← atHeader? change path (← ts.getLast?)
      return ms.replace k (.items (ts.dropLast ++ [t]))
    | some (.value _) => none

/-- Changes the table that a key with points names, creating what is missing on the way. That table
has to have come about in the same way, and no table on the way may have a header of its own. -/
def atKey? (change : Members → Option Members) : List String → Members → Option Members
  | [], ms => change ms
  | k :: path, ms =>
    match ms.lookup k with
    | none => (atKey? change path []).map fun t => ms ++ [(k, .table .key t)]
    | some (.table origin t) =>
      if origin = .header ∨ (path.isEmpty ∧ origin ≠ .key) then none
      else (atKey? change path t).map fun t => ms.replace k (.table origin t)
    | some (.items ts) =>
      if path.isEmpty then none
      else do
        let t ← atKey? change path (← ts.getLast?)
        return ms.replace k (.items (ts.dropLast ++ [t]))
    | some (.value _) => none

/-- Gives a value to a key with points. -/
def setAt? (path : List String) (v : Value) (ms : Members) : Option Members := do
  let last ← path.getLast?
  atKey? (add? last (.value v)) path.dropLast ms

/-- Begins the table of a header. -/
def openTable? (path : List String) (ms : Members) : Option Members := do
  let last ← path.getLast?
  let begin (ms : Members) : Option Members :=
    match ms.lookup last with
    | none => some (ms ++ [(last, .table .header [])])
    | some (.table .longerHeader t) => some (ms.replace last (.table .header t))
    | some _ => none
  atHeader? begin path.dropLast ms

/-- Begins one more table in the list of a header. -/
def openItem? (path : List String) (ms : Members) : Option Members := do
  let last ← path.getLast?
  let begin (ms : Members) : Option Members :=
    match ms.lookup last with
    | none => some (ms ++ [(last, .items [[]])])
    | some (.items ts) => some (ms.replace last (.items (ts ++ [[]])))
    | some _ => none
  atHeader? begin path.dropLast ms

end Members

/-! ### Values -/

mutual

/-- A value that is nested at most `depth` deep; the first argument bounds the steps. -/
def valueUpTo? : Nat → Nat → List Char → Option (Value × List Char)
  | 0, _, _ => none
  | n + 1, depth, s =>
    match s with
    | '[' :: s =>
      if depth = 0 then none
      else (itemsUpTo? n (depth - 1) s).map fun (vs, s) => (.array vs, s)
    | '{' :: s =>
      if depth = 0 then none
      else
        match skipBlanks s with
        | '}' :: s => some (.table [], s)
        | s => (membersUpTo? n (depth - 1) [] s).map fun (ms, s) => (.table (memberValues ms), s)
    | '"' :: _ | '\'' :: _ => (string? s).map fun (t, s) => (.string t, s)
    | s => scalar? s

/-- The items of an array up to its end. -/
def itemsUpTo? : Nat → Nat → List Char → Option (List Value × List Char)
  | 0, _, _ => none
  | n + 1, depth, s =>
    match skipLines s with
    | ']' :: s => some ([], s)
    | s => do
      let (v, s) ← valueUpTo? n depth s
      match skipLines s with
      | ',' :: s => do
        let (vs, s) ← itemsUpTo? n depth s
        return (v :: vs, s)
      | ']' :: s => return ([v], s)
      | _ => none

/-- The members of a table in braces up to its end. -/
def membersUpTo? : Nat → Nat → Members → List Char → Option (Members × List Char)
  | 0, _, _, _ => none
  | n + 1, depth, ms, s => do
    let (path, s) ← path? s
    let s ← Date.skip? '=' s
    let (v, s) ← valueUpTo? n depth (skipBlanks s)
    let ms ← ms.setAt? path v
    match skipBlanks s with
    | ',' :: s => membersUpTo? n depth ms s
    | '}' :: s => return (ms, s)
    | _ => none

end

/-- A value. -/
def value? (s : List Char) : Option (Value × List Char) := valueUpTo? (2 * s.length + 2) maxDepth s

/-! ### Lines -/

/-- A document as far as it has been read: its tables, and the header of the current one. -/
structure Draft where
  tables : Members := []
  header : List String := []

/-- The text after a closing bracket. -/
def close? (brackets : List Char) (s : List Char) : Option (List Char) :=
  if brackets.isPrefixOf s then some (s.drop brackets.length) else none

/-- One line that is not empty, up to a comment or its end. -/
def line? (d : Draft) : List Char → Option (Draft × List Char)
  | '[' :: '[' :: s => do
    let (path, s) ← path? s
    let s ← close? [']', ']'] s
    return (⟨← d.tables.openItem? path, path⟩, s)
  | '[' :: s => do
    let (path, s) ← path? s
    let s ← close? [']'] s
    return (⟨← d.tables.openTable? path, path⟩, s)
  | s => do
    let (path, s) ← path? s
    let s ← Date.skip? '=' s
    let (v, s) ← value? (skipBlanks s)
    return ({ d with tables := ← d.tables.atHeader? (Members.setAt? path v) d.header }, s)

/-- At most so many lines. -/
def linesUpTo? : Nat → Draft → List Char → Option Draft
  | 0, _, _ => none
  | n + 1, d, s =>
    match skipLines s with
    | [] => some d
    | '#' :: s => if (s.dropWhile isPlain).isEmpty then some d else none
    | s => do
      let (d, s) ← line? d s
      match skipComment (skipBlanks s) with
      | [] => return d
      | s => linesUpTo? n d (← newline? s)

/-- The value of a document. -/
def parse? (text : String) : Option Value :=
  let s := match text.toList with
    | '\ufeff' :: s => s
    | s => s
  (linesUpTo? (s.length + 1) {} s).map fun d => .table (memberValues d.tables)

end Harvest.Toml
