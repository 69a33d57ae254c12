import Harvest.Distinct
import Harvest.Json.Value
import Harvest.Number.Binary
import Harvest.Text.Category
import Harvest.Text.LowerCase

/-!
# Entries of snapshots

The list of a snapshot consists of rows, which are judged one by one; rows that are no entries are
left out.

## Main definitions

* `Entry` — one entry of a list
* `Snapshot.entryOfRow?` — the entry of a row
* `Snapshot.entriesOfRows` — the entries among some rows
* `Snapshot.firstOfEachHash` — the entries without repeated hashes

## Main results

* `Snapshot.entriesOfRows_append` — rows are judged one by one
-/

namespace Harvest

/-- One entry of a list. -/
structure Entry where
  /-- The release name. -/
  filename : String
  /-- The hash of the contents. -/
  infoHash : String
  /-- The size in bytes. -/
  size : Nat
  deriving DecidableEq, Repr

namespace Snapshot

/-- The largest size. -/
def maxSize : Nat := Bits.count 63 - 1

/-- A size within its bounds. -/
def clampSize (n : Int) : Nat := min n.toNat maxSize

/-- The whole number of 64 bits that a text stands for: digits with or without a sign. -/
def wholeNumber? (s : List Char) : Option Int :=
  let digits? (r : List Char) : Option Nat :=
    if !r.isEmpty && r.all Char.isDigit then some (Json.ofDigits (r.map Json.digitValue)) else none
  let n? : Option Int :=
    match s with
    | '-' :: r => (digits? r).map fun n => -(n : Int)
    | '+' :: r => (digits? r).map Int.ofNat
    | r => (digits? r).map Int.ofNat
  n?.filter (Bits.holdsSigned 64)

/-- The size given by a JSON value: numbers are cut to whole ones, texts and truth values are read
as numbers, and all else counts as zero. -/
def sizeOfValue : Json.Value → Nat
  | .number (.int n) => clampSize n
  | .number (.float negative x) => if negative then 0 else clampSize x.floor
  | .string s => clampSize ((wholeNumber? (Text.trim s.toList)).getD 0)
  | .bool b => b.toNat
  | _ => 0

/-- The release name given by a JSON value: a text that is not empty, or a number. -/
def filenameOfValue? : Json.Value → Option String
  | .string s => if s.isEmpty then none else some s
  | .number n => some n.write
  | _ => none

/-- Whether a character is a hexadecimal digit in either case. -/
def isHexDigit (c : Char) : Bool :=
  c.isDigit || ('a' ≤ c && c ≤ 'f') || ('A' ≤ c && c ≤ 'F')

/-- The hash given by a JSON value: a text of forty hexadecimal digits, in lower case. -/
def hashOfValue? : Json.Value → Option String
  | .string s =>
    if s.toList.length = 40 ∧ s.toList.all isHexDigit then some (Text.asciiLowerString s) else none
  | _ => none

/-- The entry of a row, if it is one. -/
def entryOfRow? (row : Json.Value) : Option Entry := do
  let filename ← (← row.field? "filename") |> filenameOfValue?
  let infoHash ← (← row.field? "hash") |> hashOfValue?
  let size := ((row.field? "bytes").or (row.field? "size")).map sizeOfValue
  return ⟨filename, infoHash, size.getD 0⟩

/-- The entries among some rows. -/
def entriesOfRows (rows : List Json.Value) : List Entry := rows.filterMap entryOfRow?

/-- Rows are judged one by one. -/
theorem entriesOfRows_append (rows rows' : List Json.Value) :
    entriesOfRows (rows ++ rows') = entriesOfRows rows ++ entriesOfRows rows' :=
  List.filterMap_append

/-- The first entry of every hash, in order. -/
def firstOfEachHash (entries : List Entry) : List Entry := firstOfEach Entry.infoHash entries

end Snapshot

end Harvest
