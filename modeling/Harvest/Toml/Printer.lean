import Harvest.Toml.Text

/-!
# Writing TOML texts

A string is written in the plainest way that needs no escapes: on one line between quotes, else
between apostrophes, else between three of either. Only if all of these fail, escapes are used.

## Main definitions

* `Toml.quote` — a string
* `Toml.entry`, `Toml.block` — a line with a key, and a table under its header
-/

namespace Harvest.Toml

/-- Whether a character can only be written by an escape. -/
def needsEscape (c : Char) : Bool :=
  c.toNat == 0x7f || (c.toNat < 0x20 && c != '\t' && c != '\n')

/-- The largest number of times that a character occurs in a row. -/
def longestRun (c : Char) (s : List Char) : Nat :=
  (s.foldl (fun (now, best) d => if d == c then (now + 1, max best (now + 1)) else (0, best))
    (0, 0)).2

/-- A code point by four digits. -/
def codePoint (c : Char) : List Char :=
  let ds := (Nat.toDigits 16 c.toNat).map Char.toUpper
  ['\\', 'u'] ++ List.replicate (4 - ds.length) '0' ++ ds

/-- A character between quotes, or between three quotes if the string has several lines (`multi`). -/
def escapeChar (multi : Bool) (c : Char) : List Char :=
  if c.toNat == 8 then ['\\', 'b']
  else if c == '\t' then ['\\', 't']
  else if c == '\n' then if multi then [c] else ['\\', 'n']
  else if c.toNat == 12 then ['\\', 'f']
  else if c == '\r' then ['\\', 'r']
  else if c == '\\' then ['\\', '\\']
  else if needsEscape c then codePoint c
  else [c]

/-- A string with escapes, behind so many quotes in a row, of which at most `free` need no escape. -/
def escapeFrom (multi : Bool) (free : Nat) : Nat → List Char → List Char
  | _, [] => []
  | n, '"' :: s =>
    if free ≤ n then '\\' :: '"' :: escapeFrom multi free 0 s
    else '"' :: escapeFrom multi free (n + 1) s
  | _, c :: s => escapeChar multi c ++ escapeFrom multi free 0 s

/-- A string in the plainest way. -/
def quote (s : String) : String :=
  let cs := s.toList
  let lines := cs.contains '\n'
  let coded := cs.any needsEscape
  let slashed := cs.contains '\\'
  let quotes := longestRun '"' cs
  let apostrophes := longestRun '\'' cs
  let start := if lines then "\n" else ""
  let basic := "\"" ++ String.ofList (escapeFrom false 0 0 cs) ++ "\""
  let basicLines := "\"\"\"" ++ start ++ String.ofList (escapeFrom true 2 0 cs) ++ "\"\"\""
  if !coded && !slashed && quotes == 0 && !lines then basic
  else if !coded && apostrophes == 0 && !lines then "'" ++ s ++ "'"
  else if !coded && !slashed && quotes ≤ 2 then basicLines
  else if !coded && apostrophes ≤ 2 then "'''" ++ start ++ s ++ "'''"
  else if lines then basicLines
  else basic

/-- A line that gives a value to a key. -/
def entry (key value : String) : String := key ++ " = " ++ value ++ "\n"

/-- A table under its header. -/
def block (name : String) (entries : List String) : String :=
  "[" ++ name ++ "]\n" ++ String.join entries

end Harvest.Toml
