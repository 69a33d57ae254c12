import Harvest.Json.Value
import Harvest.Text.Printable

/-!
# Writing JSON texts

Strings are written with short escapes where there are any and with numbered escapes for the other
control characters; everything else stands for itself. A value is written either on one line
without blanks or over several lines with two blanks for every level.

## Main definitions

* `Json.quote` — a string between quotes
* `Json.quoteList` — a list of strings on one line
* `Json.Value.pretty` — a value over several lines
-/

namespace Harvest.Json

/-- A control character by its number, with four digits. -/
def numbered (c : Char) : List Char :=
  let digits := Nat.toDigits 16 c.toNat
  ['\\', 'u'] ++ List.replicate (4 - digits.length) '0' ++ digits

/-- A character inside quotes. -/
def quoteChar (c : Char) : List Char :=
  if c == '"' then ['\\', '"']
  else if c == '\\' then ['\\', '\\']
  else if c == '\n' then ['\\', 'n']
  else if c == '\r' then ['\\', 'r']
  else if c == '\t' then ['\\', 't']
  else if c.toNat == 8 then ['\\', 'b']
  else if c.toNat == 12 then ['\\', 'f']
  else if c.toNat < 0x20 then numbered c
  else [c]

/-- A string between quotes. -/
def quote (s : String) : String := String.ofList ('"' :: s.toList.flatMap quoteChar ++ ['"'])

/-- A list of strings on one line. -/
def quoteList (ss : List String) : String := "[" ++ ",".intercalate (ss.map quote) ++ "]"

/-- Blanks in front of a line at a level. -/
def indent (level : Nat) : String := String.ofList (List.replicate (2 * level) ' ')

/-- The lines of a list between brackets, each with its own text. -/
def block (opening closing : String) (level : Nat) (lines : List String) : String :=
  if lines.isEmpty then opening ++ closing
  else
    opening ++ "\n" ++ ",\n".intercalate (lines.map (indent (level + 1) ++ ·)) ++ "\n" ++
      indent level ++ closing

mutual

/-- A value over several lines, the first of which continues a line at the given level. -/
def Value.prettyAt (level : Nat) : Value → String
  | .null => "null"
  | .bool b => if b then "true" else "false"
  | .number n => n.write
  | .string s => quote s
  | .array items => block "[" "]" level (itemLines (level + 1) items)
  | .object members => block "\x7b" "\x7d" level (memberLines (level + 1) members)

/-- The texts of the items of an array. -/
def Value.itemLines (level : Nat) : List Value → List String
  | [] => []
  | v :: rest => v.prettyAt level :: itemLines level rest

/-- The texts of the members of an object. -/
def Value.memberLines (level : Nat) : List (String × Value) → List String
  | [] => []
  | m :: rest => memberLine level m :: memberLines level rest

/-- The text of one member of an object. -/
def Value.memberLine (level : Nat) : String × Value → String
  | (key, v) => quote key ++ ": " ++ v.prettyAt level

end

/-- A value over several lines. -/
def Value.pretty (v : Value) : String := v.prettyAt 0

end Harvest.Json
