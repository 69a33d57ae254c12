/-!
# Blanks, strings and keys of TOML texts

Strings are read by a machine that takes one character at a time. A string over several lines ends
with three quotes, and up to two more quotes right before them belong to the string.

## Main definitions

* `Toml.skipBlanks`, `Toml.skipComment`, `Toml.newline?`, `Toml.skipLines` — what stands between
  other things
* `Toml.BasicState`, `Toml.basic?` — strings with escapes
* `Toml.literal?` — strings without escapes
* `Toml.string?` — strings of all four kinds
* `Toml.path?` — keys with points
-/

namespace Harvest.Toml

/-! ### Between other things -/

/-- Whether a character separates without ending a line. -/
def isBlank (c : Char) : Bool := c == ' ' || c == '\t'

/-- Whether a character may stand in comments and, as itself, in strings. -/
def isPlain (c : Char) : Bool := c == '\t' || (0x20 ≤ c.toNat && c.toNat != 0x7f)

/-- The text after blanks. -/
def skipBlanks (s : List Char) : List Char := s.dropWhile isBlank

/-- The text after a comment, if there is one. -/
def skipComment : List Char → List Char
  | '#' :: s => s.dropWhile isPlain
  | s => s

/-- The text after the end of a line. -/
def newline? : List Char → Option (List Char)
  | '\n' :: s => some s
  | '\r' :: '\n' :: s => some s
  | _ => none

/-- The text after at most so many lines that contain only blanks and comments. -/
def skipLinesUpTo : Nat → List Char → List Char
  | 0, s => skipBlanks s
  | n + 1, s =>
    let s := skipBlanks s
    match newline? (skipComment s) with
    | some s => skipLinesUpTo n s
    | none => s

/-- The text after all lines that contain only blanks and comments. -/
def skipLines (s : List Char) : List Char := skipLinesUpTo s.length s

/-! ### Strings with escapes -/

/-- Where a machine stands that reads a string with escapes. -/
inductive BasicState where
  /-- Among the characters of the string. -/
  | text
  /-- Behind so many quotes in a row. -/
  | quotes (n : Nat)
  /-- Behind a carriage return. -/
  | carriage
  /-- Behind a backslash. -/
  | escape
  /-- In a code point, so many digits before its end. -/
  | hex (left value : Nat)
  /-- Behind a backslash at the end of a line; whether the line has ended. -/
  | trim (ended : Bool)
  /-- The same, behind a carriage return. -/
  | trimCarriage

/-- The value of a hexadecimal digit. -/
def hexValue? (c : Char) : Option Nat :=
  if c.isDigit then some (c.toNat - '0'.toNat)
  else if 'a' ≤ c ∧ c ≤ 'f' then some (c.toNat - 'a'.toNat + 10)
  else if 'A' ≤ c ∧ c ≤ 'F' then some (c.toNat - 'A'.toNat + 10)
  else none

namespace BasicState

/-- A character of the string itself: what it adds, and where the machine stands then. Only strings
over several lines (`multi`) contain ends of lines. -/
def ofText (multi : Bool) (c : Char) : Option (List Char × BasicState) :=
  if c == '\\' then some ([], escape)
  else if c == '\n' then if multi then some ([c], text) else none
  else if c == '\r' then if multi then some ([], carriage) else none
  else if isPlain c then some ([c], text)
  else none

/-- A character behind a backslash. -/
def ofEscape (multi : Bool) (c : Char) : Option (List Char × BasicState) :=
  match c with
  | 'b' => some (['\x08'], text)
  | 't' => some (['\t'], text)
  | 'n' => some (['\n'], text)
  | 'f' => some (['\x0c'], text)
  | 'r' => some (['\r'], text)
  | '"' => some (['"'], text)
  | '\\' => some (['\\'], text)
  | 'u' => some ([], hex 4 0)
  | 'U' => some ([], hex 8 0)
  | ' ' | '\t' => if multi then some ([], trim false) else none
  | '\n' => if multi then some ([], trim true) else none
  | '\r' => if multi then some ([], trimCarriage) else none
  | _ => none

/-- A digit of a code point. -/
def ofHex (left value : Nat) (c : Char) : Option (List Char × BasicState) := do
  let v := value * 16 + (← hexValue? c)
  if left ≤ 1 then
    if v.isValidChar then return ([Char.ofNat v], text) else none
  else return ([], hex (left - 1) v)

/-- One character that is not a quote: what it adds, and where the machine stands then. -/
def step (multi : Bool) (c : Char) : BasicState → Option (List Char × BasicState)
  | text => ofText multi c
  | quotes n => (ofText multi c).map fun (out, st) => (List.replicate n '"' ++ out, st)
  | carriage => if c == '\n' then some (['\n'], text) else none
  | escape => ofEscape multi c
  | hex left value => ofHex left value c
  | trim ended =>
    if isBlank c then some ([], trim ended)
    else if c == '\n' then some ([], trim true)
    else if c == '\r' then some ([], trimCarriage)
    else if ended then ofText multi c
    else none
  | trimCarriage => if c == '\n' then some ([], trim true) else none

/-- How many quotes in a row the machine stands behind, if it is among characters of the string. -/
def run? : BasicState → Option Nat
  | text | trim true => some 0
  | quotes n => some n
  | _ => none

end BasicState

/-- The string whose characters so far are `found`, the last one first, and the text after it. -/
def basicFrom (multi : Bool) :
    BasicState → List Char → List Char → Option (String × List Char)
  | st, found, [] =>
    match st with
    | .quotes n =>
      if 3 ≤ n then some (String.ofList (List.replicate (n - 3) '"' ++ found).reverse, []) else none
    | _ => none
  | .escape, found, '"' :: s => basicFrom multi .text ('"' :: found) s
  | st, found, '"' :: s => do
    let n ← st.run?
    if !multi then return (String.ofList found.reverse, s)
    else if n = 4 then return (String.ofList ('"' :: '"' :: found).reverse, s)
    else basicFrom multi (.quotes (n + 1)) found s
  | st, found, c :: s =>
    match st with
    | .quotes n =>
      if 3 ≤ n then
        some (String.ofList (List.replicate (n - 3) '"' ++ found).reverse, c :: s)
      else do
        let (out, st) ← BasicState.step multi c (.quotes n)
        basicFrom multi st (out.reverse ++ found) s
    | st => do
      let (out, st) ← st.step multi c
      basicFrom multi st (out.reverse ++ found) s

/-- A text without the end of a line at its beginning. -/
def afterNewline (s : List Char) : List Char := (newline? s).getD s

/-- The string after its first quote or its first three quotes. -/
def basic? (multi : Bool) (s : List Char) : Option (String × List Char) :=
  basicFrom multi .text [] (if multi then afterNewline s else s)

/-! ### Strings without escapes -/

/-- The string without escapes whose characters so far are `found`, behind so many apostrophes. -/
def literalFrom (multi : Bool) : Nat → List Char → List Char → Option (String × List Char)
  | n, found, [] =>
    if 3 ≤ n then some (String.ofList (List.replicate (n - 3) '\'' ++ found).reverse, []) else none
  | n, found, '\'' :: s =>
    if !multi then some (String.ofList found.reverse, s)
    else if n = 4 then some (String.ofList ('\'' :: '\'' :: found).reverse, s)
    else literalFrom multi (n + 1) found s
  | n, found, c :: s =>
    if 3 ≤ n then
      some (String.ofList (List.replicate (n - 3) '\'' ++ found).reverse, c :: s)
    else
      let found := List.replicate n '\'' ++ found
      if isPlain c || (multi && c == '\n') then literalFrom multi 0 (c :: found) s
      else if multi && c == '\r' && s.head? == some '\n' then literalFrom multi 0 found s
      else none

/-- The string without escapes after its first apostrophe or its first three. -/
def literal? (multi : Bool) (s : List Char) : Option (String × List Char) :=
  literalFrom multi 0 [] (if multi then afterNewline s else s)

/-- A string of any kind. -/
def string? : List Char → Option (String × List Char)
  | '"' :: '"' :: '"' :: s => basic? true s
  | '"' :: s => basic? false s
  | '\'' :: '\'' :: '\'' :: s => literal? true s
  | '\'' :: s => literal? false s
  | _ => none

/-! ### Keys -/

/-- Whether a character may stand in a key without quotes. -/
def isBare (c : Char) : Bool := c.isAlphanum || c == '_' || c == '-'

/-- A key without points outside quotes. -/
def key? : List Char → Option (String × List Char)
  | '"' :: s => basic? false s
  | '\'' :: s => literal? false s
  | s =>
    let k := s.takeWhile isBare
    if k.isEmpty then none else some (String.ofList k, s.dropWhile isBare)

/-- A key of at most so many parts, with points between them and blanks around them. -/
def pathUpTo? : Nat → List Char → Option (List String × List Char)
  | 0, _ => none
  | n + 1, s => do
    let (k, s) ← key? (skipBlanks s)
    match skipBlanks s with
    | '.' :: s => do
      let (ks, s) ← pathUpTo? n s
      return (k :: ks, s)
    | s => return ([k], s)

/-- How deep tables and arrays may be nested. -/
def maxDepth : Nat := 79

/-- A key with points between its parts and blanks around them. -/
def path? (s : List Char) : Option (List String × List Char) := pathUpTo? maxDepth s

end Harvest.Toml
