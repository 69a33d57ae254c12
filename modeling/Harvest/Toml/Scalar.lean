import Harvest.Date
import Harvest.Number.Binary
import Harvest.Toml.Text

/-!
# TOML values

The values of a document, and how those are read that are neither strings nor made of other values:
numbers, truth values and times.

## Main definitions

* `Toml.Value` — a value of a TOML document
* `Toml.Value.field?` — a member of a table
* `Toml.integer?` — whole numbers in four bases
* `Toml.isFloat` — numbers with a fraction or an exponent
* `Toml.isTime` — dates and times of day
* `Toml.scalar?` — a value that is neither a string nor made of other values
-/

namespace Harvest.Toml

/-- A value of a TOML document. Numbers with a fraction and times are kept as they are written. -/
inductive Value where
  | string (s : String)
  | integer (n : Int)
  | float (written : String)
  | boolean (b : Bool)
  | time (written : String)
  | array (items : List Value)
  | table (members : List (String × Value))

/-- A member of a table. -/
def Value.field? (v : Value) (key : String) : Option Value :=
  match v with
  | table members => members.lookup key
  | _ => none

/-! ### Numbers, truth values and times -/

/-- The digits of a number, where single low lines may stand between digits. -/
def digitsOf? (isDigit : Char → Bool) : List Char → Option (List Char)
  | [] => none
  | [c] => if isDigit c then some [c] else none
  | c :: '_' :: rest => if isDigit c then (digitsOf? isDigit rest).map (c :: ·) else none
  | c :: rest => if isDigit c then (digitsOf? isDigit rest).map (c :: ·) else none

/-- The number with certain digits. -/
def ofDigits (base : Nat) (ds : List Char) : Nat :=
  ds.foldl (fun n c => n * base + (hexValue? c).getD 0) 0

/-- The digits of a decimal number without superfluous zeros in front. -/
def decimalDigits? (s : List Char) : Option (List Char) :=
  match digitsOf? Char.isDigit s with
  | some ('0' :: _ :: _) => none
  | ds => ds

/-- A sign and the text after it. -/
def sign (s : List Char) : Bool × List Char :=
  match s with
  | '-' :: s => (true, s)
  | '+' :: s => (false, s)
  | s => (false, s)

/-- The whole number that a text stands for, if it has 64 bits. -/
def integer? (s : List Char) : Option Int :=
  let n? : Option Int :=
    match s with
    | '0' :: 'x' :: ds => (digitsOf? (fun c => (hexValue? c).isSome) ds).map fun ds => ofDigits 16 ds
    | '0' :: 'o' :: ds => (digitsOf? (fun c => '0' ≤ c && c ≤ '7') ds).map fun ds => ofDigits 8 ds
    | '0' :: 'b' :: ds => (digitsOf? (fun c => c == '0' || c == '1') ds).map fun ds => ofDigits 2 ds
    | s =>
      let (negative, ds) := sign s
      (decimalDigits? ds).map fun ds =>
        if negative then -(ofDigits 10 ds : Int) else (ofDigits 10 ds : Int)
  n?.filter (Bits.holdsSigned 64)

/-- The smallest number that is too large for double precision: all larger ones round up to it. -/
def floatBound : Nat := Bits.count 1024 - Bits.count 970

/-- Whether digits with a power of ten make a number that is too large for double precision. -/
def isTooLarge (digits : List Char) (exponent : Int) : Bool :=
  let digits := digits.dropWhile (· == '0')
  let top : Int := digits.length + exponent
  if digits.isEmpty || top < 300 then false
  else if 320 < top then true
  else
    let n := ofDigits 10 digits
    if 0 ≤ exponent then floatBound ≤ n * Nat.pow 10 exponent.toNat
    else floatBound * Nat.pow 10 (-exponent).toNat ≤ n

/-- The exponent at the end of a number; zero if there is none. -/
def exponent? : List Char → Option Int
  | [] => some 0
  | e :: s => do
    guard (e == 'e' || e == 'E')
    let (negative, ds) := sign s
    let n := ofDigits 10 (← digitsOf? Char.isDigit ds)
    return if negative then -(n : Int) else n

/-- Whether a text is a number with a fraction or an exponent. -/
def isFloat (s : List Char) : Bool :=
  let (negative, s) := sign s
  if s == ['i', 'n', 'f'] || s == ['n', 'a', 'n'] then true
  else
    let isPart (c : Char) : Bool := c.isDigit || c == '_'
    let whole := s.takeWhile isPart
    let rest := s.dropWhile isPart
    let fraction? : Option (List Char × List Char) :=
      match rest with
      | '.' :: r => (digitsOf? Char.isDigit (r.takeWhile isPart)).map fun ds => (ds, r.dropWhile isPart)
      | r => if r.isEmpty then none else some ([], r)
    match decimalDigits? whole, fraction? with
    | some ds, some (fs, r) =>
      match exponent? r with
      | some e => negative || !isTooLarge (ds ++ fs) (e - fs.length)
      | none => false
    | _, _ => false

/-- The text after a time of day. -/
def clock? (s : List Char) : Option (List Char) := do
  let (hour, s) ← Date.digits? 2 0 s
  let s ← Date.skip? ':' s
  let (minute, s) ← Date.digits? 2 0 s
  let s ← Date.skip? ':' s
  let (second, s) ← Date.digits? 2 0 s
  guard (hour < 24 && minute < 60 && second ≤ 60)
  match s with
  | '.' :: r => (Date.fraction? r).map (·.2)
  | r => some r

/-- The text after a date. -/
def date? (s : List Char) : Option (List Char) := do
  let (year, s) ← Date.digits? 4 0 s
  let s ← Date.skip? '-' s
  let (month, s) ← Date.digits? 2 0 s
  let s ← Date.skip? '-' s
  let (day, s) ← Date.digits? 2 0 s
  guard (1 ≤ month && month ≤ 12 && 1 ≤ day && day ≤ Date.daysOfMonth year month)
  return s

/-- Whether a text is an offset in hours and minutes, or nothing. -/
def isOffset : List Char → Bool
  | [] | ['Z'] | ['z'] => true
  | [sign, a, b, ':', c, d] =>
    (sign == '+' || sign == '-') && (Date.offset? ['+', a, b, ':', c, d]).isSome
  | _ => false

/-- Whether a text is a date, a time of day, or both. -/
def isTime (s : List Char) : Bool :=
  match date? s with
  | some [] => true
  | some (t :: s) => (t == 'T' || t == 't' || t == ' ') && (clock? s).any isOffset
  | none => clock? s == some []

/-- Whether a character belongs to a value that is neither a string nor made of other values. -/
def isScalarPart (c : Char) : Bool :=
  c.isAlphanum || c == '_' || c == '+' || c == '-' || c == '.' || c == ':'

/-- The text of such a value, and the text after it. A date and a time of day may have a space
between them. -/
def scalarText (s : List Char) : List Char × List Char :=
  let first := s.takeWhile isScalarPart
  let rest := s.dropWhile isScalarPart
  match rest with
  | ' ' :: c :: r =>
    if c.isDigit && date? first == some [] then
      (first ++ ' ' :: (c :: r).takeWhile isScalarPart, (c :: r).dropWhile isScalarPart)
    else (first, rest)
  | _ => (first, rest)

/-- A value that is neither a string nor made of other values. -/
def scalar? (s : List Char) : Option (Value × List Char) :=
  let (t, rest) := scalarText s
  if t == ['t', 'r', 'u', 'e'] then some (.boolean true, rest)
  else if t == ['f', 'a', 'l', 's', 'e'] then some (.boolean false, rest)
  else if isTime t then some (.time (String.ofList t), rest)
  else
    match integer? t with
    | some n => some (.integer n, rest)
    | none => if isFloat t then some (.float (String.ofList t), rest) else none

end Harvest.Toml
