import Harvest.Number.Binary
import Harvest.Number.Shortest

/-!
# Numbers of JSON texts

A number of a JSON text is an integer if it is written without fraction and exponent and fits 64
bits, and else a double-precision number. The latter is made from at most 64 significant bits and a
power of ten: the digits that no longer fit are dropped, and the two parts are rounded one after
the other.

## Main definitions

* `Json.NumberText` — a number as it is written, with `Json.NumberText.ofChars?`
* `Json.Number` — the value of a number
* `Json.NumberText.value?` — the value, unless it is too large
* `Json.Number.write` — the text of a number
-/

namespace Harvest.Json

/-- The value of an ASCII digit. -/
def digitValue (c : Char) : Nat := c.toNat - '0'.toNat

/-- A number as it is written. -/
structure NumberText where
  /-- Whether a minus sign stands in front. -/
  negative : Bool
  /-- The digits before the point. -/
  whole : List Nat
  /-- The digits after the point; none if there is no point. -/
  fraction : List Nat
  /-- Whether there is a minus sign in the exponent, and its digits, if there is an exponent. -/
  exponent : Option (Bool × List Nat)
  deriving DecidableEq

/-- The exponent at the end of a number, if the text is one. -/
def exponentOf? : List Char → Option (Option (Bool × List Nat))
  | [] => some none
  | 'e' :: rest | 'E' :: rest =>
    let (negative, digits) :=
      match rest with
      | '-' :: r => (true, r)
      | '+' :: r => (false, r)
      | r => (false, r)
    if !digits.isEmpty && digits.all Char.isDigit then
      some (some (negative, digits.map digitValue))
    else none
  | _ => none

/-- A number after its sign. -/
def NumberText.unsigned? (negative : Bool) (s : List Char) : Option NumberText := do
  let whole := s.takeWhile Char.isDigit
  let rest := s.dropWhile Char.isDigit
  guard (!whole.isEmpty && (whole.length == 1 || whole.head? != some '0'))
  match rest with
  | '.' :: r =>
    let fraction := r.takeWhile Char.isDigit
    guard (!fraction.isEmpty)
    let exponent ← exponentOf? (r.dropWhile Char.isDigit)
    return ⟨negative, whole.map digitValue, fraction.map digitValue, exponent⟩
  | r =>
    let exponent ← exponentOf? r
    return ⟨negative, whole.map digitValue, [], exponent⟩

/-- A number: an optional minus sign, digits without a leading zero, an optional fraction and an
optional exponent. -/
def NumberText.ofChars? : List Char → Option NumberText
  | '-' :: rest => unsigned? true rest
  | s => unsigned? false s

/-- The value of a number. -/
inductive Number where
  /-- A whole number of at most 64 bits. -/
  | int (n : Int)
  /-- A double-precision number and its sign. -/
  | float (negative : Bool) (magnitude : Binary64)
  deriving DecidableEq, Repr

/-- The largest whole number of 64 bits. -/
def maxWord : Nat := Bits.count 64 - 1

/-- Appends digits to a number as long as it stays within 64 bits. Returns the number and how many
digits were taken. -/
def absorb (n taken : Nat) : List Nat → Nat × Nat
  | [] => (n, taken)
  | d :: rest => if n * 10 + d ≤ maxWord then absorb (n * 10 + d) (taken + 1) rest else (n, taken)

/-- The number written by a list of decimal digits. -/
def ofDigits (digits : List Nat) : Nat := digits.foldl (fun n d => n * 10 + d) 0

/-- The largest exponent that is told apart from larger ones. -/
def maxExponent : Nat := Bits.count 31 - 1

/-- The double-precision number nearest to a power of ten, at most the 308th. -/
def tenTo (n : Nat) : Option Binary64 := Binary64.ofNat? (Nat.pow 10 n)

/-- The product of a number of at most 64 bits and a power of ten, rounded twice. Below the 616th
negative power nothing is left. -/
def scale (n : Nat) (power : Int) : Option Binary64 := do
  let x ← Binary64.ofNat? n
  if x.mantissa = 0 then return Binary64.zero
  else if 308 < power then none
  else if 0 ≤ power then x.mul (← tenTo power.toNat)
  else if -308 ≤ power then x.div (← tenTo (-power).toNat)
  else if -616 ≤ power then
    let y ← x.div (← tenTo 308)
    y.div (← tenTo (-power - 308).toNat)
  else return Binary64.zero

/-- The value of a number, unless it is too large. -/
def NumberText.value? (t : NumberText) : Option Number :=
  let (n, taken) := absorb 0 0 t.whole
  let dropped := t.whole.length - taken
  let (m, places) := absorb n 0 t.fraction
  let power : Int := dropped - places
  match t.exponent with
  | some (down, digits) =>
    let e := ofDigits digits
    if maxExponent < e then
      if m ≠ 0 ∧ !down then none else some (.float t.negative Binary64.zero)
    else (scale m (if down then power - e else power + e)).map (.float t.negative)
  | none =>
    if t.fraction.isEmpty && dropped == 0 then
      if !t.negative then some (.int n)
      else if n = 0 ∨ Bits.count 63 < n then (Binary64.ofNat? n).map (.float true)
      else some (.int (-n))
    else (scale m power).map (.float t.negative)

/-- The text of a number. -/
def Number.write : Number → String
  | int n => toString n
  | float negative x => FloatFormat.json.write negative x

end Harvest.Json
