import Harvest.Number.Binary

/-!
# Shortest decimals

Every double-precision number is the nearest one to all reals of an interval around it. It is
written with the decimal of that interval that has the fewest digits, and of several such decimals
with the one nearest to the number. The interval includes its ends exactly when the mantissa is
even.

## Main definitions

* `Decimal` — digits and a power of ten
* `Binary64.readsBack` — whether a decimal rounds to a number
* `Binary64.shortest` — the shortest decimal that reads back
* `FloatFormat` — where positional notation ends and how an exponent is written
* `FloatFormat.write` — the text of a number
-/

namespace Harvest

/-- The number `digits * 10 ^ power`. -/
structure Decimal where
  /-- The significant digits as a number. -/
  digits : Nat
  /-- The power of ten they are multiplied by. -/
  power : Int
  deriving DecidableEq, Repr

namespace Binary64

/-- The lower end of the interval of reals that round to `x`, in quarters of the last bit. -/
def lowerQuarters (x : Binary64) : Nat :=
  if x.mantissa = Nat.pow 2 52 ∧ minExponent < x.exponent then 4 * x.mantissa - 1
  else 4 * x.mantissa - 2

/-- The upper end of the interval of reals that round to `x`, in quarters of the last bit. -/
def upperQuarters (x : Binary64) : Nat := 4 * x.mantissa + 2

/-- Whether `n * 10 ^ p` lies among the reals that round to `x`. -/
def readsBack (x : Binary64) (n : Nat) (p : Int) : Bool :=
  let scaled := 4 * n * Nat.pow 10 p.toNat * Nat.pow 2 (-x.exponent).toNat
  let unit := Nat.pow 10 (-p).toNat * Nat.pow 2 x.exponent.toNat
  let low := x.lowerQuarters * unit
  let high := x.upperQuarters * unit
  if x.mantissa % 2 = 0 then low ≤ scaled && scaled ≤ high else low < scaled && scaled < high

/-- The multiple of `10 ^ p` that reads back as `x` and is nearest to it, if there is one. -/
def onGrid (x : Binary64) (p : Int) : Option Decimal :=
  let top := x.num * Nat.pow 10 (-p).toNat
  let bottom := x.den * Nat.pow 10 p.toNat
  let below := top / bottom
  let rest := top % bottom
  let nearBelow := 2 * rest < bottom || (2 * rest == bottom && below % 2 == 0)
  let first := if nearBelow then below else below + 1
  let second := if nearBelow then below + 1 else below
  if x.readsBack first p then some ⟨first, p⟩
  else if x.readsBack second p then some ⟨second, p⟩
  else none

/-- The shortest decimal that reads back as a number other than zero: that of the coarsest grid
that has one. -/
def shortest (x : Binary64) : Decimal :=
  ((List.range 634).findSome? fun (i : Nat) => x.onGrid (309 - (i : Int))).getD ⟨0, 0⟩

end Binary64

/-- How a text of a double-precision number looks. -/
structure FloatFormat where
  /-- Numbers with at least this many zeros after the point take an exponent. -/
  smallFrom : Nat
  /-- Numbers with more digits before the point than this take an exponent. -/
  largeAbove : Nat
  /-- What a whole number ends with in positional notation. -/
  wholeEnd : String
  /-- The sign of a positive exponent. -/
  plus : String

namespace FloatFormat

/-- Numbers inside JSON: an exponent below 1e-5 and from 1e16, with a sign, and whole numbers with
one zero after the point. -/
def json : FloatFormat := ⟨5, 16, ".0", "+"⟩

/-- A decimal in positional notation. -/
def positional (f : FloatFormat) (digits : List Char) (power : Int) : String :=
  let point : Int := digits.length + power
  if 0 ≤ power then
    String.ofList (digits ++ List.replicate power.toNat '0') ++ f.wholeEnd
  else if 0 < point then
    String.ofList (digits.take point.toNat) ++ "." ++ String.ofList (digits.drop point.toNat)
  else "0." ++ String.ofList (List.replicate (-point).toNat '0' ++ digits)

/-- A decimal with an exponent. -/
def scientific (f : FloatFormat) (digits : List Char) (power : Int) : String :=
  let exponent : Int := digits.length + power - 1
  let fraction := if digits.length ≤ 1 then "" else "." ++ String.ofList (digits.drop 1)
  let sign := if exponent < 0 then "-" else f.plus
  String.ofList (digits.take 1) ++ fraction ++ "e" ++ sign ++ toString exponent.natAbs

/-- The text of a number, with a minus sign in front if `negative`. -/
def write (f : FloatFormat) (negative : Bool) (x : Binary64) : String :=
  let sign := if negative then "-" else ""
  if x.mantissa = 0 then sign ++ "0" ++ f.wholeEnd
  else
    let d := x.shortest
    let digits := (toString d.digits).toList
    let point : Int := digits.length + d.power
    if -(f.smallFrom : Int) < point ∧ point ≤ f.largeAbove then
      sign ++ f.positional digits d.power
    else sign ++ f.scientific digits d.power

end FloatFormat

end Harvest
