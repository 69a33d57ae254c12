/-!
# Binary numbers

Whole numbers of so many bits, and the non-negative finite numbers of the 64-bit binary format: a
mantissa below 2^53 times a power of two. The result of an arithmetic operation on the latter is the
exact rational result rounded to the nearest such number, a tie going to the even mantissa; a result
too large for the format has no rounding.

## Main definitions

* `Bits.count` — how many numbers have so many bits
* `Bits.holds`, `Bits.holdsSigned` — whether a number has at most so many bits
* `roundDiv` — a quotient rounded to the nearest natural number, a tie to the even one
* `Binary64` — mantissa and exponent, with numerator and denominator of the value
* `Binary64.round` — the nearest number to a quotient of natural numbers
* `Binary64.mul`, `Binary64.div` — rounded product and quotient
* `Binary64.floor` — the integral part

## Main results

* `Bits.holds_iff`, `Bits.holdsSigned_iff` — the numbers that have at most so many bits
* `roundDiv_le` — rounding does not pass a whole number
-/

namespace Harvest

/-! ### Numbers of so many bits -/

namespace Bits

/-- How many numbers have so many bits. -/
def count (bits : Nat) : Nat := Nat.pow 2 bits

theorem count_pos (bits : Nat) : 0 < count bits := Nat.two_pow_pos bits

theorem count_succ (bits : Nat) : count (bits + 1) = 2 * count bits := by
  simp [count, Nat.pow_succ, Nat.mul_comm]

/-- Whether a number has at most so many bits. -/
def holds (bits n : Nat) : Bool := n < count bits

theorem holds_iff (bits n : Nat) : holds bits n = true ↔ n < count bits := by simp [holds]

/-- Whether a number has at most so many bits, one of them for the sign. -/
def holdsSigned (bits : Nat) (n : Int) : Bool :=
  -(count (bits - 1) : Int) ≤ n && n < (count (bits - 1) : Int)

theorem holdsSigned_iff (bits : Nat) (n : Int) :
    holdsSigned bits n = true ↔ -(count (bits - 1) : Int) ≤ n ∧ n < (count (bits - 1) : Int) := by
  simp [holdsSigned]

end Bits

/-! ### Double precision -/

/-- The natural number nearest to `num / den`; of two that are equally near, the even one. -/
def roundDiv (num den : Nat) : Nat :=
  let q := num / den
  let r := num % den
  if den < 2 * r ∨ (2 * r = den ∧ q % 2 = 1) then q + 1 else q

/-- A quotient that does not exceed a whole number does not exceed it after rounding either. -/
theorem roundDiv_le {num den n : Nat} (h : num ≤ n * den) (hd : 0 < den) :
    roundDiv num den ≤ n := by
  unfold roundDiv
  have hq : num / den ≤ n := Nat.div_le_of_le_mul (by rw [Nat.mul_comm]; exact h)
  rcases Nat.lt_or_eq_of_le hq with hlt | heq
  · dsimp only
    split <;> omega
  · have hr : num % den = 0 := by
      have := Nat.div_add_mod num den
      rw [heq] at this
      have hle : den * n + num % den ≤ n * den := by omega
      rw [Nat.mul_comm n den] at hle
      omega
    have hno : ¬(den < 2 * (num % den) ∨ 2 * (num % den) = den ∧ num / den % 2 = 1) := by
      rw [hr]
      omega
    dsimp only
    rw [if_neg hno]
    exact hq

/-- A non-negative finite double-precision number, `mantissa * 2 ^ exponent`. -/
structure Binary64 where
  /-- The significant bits, below 2^53. -/
  mantissa : Nat
  /-- The power of two that the mantissa is multiplied by. -/
  exponent : Int
  deriving DecidableEq, Repr

namespace Binary64

/-- The smallest exponent of the format. -/
def minExponent : Int := -1074

/-- The largest exponent of the format. -/
def maxExponent : Int := 971

/-- The number zero. -/
def zero : Binary64 := ⟨0, minExponent⟩

/-- The numerator of the value. -/
def num (x : Binary64) : Nat := x.mantissa * Nat.pow 2 x.exponent.toNat

/-- The denominator of the value. -/
def den (x : Binary64) : Nat := Nat.pow 2 (-x.exponent).toNat

/-- A quotient in units of `2 ^ e`, rounded. -/
def roundAt (e : Int) (num den : Nat) : Nat :=
  roundDiv (num * Nat.pow 2 (-e).toNat) (den * Nat.pow 2 e.toNat)

/-- The exponent at which the quotient of two positive numbers has 53 significant bits, raised to
the smallest exponent of the format if it lies below. -/
def exponentFor (num den : Nat) : Int :=
  let e : Int := (num.log2 : Int) - (den.log2 : Int) - 53
  let e :=
    if Nat.pow 2 53 * (den * Nat.pow 2 e.toNat) ≤ num * Nat.pow 2 (-e).toNat then e + 1 else e
  max e minExponent

/-- The number nearest to `num / den`, if the format has one as large. -/
def round (num den : Nat) : Option Binary64 :=
  if num = 0 then some zero
  else
    let e := exponentFor num den
    let m := roundAt e num den
    let x : Binary64 := if m = Nat.pow 2 53 then ⟨Nat.pow 2 52, e + 1⟩ else ⟨m, e⟩
    if x.exponent ≤ maxExponent then some x else none

/-- The number nearest to a natural number. -/
def ofNat? (n : Nat) : Option Binary64 := round n 1

/-- The rounded product. -/
def mul (x y : Binary64) : Option Binary64 := round (x.num * y.num) (x.den * y.den)

/-- The rounded quotient by a number other than zero. -/
def div (x y : Binary64) : Option Binary64 := round (x.num * y.den) (x.den * y.num)

/-- The integral part. -/
def floor (x : Binary64) : Nat := x.num / x.den

theorem den_pos (x : Binary64) : 0 < x.den := Nat.two_pow_pos _

end Binary64

end Harvest
