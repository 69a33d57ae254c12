import Harvest.Number.Binary
import Mathlib.Tactic.Ring

/-!
# Rounding and powers of two

A power of two is a double-precision number, so what is at least as large stays so when it is
rounded. So is a whole number that is not too large, and what is not above it stays so.

## Main definitions

* `Binary64.AtLeast` — a number is not below a power of two
* `Binary64.AtMost` — a number is not above a whole number

## Main results

* `le_roundDiv` — rounding does not fall below a whole number
* `Binary64.AtLeast.of_round` — rounding does not fall below a power of two
* `Binary64.AtLeast.of_mul` — the same for products
* `Binary64.exists_round`, `Binary64.exists_mul` — what is not above a whole number can be rounded, and
  rounding does not exceed the whole number
-/

namespace Harvest

/-- A quotient that is not below a whole number is not below it after rounding either. -/
theorem le_roundDiv {num den n : Nat} (h : n * den ≤ num) (hd : 0 < den) :
    n ≤ roundDiv num den := by
  have hq : n ≤ num / den := (Nat.le_div_iff_mul_le hd).mpr h
  unfold roundDiv
  dsimp only
  split_ifs <;> omega

namespace Binary64

variable {x y z : Binary64} {num den k j : Nat}

/-- A number is not below a power of two. -/
def AtLeast (k : Nat) (x : Binary64) : Prop := 2 ^ k * x.den ≤ x.num

theorem AtLeast.le_floor (h : x.AtLeast k) : 2 ^ k ≤ x.floor :=
  (Nat.le_div_iff_mul_le x.den_pos).mpr h

/-- The exponent is so small that the quotient has a mantissa of 52 bits at least. -/
theorem exponentFor_le (num den : Nat) :
    exponentFor num den ≤ max ((num.log2 : Int) - den.log2 - 52) minExponent := by
  unfold exponentFor
  dsimp only
  split_ifs <;> omega

/-- A positive exponent is that of a power of two that is not above the quotient. -/
theorem two_pow_exponentFor_le (hnum : num ≠ 0) (he : 0 < exponentFor num den) :
    2 ^ (exponentFor num den).toNat * den ≤ num := by
  have hle := exponentFor_le num den
  have hlog : (exponentFor num den).toNat + (den.log2 + 1) ≤ num.log2 := by
    unfold minExponent at hle
    omega
  calc 2 ^ (exponentFor num den).toNat * den
      ≤ 2 ^ (exponentFor num den).toNat * 2 ^ (den.log2 + 1) :=
        Nat.mul_le_mul_left _ (Nat.le_of_lt Nat.lt_log2_self)
    _ = 2 ^ ((exponentFor num den).toNat + (den.log2 + 1)) := (Nat.pow_add ..).symm
    _ ≤ 2 ^ num.log2 := Nat.pow_le_pow_right Nat.two_pos hlog
    _ ≤ num := Nat.log2_self_le hnum

/-- A mantissa that has become too long by rounding is halved, which does not change the value. -/
theorem AtLeast.of_mantissa {m : Nat} {e : Int} (h : 2 ^ k * 2 ^ (-e).toNat ≤ m * 2 ^ e.toNat) :
    AtLeast k (if m = Nat.pow 2 53 then ⟨Nat.pow 2 52, e + 1⟩ else ⟨m, e⟩) := by
  split_ifs with hm
  · obtain rfl : m = 2 * 2 ^ 52 := hm
    change 2 ^ k * 2 ^ (-(e + 1)).toNat ≤ 2 ^ 52 * 2 ^ (e + 1).toNat
    rcases Int.lt_or_le e 0 with he | he
    · obtain ⟨b, hb⟩ : ∃ b : Nat, (-e).toNat = b + 1 := ⟨(-(e + 1)).toNat, by omega⟩
      have hexp : (-(e + 1)).toNat = b ∧ (e + 1).toNat = 0 ∧ e.toNat = 0 := by omega
      rw [hexp.1, hexp.2.1]
      rw [hb, hexp.2.2] at h
      refine Nat.le_of_mul_le_mul_left ?_ Nat.two_pos
      calc 2 * (2 ^ k * 2 ^ b) = 2 ^ k * 2 ^ (b + 1) := by ring
        _ ≤ 2 * 2 ^ 52 * 2 ^ 0 := h
        _ = 2 * (2 ^ 52 * 2 ^ 0) := by ring
    · have hexp : (-(e + 1)).toNat = (-e).toNat ∧ (e + 1).toNat = e.toNat + 1 := by omega
      rw [hexp.1, hexp.2]
      calc 2 ^ k * 2 ^ (-e).toNat ≤ 2 * 2 ^ 52 * 2 ^ e.toNat := h
        _ = 2 ^ 52 * 2 ^ (e.toNat + 1) := by ring
  · exact h

/-- A quotient that is not below a power of two is not below it after rounding to a unit that
divides it. -/
theorem two_pow_le_roundAt {e : Int} (hden : 0 < den) (hpow : 2 ^ k * den ≤ num)
    (he : e ≤ k) : 2 ^ k * 2 ^ (-e).toNat ≤ roundAt e num den * 2 ^ e.toNat := by
  -- in units of `2 ^ e`, the power of two is a whole number
  have hunits : 2 ^ k * 2 ^ (-e).toNat = 2 ^ (k - e).toNat * 2 ^ e.toNat := by
    rw [← Nat.pow_add, ← Nat.pow_add]
    congr 1
    omega
  have hround : 2 ^ (k - e).toNat ≤ roundAt e num den := by
    refine le_roundDiv ?_ (Nat.mul_pos hden (Nat.two_pow_pos _))
    calc 2 ^ (k - e).toNat * (den * 2 ^ e.toNat)
        = 2 ^ k * den * 2 ^ (-e).toNat := by rw [Nat.mul_right_comm, hunits]; ring
      _ ≤ num * 2 ^ (-e).toNat := Nat.mul_le_mul_right _ hpow
  rw [hunits]
  exact Nat.mul_le_mul_right _ hround

/-- Rounding does not fall below a power of two. -/
theorem AtLeast.of_round (hround : round num den = some x) (hden : 0 < den)
    (hpow : 2 ^ k * den ≤ num) : x.AtLeast k := by
  have hnum : num ≠ 0 := by
    have := Nat.mul_pos (Nat.two_pow_pos k) hden
    omega
  rw [round, if_neg hnum] at hround
  obtain ⟨-, hx⟩ := Option.ite_none_right_eq_some.mp hround
  obtain rfl := Option.some.inj hx
  refine .of_mantissa ?_
  rcases le_or_gt (exponentFor num den) k with he | he
  · exact two_pow_le_roundAt hden hpow he
  · -- the exponent is positive, so the quotient is at least one unit
    have hunit : 2 ^ (exponentFor num den).toNat * den ≤ num :=
      two_pow_exponentFor_le hnum (by omega)
    have hone := two_pow_le_roundAt (e := exponentFor num den) hden hunit (by omega)
    refine Nat.le_trans ?_ hone
    exact Nat.mul_le_mul_right _ (Nat.pow_le_pow_right Nat.two_pos (by omega))

/-- A product is not below the product of two powers of two. -/
theorem AtLeast.of_mul (hz : x.mul y = some z) (hx : x.AtLeast k) (hy : y.AtLeast j) :
    z.AtLeast (k + j) := by
  refine .of_round hz (Nat.mul_pos x.den_pos y.den_pos) ?_
  calc 2 ^ (k + j) * (x.den * y.den) = (2 ^ k * x.den) * (2 ^ j * y.den) := by ring
    _ ≤ x.num * y.num := Nat.mul_le_mul hx hy

theorem AtLeast.of_ofNat? {n : Nat} (hx : ofNat? n = some x) (hn : 2 ^ k ≤ n) : x.AtLeast k :=
  .of_round hx Nat.one_pos (by rwa [Nat.mul_one])

/-! ### Upper bounds -/

variable {c d : Nat}

/-- A number is not above a whole number. -/
def AtMost (c : Nat) (x : Binary64) : Prop := x.num ≤ c * x.den

/-- A quotient that is not too large is rounded to a unit of one or less. -/
theorem exponentFor_nonpos (hnum : num ≠ 0) (hle : num < 2 ^ 52 * den) :
    exponentFor num den ≤ 0 := by
  have hlog : num.log2 < den.log2 + 53 := by
    rw [Nat.log2_lt hnum]
    calc num < 2 ^ 52 * den := hle
      _ ≤ 2 ^ 52 * 2 ^ (den.log2 + 1) := Nat.mul_le_mul_left _ (Nat.le_of_lt Nat.lt_log2_self)
      _ = 2 ^ (den.log2 + 53) := by ring
  have hexponent := exponentFor_le num den
  unfold minExponent at hexponent
  omega

/-- A mantissa that has become too long by rounding is halved, which does not change the value. -/
theorem AtMost.of_mantissa {m : Nat} {e : Int} (he : e ≤ 0) (hc : c < 2 ^ 52)
    (h : m ≤ c * 2 ^ (-e).toNat) :
    AtMost c (if m = Nat.pow 2 53 then ⟨Nat.pow 2 52, e + 1⟩ else ⟨m, e⟩) := by
  have hzero : e.toNat = 0 := by omega
  split_ifs with hm
  · obtain rfl : m = 2 * 2 ^ 52 := hm
    -- the unit is smaller than one, since the whole number is
    obtain ⟨b, hb⟩ : ∃ b : Nat, (-e).toNat = b + 1 := by
      refine ⟨(-e).toNat - 1, ?_⟩
      by_contra hne
      have hunit : (-e).toNat = 0 := by omega
      rw [hunit] at h
      omega
    have hexp : (-(e + 1)).toNat = b ∧ (e + 1).toNat = 0 := by omega
    change 2 ^ 52 * 2 ^ (e + 1).toNat ≤ c * 2 ^ (-(e + 1)).toNat
    rw [hexp.1, hexp.2]
    rw [hb] at h
    refine Nat.le_of_mul_le_mul_left ?_ Nat.two_pos
    calc 2 * (2 ^ 52 * 2 ^ 0) = 2 * 2 ^ 52 := by ring
      _ ≤ c * 2 ^ (b + 1) := h
      _ = 2 * (c * 2 ^ b) := by ring
  · change m * 2 ^ e.toNat ≤ c * 2 ^ (-e).toNat
    rw [hzero, Nat.pow_zero, Nat.mul_one]
    exact h

/-- A quotient that is not above a whole number is not too large for the format, and rounding does not
exceed the whole number. -/
theorem exists_round (hden : 0 < den) (hle : num ≤ c * den) (hc : c < 2 ^ 52) :
    ∃ x, round num den = some x ∧ x.AtMost c := by
  by_cases hnum : num = 0
  · exact ⟨zero, if_pos hnum, Nat.zero_le _⟩
  · have he : exponentFor num den ≤ 0 :=
      exponentFor_nonpos hnum (Nat.lt_of_le_of_lt hle (Nat.mul_lt_mul_of_pos_right hc hden))
    have hzero : (exponentFor num den).toNat = 0 := by omega
    have hmantissa : roundAt (exponentFor num den) num den ≤ c * 2 ^ (-exponentFor num den).toNat := by
      refine roundDiv_le ?_ (Nat.mul_pos hden (Nat.two_pow_pos _))
      rw [hzero]
      calc num * 2 ^ (-exponentFor num den).toNat
          ≤ c * den * 2 ^ (-exponentFor num den).toNat := Nat.mul_le_mul_right _ hle
        _ = c * 2 ^ (-exponentFor num den).toNat * (den * 2 ^ 0) := by ring
    rw [round, if_neg hnum]
    refine ⟨_, if_pos ?_, .of_mantissa he hc hmantissa⟩
    -- the exponent is one at most, far below the largest one
    unfold maxExponent
    split_ifs
    · exact Int.le_trans (Int.add_le_add_right he 1) (by decide)
    · exact Int.le_trans he (by decide)

/-- A product does not exceed the product of two whole numbers. -/
theorem exists_mul (hx : x.AtMost c) (hy : y.AtMost d) (hcd : c * d < 2 ^ 52) :
    ∃ z, x.mul y = some z ∧ z.AtMost (c * d) := by
  refine exists_round (Nat.mul_pos x.den_pos y.den_pos) ?_ hcd
  calc x.num * y.num ≤ (c * x.den) * (d * y.den) := Nat.mul_le_mul hx hy
    _ = c * d * (x.den * y.den) := by ring

theorem exists_ofNat? {n : Nat} (hn : n < 2 ^ 52) : ∃ x, ofNat? n = some x ∧ x.AtMost n :=
  exists_round Nat.one_pos (by rw [Nat.mul_one]) hn

end Binary64

end Harvest
