import Harvest.Proofs.Number.Rounding
import Mathlib.Algebra.Order.Field.Power
import Mathlib.Tactic.Linarith

/-!
# Rounding keeps order

Of two quotients the larger one is not rounded to less. If both are rounded in the same unit, that
is so because rounding to whole numbers keeps order; if the larger one has the larger unit, a power
of two lies between them.

## Main definitions

* `Binary64.value` — the value of a number

## Main results

* `roundDiv_mono` — rounding to whole numbers keeps order
* `Binary64.exponentFor_spec` — the unit in which a quotient is rounded
* `Binary64.round_mono`, `Binary64.mul_mono` — rounding keeps order, and so do products
-/

namespace Harvest

/-- Of two quotients the larger one is not rounded down further. -/
theorem div_mono {a b c d : Nat} (hb : 0 < b) (hd : 0 < d) (h : a * d ≤ c * b) :
    a / b ≤ c / d := by
  refine (Nat.le_div_iff_mul_le hd).mpr (Nat.le_of_mul_le_mul_right ?_ hb)
  calc a / b * d * b = a / b * b * d := Nat.mul_right_comm ..
    _ ≤ a * d := Nat.mul_le_mul_right d (Nat.div_mul_le_self a b)
    _ ≤ c * b := h

/-- Of two quotients the larger one is not rounded to less. -/
theorem roundDiv_mono {a b c d : Nat} (hb : 0 < b) (hd : 0 < d) (h : a * d ≤ c * b) :
    roundDiv a b ≤ roundDiv c d := by
  have hle : a / b ≤ c / d := div_mono hb hd h
  rcases Nat.lt_or_eq_of_le hle with hlt | heq
  · unfold roundDiv
    dsimp only
    split_ifs <;> omega
  · -- of equal integral parts, the remainders decide
    have hrest : a % b * d ≤ c % d * b := by
      have ha := Nat.div_add_mod a b
      have hc := Nat.div_add_mod c d
      rw [← heq] at hc
      have hparts : b * (a / b) * d + a % b * d ≤ d * (a / b) * b + c % d * b := by
        rw [← Nat.add_mul, ← Nat.add_mul, ha, hc]
        exact h
      have hsame : b * (a / b) * d = d * (a / b) * b := by ring
      omega
    unfold roundDiv
    dsimp only
    rw [← heq]
    split_ifs with hup hup'
    · exact le_rfl
    · refine absurd ?_ hup'
      -- a remainder of half the divisor, or more, is so in the larger quotient too
      have hscale : 2 * (a % b) * d ≤ 2 * (c % d) * b := by
        rw [Nat.mul_assoc, Nat.mul_assoc]
        exact Nat.mul_le_mul_left 2 hrest
      rcases hup with hmore | ⟨hhalf, hodd⟩
      · left
        refine Nat.lt_of_mul_lt_mul_right (a := b) ?_
        calc d * b = b * d := Nat.mul_comm ..
          _ < 2 * (a % b) * d := Nat.mul_lt_mul_of_pos_right hmore hd
          _ ≤ 2 * (c % d) * b := hscale
      · rw [hhalf, Nat.mul_comm] at hscale
        have hge : d ≤ 2 * (c % d) := Nat.le_of_mul_le_mul_right hscale hb
        exact (Nat.lt_or_eq_of_le hge).imp_right fun heq => ⟨heq.symm, hodd⟩
    · exact Nat.le_succ _
    · exact le_rfl

namespace Binary64

/-- The value of a number. -/
def value (x : Binary64) : ℚ := x.mantissa * 2 ^ x.exponent

/-- A power of two in whole numbers. -/
theorem zpow_eq (e : Int) : (2 : ℚ) ^ e = 2 ^ e.toNat / 2 ^ (-e).toNat := by
  rw [← zpow_natCast, ← zpow_natCast, ← zpow_sub₀ two_ne_zero]
  congr 1
  omega

theorem value_eq (x : Binary64) : x.value = x.num / x.den := by
  have hnum : (x.num : ℚ) = x.mantissa * 2 ^ x.exponent.toNat := by
    simp [num]
  have hden : (x.den : ℚ) = 2 ^ (-x.exponent).toNat := by
    simp [den]
  rw [value, zpow_eq, hnum, hden, mul_div_assoc]

variable {x y z : Binary64} {num den num' den' : Nat}

/-- So many units are not above a quotient. -/
theorem units_le_iff (m : Nat) (e : Int) (hden : 0 < den) :
    (m * 2 ^ e : ℚ) ≤ num / den ↔ m * (den * 2 ^ e.toNat) ≤ num * 2 ^ (-e).toNat := by
  have hpos : (0 : ℚ) < den := by exact_mod_cast hden
  have hunit : (0 : ℚ) < 2 ^ (-e).toNat := by positivity
  rw [le_div_iff₀ hpos, zpow_eq, ← mul_div_assoc, div_mul_eq_mul_div, div_le_iff₀ hunit,
    mul_assoc, mul_comm (2 ^ e.toNat) (den : ℚ)]
  exact_mod_cast Iff.rfl

/-- The logarithms bound a quotient from both sides. -/
theorem quotient_bounds (hnum : num ≠ 0) (hden : 0 < den) {e : Int}
    (he : e = (num.log2 : Int) - den.log2 - 53) :
    (2 ^ 52 * 2 ^ e : ℚ) ≤ num / den ∧ (num / den : ℚ) < 2 ^ 54 * 2 ^ e := by
  have hpos : (0 : ℚ) < den := by exact_mod_cast hden
  have hnum' : (2 ^ num.log2 : ℚ) ≤ num ∧ (num : ℚ) < 2 ^ (num.log2 + 1) :=
    ⟨by exact_mod_cast Nat.log2_self_le hnum, by exact_mod_cast Nat.lt_log2_self⟩
  have hden' : (2 ^ den.log2 : ℚ) ≤ den ∧ (den : ℚ) ≤ 2 ^ (den.log2 + 1) :=
    ⟨by exact_mod_cast Nat.log2_self_le hden.ne', by exact_mod_cast Nat.lt_log2_self.le⟩
  rw [le_div_iff₀ hpos, div_lt_iff₀ hpos]
  constructor
  · calc (2 ^ 52 * 2 ^ e * den : ℚ)
      _ ≤ 2 ^ 52 * 2 ^ e * 2 ^ (den.log2 + 1) := by gcongr; exact hden'.2
      _ = 2 ^ num.log2 := by
        simp only [← zpow_natCast, ← zpow_add₀ (two_ne_zero (α := ℚ))]
        congr 1
        omega
      _ ≤ num := hnum'.1
  · calc (num : ℚ) < 2 ^ (num.log2 + 1) := hnum'.2
      _ = 2 ^ 54 * 2 ^ e * 2 ^ den.log2 := by
        simp only [← zpow_natCast, ← zpow_add₀ (two_ne_zero (α := ℚ))]
        congr 1
        omega
      _ ≤ 2 ^ 54 * 2 ^ e * den := by gcongr; exact hden'.1

/-- A quotient is less than `2 ^ 53` of the units in which it is rounded, and not less than `2 ^ 52`
of them unless the unit is the smallest one. -/
theorem exponentFor_spec (hnum : num ≠ 0) (hden : 0 < den) :
    (num / den : ℚ) < 2 ^ 53 * 2 ^ exponentFor num den ∧
      (exponentFor num den = minExponent ∨
        (2 ^ 52 * 2 ^ exponentFor num den : ℚ) ≤ num / den) := by
  obtain ⟨e, he⟩ : ∃ e : Int, e = (num.log2 : Int) - den.log2 - 53 := ⟨_, rfl⟩
  obtain ⟨hlower, hupper⟩ := quotient_bounds hnum hden he
  -- the exponent that the format would have without a smallest one
  obtain ⟨e', he', hlower', hupper'⟩ : ∃ e', exponentFor num den = max e' minExponent ∧
      (2 ^ 52 * 2 ^ e' : ℚ) ≤ num / den ∧ (num / den : ℚ) < 2 ^ 53 * 2 ^ e' := by
    unfold exponentFor
    dsimp only
    rw [← he]
    have hiff : (2 ^ 53 * 2 ^ e : ℚ) ≤ num / den ↔
        2 ^ 53 * (den * 2 ^ e.toNat) ≤ num * 2 ^ (-e).toNat := by
      exact_mod_cast units_le_iff (2 ^ 53) e hden
    split_ifs with hlong
    · refine ⟨e + 1, rfl, ?_, ?_⟩
      · calc (2 ^ 52 * 2 ^ (e + 1) : ℚ) = 2 ^ 53 * 2 ^ e := by rw [zpow_add_one₀ two_ne_zero]; ring
          _ ≤ num / den := hiff.mpr hlong
      · calc (num / den : ℚ) < 2 ^ 54 * 2 ^ e := hupper
          _ = 2 ^ 53 * 2 ^ (e + 1) := by rw [zpow_add_one₀ two_ne_zero]; ring
    · exact ⟨e, rfl, hlower, lt_of_not_ge fun hge => hlong (hiff.mp hge)⟩
  rw [he']
  rcases le_total e' minExponent with hsmall | hlarge
  · rw [max_eq_right hsmall]
    refine ⟨lt_of_lt_of_le hupper' ?_, .inl rfl⟩
    gcongr
    exact one_le_two
  · rw [max_eq_left hlarge]
    exact ⟨hupper', .inr hlower'⟩

/-- Of two quotients the larger one has no smaller unit. -/
theorem exponentFor_mono (hnum : num ≠ 0) (hnum' : num' ≠ 0) (hden : 0 < den) (hden' : 0 < den')
    (h : (num / den : ℚ) ≤ num' / den') : exponentFor num den ≤ exponentFor num' den' := by
  obtain ⟨-, hmin | hlower⟩ := exponentFor_spec hnum hden
  · rw [hmin]
    exact le_max_right _ _
  · -- a smaller unit would put the larger quotient below the smaller one
    by_contra hlt
    refine absurd (hlower.trans h) (not_le.mpr ?_)
    calc (num' / den' : ℚ) < 2 ^ 53 * 2 ^ exponentFor num' den' := (exponentFor_spec hnum' hden').1
      _ = 2 ^ 52 * 2 ^ (exponentFor num' den' + 1) := by rw [zpow_add_one₀ two_ne_zero]; ring
      _ ≤ 2 ^ 52 * 2 ^ exponentFor num den := by
        gcongr
        · exact one_le_two
        · omega

/-- A rounded quotient has at least as many units as a number of units that is not above it. -/
theorem le_roundAt {m : Nat} {e : Int} (hden : 0 < den) (h : (m * 2 ^ e : ℚ) ≤ num / den) :
    m ≤ roundAt e num den :=
  le_roundDiv ((units_le_iff m e hden).mp h) (Nat.mul_pos hden (Nat.two_pow_pos _))

/-- A rounded quotient has at most as many units as a whole number of units that is above it. -/
theorem roundAt_le {m : Nat} {e : Int} (hden : 0 < den) (h : (num / den : ℚ) < m * 2 ^ e) :
    roundAt e num den ≤ m := by
  refine roundDiv_le (Nat.le_of_lt (Nat.lt_of_not_le fun hge => ?_))
    (Nat.mul_pos hden (Nat.two_pow_pos _))
  exact absurd ((units_le_iff m e hden).mpr hge) (not_le.mpr h)

/-- In the same unit, rounding keeps order. -/
theorem roundAt_mono (e : Int) (hden : 0 < den) (hden' : 0 < den')
    (h : (num / den : ℚ) ≤ num' / den') : roundAt e num den ≤ roundAt e num' den' := by
  have hcross : num * den' ≤ num' * den := by
    rw [div_le_div_iff₀ (by exact_mod_cast hden) (by exact_mod_cast hden')] at h
    exact_mod_cast h
  refine roundDiv_mono (Nat.mul_pos hden (Nat.two_pow_pos _))
    (Nat.mul_pos hden' (Nat.two_pow_pos _)) ?_
  calc num * 2 ^ (-e).toNat * (den' * 2 ^ e.toNat)
      = num * den' * (2 ^ (-e).toNat * 2 ^ e.toNat) := by ring
    _ ≤ num' * den * (2 ^ (-e).toNat * 2 ^ e.toNat) := Nat.mul_le_mul_right _ hcross
    _ = num' * 2 ^ (-e).toNat * (den * 2 ^ e.toNat) := by ring

/-- A rounded quotient is a whole number of units, also if its mantissa was too long. -/
theorem value_of_round (hround : round num den = some x) (hnum : num ≠ 0) :
    x.value = roundAt (exponentFor num den) num den * 2 ^ exponentFor num den := by
  rw [round, if_neg hnum] at hround
  obtain ⟨-, hx⟩ := Option.ite_none_right_eq_some.mp hround
  obtain rfl := Option.some.inj hx
  split_ifs with hlong
  · rw [hlong, value, zpow_add_one₀ two_ne_zero]
    norm_num
    ring
  · rfl

theorem value_nonneg (x : Binary64) : 0 ≤ x.value := by
  unfold value
  positivity

/-- Rounding keeps order. -/
theorem round_mono (hx : round num den = some x) (hy : round num' den' = some y)
    (hden : 0 < den) (hden' : 0 < den') (h : (num / den : ℚ) ≤ num' / den') :
    x.value ≤ y.value := by
  by_cases hnum : num = 0
  · obtain rfl : zero = x := Option.some.inj ((if_pos hnum).symm.trans hx)
    have hzero : zero.value = 0 := by simp [value, zero]
    rw [hzero]
    exact y.value_nonneg
  have hnum' : num' ≠ 0 := by
    rintro rfl
    have hpos : (0 : ℚ) < num / den :=
      div_pos (by exact_mod_cast Nat.pos_of_ne_zero hnum) (by exact_mod_cast hden)
    rw [Nat.cast_zero, zero_div] at h
    exact absurd h (not_le.mpr hpos)
  rw [value_of_round hx hnum, value_of_round hy hnum']
  rcases (exponentFor_mono hnum hnum' hden hden' h).eq_or_lt with heq | hlt
  · rw [← heq]
    gcongr
    exact roundAt_mono _ hden hden' h
  · -- the larger unit is not the smallest one, so a power of two lies between the quotients
    have hmin : exponentFor num' den' ≠ minExponent := by
      have hle : minExponent ≤ exponentFor num den := le_max_right _ _
      omega
    have hupper := (exponentFor_spec hnum hden).1
    have hlower := (exponentFor_spec hnum' hden').2.resolve_left hmin
    calc (roundAt (exponentFor num den) num den * 2 ^ exponentFor num den : ℚ)
        ≤ 2 ^ 53 * 2 ^ exponentFor num den := by
          gcongr
          exact_mod_cast roundAt_le (m := 2 ^ 53) hden (by exact_mod_cast hupper)
      _ = 2 ^ 52 * 2 ^ (exponentFor num den + 1) := by rw [zpow_add_one₀ two_ne_zero]; ring
      _ ≤ 2 ^ 52 * 2 ^ exponentFor num' den' := by
          gcongr
          · exact one_le_two
          · exact hlt
      _ ≤ roundAt (exponentFor num' den') num' den' * 2 ^ exponentFor num' den' := by
          gcongr
          exact_mod_cast le_roundAt (m := 2 ^ 52) hden' (by exact_mod_cast hlower)

/-- Products with the same number keep order. -/
theorem mul_mono {x' y' : Binary64} (hx : x.mul z = some x') (hy : y.mul z = some y')
    (h : x.value ≤ y.value) : x'.value ≤ y'.value := by
  refine round_mono hx hy (Nat.mul_pos x.den_pos z.den_pos) (Nat.mul_pos y.den_pos z.den_pos) ?_
  push_cast
  rw [mul_div_mul_comm, mul_div_mul_comm, ← value_eq, ← value_eq, ← value_eq]
  exact mul_le_mul_of_nonneg_right h z.value_nonneg

end Binary64

end Harvest
