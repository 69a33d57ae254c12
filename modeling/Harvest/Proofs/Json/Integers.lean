import Harvest.Json.Number
import Harvest.Proofs.Number.Rounding
import Mathlib.Data.List.TakeWhile

/-!
# Whole numbers in JSON texts

A number that is written without fraction and exponent has the value of its digits as long as that
fits 64 bits. Otherwise the digits that no longer fit are replaced by a power of ten, and the
product, although it is rounded, is not below 2^63.

## Main definitions

* `Json.decimal`, `Json.IsWhole` — texts of whole numbers
* `Json.NumberText.IsInteger` — numbers of a JSON text that stand for integers

## Main results

* `Json.absorb_spec` — which digits are taken
* `Json.scale_atLeast` — numbers with more digits than fit are large
* `Json.NumberText.shape_of_isWhole` — a text of a whole number as a number
* `Json.NumberText.value?_of_isWhole` — the value of a text of a whole number
* `Json.NumberText.value?_eq_int_iff` — the numbers whose value is an integer
-/

namespace Harvest.Json

/-- The number that ASCII digits stand for. -/
def decimal (digits : List Char) : Nat := ofDigits (digits.map digitValue)

/-- A text stands for a whole number: digits, with or without a sign in front. -/
inductive IsWhole : List Char → Int → Prop
  | plain {digits : List Char} : digits ≠ [] → (∀ c ∈ digits, c.isDigit = true) →
    IsWhole digits (decimal digits)
  | plus {digits : List Char} : digits ≠ [] → (∀ c ∈ digits, c.isDigit = true) →
    IsWhole ('+' :: digits) (decimal digits)
  | minus {digits : List Char} : digits ≠ [] → (∀ c ∈ digits, c.isDigit = true) →
    IsWhole ('-' :: digits) (-(decimal digits : Int))

/-! ### Digits -/

theorem digitValue_le {c : Char} (h : c.isDigit = true) : digitValue c ≤ 9 := by
  simp only [Char.isDigit, Bool.and_eq_true, decide_eq_true_eq, UInt32.le_iff_toNat_le] at h
  have hnine : c.toNat ≤ 57 := h.2
  unfold digitValue
  have hzero : '0'.toNat = 48 := rfl
  omega

/-- Digits do not make a number smaller. -/
theorem le_foldl_digits (n : Nat) (ds : List Nat) :
    n ≤ ds.foldl (fun n d => n * 10 + d) n := by
  induction ds generalizing n with
  | nil => exact Nat.le_refl n
  | cons d rest ih => exact Nat.le_trans (by omega) (ih (n * 10 + d))

/-- Digits are taken up to the first one with which the number does not fit 64 bits. -/
theorem absorb_spec (n taken : Nat) (ds : List Nat) : ∃ front back, ds = front ++ back ∧
    absorb n taken ds = (front.foldl (fun n d => n * 10 + d) n, taken + front.length) ∧
    ∀ d rest, back = d :: rest → maxWord < front.foldl (fun n d => n * 10 + d) n * 10 + d := by
  induction ds generalizing n taken with
  | nil => exact ⟨[], [], rfl, rfl, nofun⟩
  | cons d rest ih =>
    by_cases hfits : n * 10 + d ≤ maxWord
    · obtain ⟨front, back, rfl, habsorb, hback⟩ := ih (n * 10 + d) (taken + 1)
      refine ⟨d :: front, back, rfl, ?_, hback⟩
      rw [absorb, if_pos hfits, habsorb, List.foldl_cons, List.length_cons, Nat.add_right_comm]
      rfl
    · refine ⟨[], d :: rest, rfl, by rw [absorb, if_neg hfits]; rfl, fun d' rest' heq => ?_⟩
      obtain ⟨rfl, -⟩ := List.cons.inj heq
      exact Nat.lt_of_not_le hfits

/-- What is taken fits 64 bits. -/
theorem absorb_le {n : Nat} (taken : Nat) (hn : n ≤ maxWord) (ds : List Nat) :
    (absorb n taken ds).1 ≤ maxWord := by
  induction ds generalizing n taken with
  | nil => exact hn
  | cons d rest ih =>
    unfold absorb
    split_ifs with hfits
    · exact ih (taken + 1) hfits
    · exact hn

/-- If a digit is left over, the number that was taken has at least 60 bits. -/
theorem two_pow_le_of_absorb {n d : Nat} (h : maxWord < n * 10 + d) (hd : d ≤ 9) : 2 ^ 60 ≤ n := by
  have hword : maxWord = 18446744073709551615 := rfl
  omega

/-! ### Digits that do not fit -/

theorem mantissa_ne_zero {x : Binary64} {k : Nat} (h : x.AtLeast k) : x.mantissa ≠ 0 := by
  intro hzero
  have hnum : x.num = 0 := by rw [Binary64.num, hzero, Nat.zero_mul]
  have hpos := Nat.mul_pos (Nat.two_pow_pos k) x.den_pos
  unfold Binary64.AtLeast at h
  omega

/-- A number with more digits than fit 64 bits is not below 2^63. -/
theorem scale_atLeast {n : Nat} {power : Int} {x : Binary64} (hn : 2 ^ 60 ≤ n) (hpower : 0 < power)
    (h : scale n power = some x) : x.AtLeast 63 := by
  obtain ⟨y, hy, h⟩ := Option.bind_eq_some_iff.mp h
  have hy60 : y.AtLeast 60 := .of_ofNat? hy hn
  rw [if_neg (mantissa_ne_zero hy60)] at h
  split_ifs at h
  · obtain ⟨z, hz, hmul⟩ := Option.bind_eq_some_iff.mp h
    have hten : 2 ^ 3 ≤ 10 ^ power.toNat := by
      calc 2 ^ 3 ≤ 10 ^ 1 := by decide
        _ ≤ 10 ^ power.toNat := Nat.pow_le_pow_right (by decide) (by omega)
    exact hy60.of_mul hmul (.of_ofNat? hz hten)
  all_goals omega

/-! ### Numbers without fraction and exponent -/

namespace NumberText

variable {t : NumberText} {s digits : List Char} {n : Int} {x : Number} {negative : Bool}

theorem unsigned?_digits (hdigits : ∀ c ∈ digits, c.isDigit = true)
    (h : unsigned? negative digits = some t) :
    t = ⟨negative, digits.map digitValue, [], none⟩ := by
  simp only [unsigned?, List.takeWhile_eq_self_iff.mpr hdigits,
    List.dropWhile_eq_nil_iff.mpr hdigits] at h
  obtain ⟨-, -, h⟩ := Option.bind_eq_some_iff.mp h
  exact (Option.some.inj h).symm

/-- A text of a whole number as a number: its digits and its sign. -/
theorem shape_of_isWhole (ht : ofChars? s = some t) (hn : IsWhole s n) :
    (∀ d ∈ t.whole, d ≤ 9) ∧ t.fraction = [] ∧ t.exponent = none ∧
      n = if t.negative then -(ofDigits t.whole : Int) else ofDigits t.whole := by
  have hvalues {digits : List Char} (hdigits : ∀ c ∈ digits, c.isDigit = true) :
      ∀ d ∈ digits.map digitValue, d ≤ 9 :=
    List.forall_mem_map.mpr fun c hc => digitValue_le (hdigits c hc)
  cases hn with
  | plain hne hdigits =>
    have hunsigned : unsigned? false s = some t := by
      unfold ofChars? at ht
      split at ht
      next => exact absurd (hdigits '-' List.mem_cons_self) (by decide)
      next => exact ht
    obtain rfl := unsigned?_digits hdigits hunsigned
    exact ⟨hvalues hdigits, rfl, rfl, rfl⟩
  | plus => cases ht
  | minus hne hdigits =>
    obtain rfl := unsigned?_digits hdigits ht
    exact ⟨hvalues hdigits, rfl, rfl, rfl⟩

/-- The value of a number without fraction and exponent, by the digits that were taken. -/
theorem value?_of_integer {m taken : Nat} (hfraction : t.fraction = [])
    (hexponent : t.exponent = none) (habsorb : absorb 0 0 t.whole = (m, taken)) : t.value? =
      if t.whole.length - taken = 0 then
        if !t.negative then some (.int m)
        else if m = 0 ∨ Bits.count 63 < m then (Binary64.ofNat? m).map (.float true)
        else some (.int (-m))
      else (scale m (t.whole.length - taken : Nat)).map (.float t.negative) := by
  simp only [value?, habsorb, hfraction, hexponent, absorb, List.isEmpty_nil, Bool.true_and,
    beq_iff_eq, Int.ofNat_zero, Int.sub_zero]

/-- A whole number is kept as it is, or it is a floating-point number on the same side of the
numbers from 0 to 2^63. -/
theorem value?_of_isWhole (ht : ofChars? s = some t) (hn : IsWhole s n) (hx : t.value? = some x) :
    x = .int n ∨ (n ≤ 0 ∧ ∃ m, x = .float true m) ∨
      (2 ^ 63 ≤ n ∧ ∃ m, x = .float false m ∧ m.AtLeast 63) := by
  obtain ⟨hdigits, hfraction, hexponent, rfl⟩ := shape_of_isWhole ht hn
  obtain ⟨front, back, hwhole, habsorb, hback⟩ := absorb_spec 0 0 t.whole
  rw [value?_of_integer hfraction hexponent habsorb] at hx
  cases back with
  | nil =>
    -- all digits fit
    obtain rfl : t.whole = front := by rw [hwhole, List.append_nil]
    have hdropped : t.whole.length - (0 + t.whole.length) = 0 := by omega
    have hofDigits : t.whole.foldl (fun n d => n * 10 + d) 0 = ofDigits t.whole := rfl
    rw [if_pos hdropped, hofDigits] at hx
    cases hsign : t.negative with
    | false =>
      rw [hsign] at hx
      exact .inl (Option.some.inj hx).symm
    | true =>
      rw [hsign, Bool.not_true, if_neg Bool.false_ne_true] at hx
      split_ifs at hx
      · obtain ⟨m, -, rfl⟩ := Option.map_eq_some_iff.mp hx
        exact .inr (.inl ⟨by rw [if_pos rfl]; omega, m, rfl⟩)
      · exact .inl (Option.some.inj hx).symm
  | cons d rest =>
    -- a digit is left over
    have hlarge := hback d rest rfl
    have hd : d ≤ 9 := hdigits d (by rw [hwhole]; simp)
    generalize hm : front.foldl (fun n d => n * 10 + d) 0 = m at *
    have hdropped : 0 < t.whole.length - (0 + front.length) := by
      rw [hwhole, List.length_append, List.length_cons]
      omega
    -- the digits that are left do not make the number smaller
    have hofDigits : maxWord < ofDigits t.whole := by
      rw [ofDigits, hwhole, List.foldl_append, hm, List.foldl_cons]
      exact Nat.lt_of_lt_of_le hlarge (le_foldl_digits _ _)
    rw [if_neg (by omega)] at hx
    obtain ⟨z, hscale, rfl⟩ := Option.map_eq_some_iff.mp hx
    have hz := scale_atLeast (two_pow_le_of_absorb hlarge hd) (by omega) hscale
    cases hsign : t.negative with
    | false =>
      refine .inr (.inr ⟨?_, z, rfl, hz⟩)
      have hword : maxWord = 18446744073709551615 := rfl
      rw [if_neg Bool.false_ne_true]
      omega
    | true => exact .inr (.inl ⟨by rw [if_pos rfl]; omega, z, rfl⟩)

/-! ### The integers of 64 bits -/

/-- A number without fraction and exponent stands for an integer; a zero with a minus sign does not. -/
structure IsInteger (t : NumberText) (n : Int) : Prop where
  fraction : t.fraction = []
  exponent : t.exponent = none
  value : n = if t.negative then -(ofDigits t.whole : Int) else ofDigits t.whole
  unsigned : t.negative = true → n ≠ 0

theorem IsInteger.eq {n' : Int} (h : t.IsInteger n) (h' : t.IsInteger n') : n = n' :=
  h.value.trans h'.value.symm

/-- A number whose digits do not all fit 64 bits is larger than what does. -/
theorem absorb_digits (ds : List Nat) :
    absorb 0 0 ds = (ofDigits ds, ds.length) ∧ ofDigits ds ≤ maxWord ∨
      maxWord < ofDigits ds ∧ ∃ m taken, absorb 0 0 ds = (m, taken) ∧ taken < ds.length := by
  obtain ⟨front, back, rfl, habsorb, hback⟩ := absorb_spec 0 0 ds
  cases back with
  | nil =>
    rw [List.append_nil]
    rw [List.append_nil, Nat.zero_add] at habsorb
    have hle := absorb_le 0 (Nat.zero_le maxWord) front
    rw [habsorb] at hle
    exact .inl ⟨habsorb, hle⟩
  | cons d rest =>
    refine .inr ⟨?_, _, _, habsorb, ?_⟩
    · rw [ofDigits, List.foldl_append, List.foldl_cons]
      exact Nat.lt_of_lt_of_le (hback d rest rfl) (le_foldl_digits _ _)
    · rw [List.length_append, List.length_cons]
      omega

/-- What is no integer by its shape does not become one. -/
theorem value?_ne_int (h : t.fraction ≠ [] ∨ t.exponent ≠ none) : t.value? ≠ some (.int n) := by
  intro hvalue
  unfold value? at hvalue
  dsimp only at hvalue
  split at hvalue
  · -- with an exponent
    split at hvalue
    · split_ifs at hvalue
      cases hvalue
    · obtain ⟨m, -, hm⟩ := Option.map_eq_some_iff.mp hvalue
      cases hm
  next hnone =>
    have hfraction : t.fraction.isEmpty = false := by
      simpa using h.resolve_right fun hne => hne hnone
    rw [hfraction, Bool.false_and, if_neg Bool.false_ne_true] at hvalue
    obtain ⟨m, -, hm⟩ := Option.map_eq_some_iff.mp hvalue
    cases hm

/-- A number whose digits do not fit 64 bits does not become an integer. -/
theorem value?_ne_int_of_lt (h : maxWord < ofDigits t.whole) : t.value? ≠ some (.int n) := by
  by_cases hshape : t.fraction = [] ∧ t.exponent = none
  · rcases absorb_digits t.whole with ⟨-, hle⟩ | ⟨-, m, taken, habsorb, htaken⟩
    · omega
    · rw [value?_of_integer hshape.1 hshape.2 habsorb, if_neg (by omega)]
      intro hvalue
      obtain ⟨x, -, hx⟩ := Option.map_eq_some_iff.mp hvalue
      cases hx
  · exact value?_ne_int (not_and_or.mp hshape)

/-- An integer is kept as it is if it fits 64 bits, and nothing else becomes one. -/
theorem value?_eq_int_iff : t.value? = some (.int n) ↔
    t.IsInteger n ∧ -(Bits.count 63 : Int) ≤ n ∧ n < Bits.count 64 := by
  have hword : (maxWord : Int) + 1 = Bits.count 64 := rfl
  have hhalf : Bits.count 63 ≤ maxWord := by decide
  by_cases hshape : t.fraction = [] ∧ t.exponent = none
  swap
  · refine iff_of_false (value?_ne_int (not_and_or.mp hshape)) fun ⟨h, _⟩ => ?_
    exact hshape ⟨h.fraction, h.exponent⟩
  obtain ⟨hfraction, hexponent⟩ := hshape
  rcases absorb_digits t.whole with ⟨habsorb, hle⟩ | ⟨hlt, -⟩
  swap
  · refine iff_of_false (value?_ne_int_of_lt hlt) fun ⟨h, hlow, hhigh⟩ => ?_
    have hvalue := h.value
    split_ifs at hvalue <;> omega
  rw [value?_of_integer hfraction hexponent habsorb, if_pos (Nat.sub_self _)]
  cases hsign : t.negative with
  | false =>
    have hinteger : t.IsInteger n ↔ n = ofDigits t.whole := by
      refine ⟨fun h => by simpa [hsign] using h.value, fun h => ?_⟩
      exact ⟨hfraction, hexponent, by simpa [hsign] using h, by simp [hsign]⟩
    rw [hinteger, Bool.not_false, if_pos rfl, Option.some.injEq, Number.int.injEq]
    omega
  | true =>
    have hinteger : t.IsInteger n ↔ n = -(ofDigits t.whole : Int) ∧ n ≠ 0 := by
      refine ⟨fun h => ⟨by simpa [hsign] using h.value, h.unsigned hsign⟩, fun h => ?_⟩
      exact ⟨hfraction, hexponent, by simpa [hsign] using h.1, fun _ => h.2⟩
    rw [hinteger, Bool.not_true, if_neg Bool.false_ne_true]
    split_ifs with hfloat
    · -- a zero with a minus sign, or a number that is too low
      refine iff_of_false (fun h => ?_) fun h => by omega
      obtain ⟨x, -, hx⟩ := Option.map_eq_some_iff.mp h
      cases hx
    · rw [Option.some.injEq, Number.int.injEq]
      omega

end NumberText

end Harvest.Json
