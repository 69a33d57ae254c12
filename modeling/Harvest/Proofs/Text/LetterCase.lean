import Harvest.Text.Category
import Harvest.Text.LowerCase
import Mathlib.Data.List.Forall2

/-!
# Texts without the case of ASCII letters

What is asked about a character has the same answer for both cases of an ASCII letter: whether it
is part of a word, white space or a digit, and what its lower-case form is. So the trimming of a
text commutes with putting its ASCII letters in lower case, and its full lower-case form does not
depend on their case at all.

## Main definitions

* `Text.IgnoresCase` — a function of characters with equal values at both cases of a letter
* `Text.EqUpToCase` — strings that differ in the case of ASCII letters only

## Main results

* `Text.IgnoresCase.apply_toLower` — such a function does not see whether a letter is a capital
* `Text.trim_asciiLower` — trimming commutes with lower case
* `Text.lower_asciiLower` — the full lower-case form does not depend on the case of ASCII letters
* `Text.eqUpToCase_iff` — such strings agree character by character
-/

namespace Harvest.Text

/-! ### Characters -/

/-- A function of characters with equal values at both cases of every ASCII letter. -/
def IgnoresCase {α : Type} (f : Char → α) : Prop :=
  ∀ i < 26, f (Char.ofNat (0x61 + i)) = f (Char.ofNat (0x41 + i))

instance {α : Type} [DecidableEq α] (f : Char → α) : Decidable (IgnoresCase f) :=
  inferInstanceAs (Decidable (∀ i < 26, _))

/-- The capitals are the 26 code points from 0x41 on. -/
theorem exists_of_isUpper {ch : Char} (h : ch.isUpper = true) :
    ∃ i < 26, ch = Char.ofNat (0x41 + i) := by
  have hrange : 0x41 ≤ ch.val ∧ ch.val ≤ 0x5A := of_decide_eq_true h
  have hfirst : 0x41 ≤ ch.toNat := UInt32.le_iff_toNat_le.mp hrange.1
  have hlast : ch.toNat ≤ 0x5A := UInt32.le_iff_toNat_le.mp hrange.2
  refine ⟨ch.toNat - 0x41, by omega, ?_⟩
  rw [Nat.add_sub_cancel' hfirst, Char.ofNat_toNat]

/-- The small letters are the 26 code points from 0x61 on. -/
theorem exists_of_isLower {ch : Char} (h : ch.isLower = true) :
    ∃ i < 26, ch = Char.ofNat (0x61 + i) := by
  obtain ⟨hge, hle⟩ := Bool.and_eq_true_iff.mp h
  have hfirst : 0x61 ≤ ch.toNat := UInt32.le_iff_toNat_le.mp (of_decide_eq_true hge)
  have hlast : ch.toNat ≤ 0x7A := UInt32.le_iff_toNat_le.mp (of_decide_eq_true hle)
  refine ⟨ch.toNat - 0x61, by omega, ?_⟩
  rw [Nat.add_sub_cancel' hfirst, Char.ofNat_toNat]

theorem toLower_of_not_isUpper {ch : Char} (h : ch.isUpper = false) : ch.toLower = ch :=
  dif_neg (of_decide_eq_false h)

theorem toUpper_of_not_isLower {ch : Char} (h : ch.isLower = false) : ch.toUpper = ch := by
  refine dif_neg fun hrange => ne_true_of_eq_false h ?_
  exact Bool.and_eq_true_iff.mpr ⟨decide_eq_true hrange.1, decide_eq_true hrange.2⟩

theorem IgnoresCase.apply_toLower {α : Type} {f : Char → α} (hf : IgnoresCase f) (ch : Char) :
    f ch.toLower = f ch := by
  by_cases hch : ch.isUpper = true
  · obtain ⟨i, hi, rfl⟩ := exists_of_isUpper hch
    have hlower : (Char.ofNat (0x41 + i)).toLower = Char.ofNat (0x61 + i) := by
      have hall : ∀ i < 26, (Char.ofNat (0x41 + i)).toLower = Char.ofNat (0x61 + i) := by decide
      exact hall i hi
    rw [hlower]
    exact hf i hi
  · rw [toLower_of_not_isUpper (eq_false_of_ne_true hch)]

@[simp] theorem isWordChar_toLower (ch : Char) : isWordChar ch.toLower = isWordChar ch :=
  IgnoresCase.apply_toLower (by decide) ch

@[simp] theorem isDecimalDigit_toLower (ch : Char) :
    isDecimalDigit ch.toLower = isDecimalDigit ch :=
  IgnoresCase.apply_toLower (by decide) ch

@[simp] theorem isBlank_toLower (ch : Char) : isBlank ch.toLower = isBlank ch :=
  IgnoresCase.apply_toLower (by decide) ch

@[simp] theorem isDigit_toLower (ch : Char) : ch.toLower.isDigit = ch.isDigit :=
  IgnoresCase.apply_toLower (by decide) ch

@[simp] theorem isCased_toLower (ch : Char) : isCased ch.toLower = isCased ch :=
  IgnoresCase.apply_toLower (by decide) ch

@[simp] theorem isCaseIgnorable_toLower (ch : Char) :
    isCaseIgnorable ch.toLower = isCaseIgnorable ch :=
  IgnoresCase.apply_toLower (by decide) ch

@[simp] theorem lowerChar_toLower (ch : Char) : lowerChar ch.toLower = lowerChar ch :=
  IgnoresCase.apply_toLower (by decide) ch

@[simp] theorem isAlpha_toLower (ch : Char) : ch.toLower.isAlpha = ch.isAlpha :=
  IgnoresCase.apply_toLower (by decide) ch

@[simp] theorem isAlphanum_toLower (ch : Char) : ch.toLower.isAlphanum = ch.isAlphanum :=
  IgnoresCase.apply_toLower (by decide) ch

@[simp] theorem toLower_toLower (ch : Char) : ch.toLower.toLower = ch.toLower :=
  IgnoresCase.apply_toLower (by decide) ch

theorem toUpper_toLower_of_isUpper {ch : Char} (h : ch.isUpper = true) :
    ch.toLower.toUpper = ch := by
  have hall : ∀ i < 26, (Char.ofNat (0x41 + i)).toLower.toUpper = Char.ofNat (0x41 + i) := by decide
  obtain ⟨i, hi, rfl⟩ := exists_of_isUpper h
  exact hall i hi

theorem toLower_toUpper_of_isLower {ch : Char} (h : ch.isLower = true) :
    ch.toUpper.toLower = ch := by
  have hall : ∀ i < 26, (Char.ofNat (0x61 + i)).toUpper.toLower = Char.ofNat (0x61 + i) := by decide
  obtain ⟨i, hi, rfl⟩ := exists_of_isLower h
  exact hall i hi

/-- A character that is not a capital is the lower-case form of itself and of its capital. -/
theorem eq_or_eq_toUpper_iff {c : Char} (hc : c.isUpper = false) {ch : Char} :
    ch = c ∨ ch = c.toUpper ↔ ch.toLower = c := by
  constructor
  · rintro (rfl | rfl)
    · exact toLower_of_not_isUpper hc
    · by_cases hlower : c.isLower = true
      · exact toLower_toUpper_of_isLower hlower
      · rw [toUpper_of_not_isLower (eq_false_of_ne_true hlower), toLower_of_not_isUpper hc]
  · rintro rfl
    by_cases hupper : ch.isUpper = true
    · exact .inr (toUpper_toLower_of_isUpper hupper).symm
    · exact .inl (toLower_of_not_isUpper (eq_false_of_ne_true hupper)).symm

theorem not_isAlpha_of_isDigit {ch : Char} (h : ch.isDigit = true) : ch.isAlpha = false := by
  have hnone : ∀ i < 26, (Char.ofNat (0x41 + i)).isDigit = false ∧
      (Char.ofNat (0x61 + i)).isDigit = false := by decide
  refine eq_false_of_ne_true fun halpha => ?_
  rcases Bool.or_eq_true_iff.mp halpha with hupper | hlower
  · obtain ⟨i, hi, rfl⟩ := exists_of_isUpper hupper
    exact absurd h (ne_true_of_eq_false (hnone i hi).1)
  · obtain ⟨i, hi, rfl⟩ := exists_of_isLower hlower
    exact absurd h (ne_true_of_eq_false (hnone i hi).2)

theorem toLower_of_not_isAlpha {ch : Char} (h : ch.isAlpha = false) : ch.toLower = ch :=
  toLower_of_not_isUpper (Bool.or_eq_false_iff.mp h).1

/-- No letter becomes a character that is none. -/
theorem toLower_eq_iff {ch d : Char} (hd : d.isAlpha = false) : ch.toLower = d ↔ ch = d := by
  constructor
  · intro h
    -- the character has no case, so it was not changed
    have hch : ch.isAlpha = false := by rw [← isAlpha_toLower, h, hd]
    rwa [toLower_of_not_isAlpha hch] at h
  · rintro rfl
    exact toLower_of_not_isAlpha hd

theorem toLower_beq {d : Char} (hd : d.isAlpha = false) (ch : Char) :
    (ch.toLower == d) = (ch == d) :=
  Bool.eq_iff_iff.mpr (by simpa using toLower_eq_iff hd)

/-! ### Texts -/

section Texts

variable (s : List Char)

theorem asciiLower_nil : asciiLower [] = [] := rfl

theorem asciiLower_cons (ch : Char) : asciiLower (ch :: s) = ch.toLower :: asciiLower s := rfl

@[simp] theorem asciiLower_reverse : asciiLower s.reverse = (asciiLower s).reverse :=
  List.map_reverse

@[simp] theorem asciiLower_take (n : Nat) : asciiLower (s.take n) = (asciiLower s).take n :=
  List.map_take

@[simp] theorem isEmpty_asciiLower : (asciiLower s).isEmpty = s.isEmpty := List.isEmpty_map

/-- A text whose characters are not letters has no case. -/
theorem asciiLower_of_not_isAlpha {s : List Char} (h : ∀ ch ∈ s, ch.isAlpha = false) :
    asciiLower s = s :=
  (List.map_congr_left fun ch hch => toLower_of_not_isAlpha (h ch hch)).trans (List.map_id s)

variable {p : Char → Bool}

theorem dropWhile_asciiLower (hp : ∀ ch, p ch.toLower = p ch) (s : List Char) :
    (asciiLower s).dropWhile p = asciiLower (s.dropWhile p) := by
  have hcomp : p ∘ Char.toLower = p := funext hp
  rw [asciiLower, List.dropWhile_map, hcomp, asciiLower]

theorem dropEndWhile_asciiLower (hp : ∀ ch, p ch.toLower = p ch) (s : List Char) :
    dropEndWhile p (asciiLower s) = asciiLower (dropEndWhile p s) := by
  rw [dropEndWhile, ← asciiLower_reverse, dropWhile_asciiLower hp, ← asciiLower_reverse,
    dropEndWhile]

/-- Trimming commutes with lower case. -/
theorem trim_asciiLower (s : List Char) : trim (asciiLower s) = asciiLower (trim s) := by
  simp only [trim, dropBlanksEnd, dropWhile_asciiLower isBlank_toLower,
    dropEndWhile_asciiLower isBlank_toLower]

/-! ### The full lower-case form -/

theorem startsCased_asciiLower (s : List Char) : startsCased (asciiLower s) = startsCased s := by
  unfold startsCased
  rw [dropWhile_asciiLower isCaseIgnorable_toLower]
  cases s.dropWhile isCaseIgnorable with
  | nil => rfl
  | cons ch rest => exact isCased_toLower ch

theorem lowerIn_asciiLower (before : List Char) (ch : Char) (after : List Char) :
    lowerIn (asciiLower before) ch.toLower (asciiLower after) = lowerIn before ch after := by
  have hsigma : (ch.toLower == 'Σ') = (ch == 'Σ') := toLower_beq (by decide) ch
  have hdotted : (ch.toLower == 'İ') = (ch == 'İ') := toLower_beq (by decide) ch
  simp only [lowerIn, hsigma, hdotted, startsCased_asciiLower, lowerChar_toLower]

theorem lowerFrom_asciiLower (before s : List Char) :
    lowerFrom (asciiLower before) (asciiLower s) = lowerFrom before s := by
  induction s generalizing before with
  | nil => rfl
  | cons ch rest ih =>
    rw [asciiLower_cons, lowerFrom, lowerFrom, lowerIn_asciiLower, ← asciiLower_cons, ih]

/-- The full lower-case form of a text does not depend on the case of its ASCII letters. -/
@[simp] theorem lower_asciiLower (s : List Char) : lower (asciiLower s) = lower s :=
  lowerFrom_asciiLower [] s

@[simp] theorem lowerString_asciiLowerString (s : String) :
    lowerString (asciiLowerString s) = lowerString s := by
  rw [lowerString, asciiLowerString, String.toList_ofList, lower_asciiLower, lowerString]

end Texts

/-! ### Equality up to case -/

/-- One string is the other with the case of some ASCII letters changed. -/
def EqUpToCase (a b : String) : Prop := asciiLowerString a = asciiLowerString b

instance (a b : String) : Decidable (EqUpToCase a b) :=
  inferInstanceAs (Decidable (asciiLowerString a = asciiLowerString b))

theorem eqUpToCase_asciiLowerString (s : String) : EqUpToCase s (asciiLowerString s) := by
  rw [EqUpToCase, asciiLowerString, asciiLowerString, String.toList_ofList, asciiLower, asciiLower,
    List.map_map]
  simp only [Function.comp_def, toLower_toLower]

/-- Letters that agree in lower case are equal, or one is the lower-case form of the other. -/
theorem toLower_eq_toLower_iff {ch d : Char} :
    ch.toLower = d.toLower ↔ ch = d ∨ ch.toLower = d ∨ ch = d.toLower := by
  constructor
  · intro h
    by_cases hch : ch.isUpper = true
    · by_cases hd : d.isUpper = true
      · -- capitals are recovered from their lower-case forms
        exact .inl (by rw [← toUpper_toLower_of_isUpper hch, h, toUpper_toLower_of_isUpper hd])
      · exact .inr (.inl (h.trans (toLower_of_not_isUpper (eq_false_of_ne_true hd))))
    · exact .inr (.inr ((toLower_of_not_isUpper (eq_false_of_ne_true hch)).symm.trans h))
  · rintro (rfl | rfl | rfl)
    · rfl
    · rw [toLower_toLower]
    · rw [toLower_toLower]

/-- Two strings are equal up to case when they are so character by character. -/
theorem eqUpToCase_iff {a b : String} : EqUpToCase a b ↔
    List.Forall₂ (fun ch d => ch = d ∨ ch.toLower = d ∨ ch = d.toLower) a.toList b.toList := by
  have hlists : EqUpToCase a b ↔ asciiLower a.toList = asciiLower b.toList := by
    unfold EqUpToCase asciiLowerString
    exact String.ofList_inj
  rw [hlists, asciiLower, asciiLower, ← List.forall₂_eq_eq_eq, List.forall₂_map_left_iff,
    List.forall₂_map_right_iff]
  simp only [toLower_eq_toLower_iff]

end Harvest.Text
