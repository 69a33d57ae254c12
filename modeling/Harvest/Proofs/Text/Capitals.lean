import Harvest.Proofs.Text.LetterCase

/-!
# Capitals of all scripts

The full lower-case form of a text leaves no ASCII capital. It is the lower-case form in which only
ASCII letters have case exactly if no other letter of the text is a capital.

## Main definitions

* `Text.IsForeignCapital` — a capital that is no ASCII letter

## Main results

* `Text.lowerChar_eq_or`, `Text.mem_of_mem_lowerFrom` — what lower case may bring into a text
* `Text.asciiLower_lower` — a text in lower case has no ASCII capitals
* `Text.length_le_length_lower` — a text does not become shorter in lower case
* `Text.lower_eq_asciiLower_iff` — when both lower-case forms agree
-/

namespace Harvest.Text

/-- A capital that is no ASCII letter: its lower-case form is not what ASCII makes of it. -/
def IsForeignCapital (c : Char) : Prop := c = 'İ' ∨ lowerChar c ≠ c.toLower

instance (c : Char) : Decidable (IsForeignCapital c) :=
  inferInstanceAs (Decidable (_ ∨ _))

/-! ### Characters -/

theorem mem_of_findCaseRun {n : Nat} {runs : List CaseRun} {r : CaseRun}
    (h : findCaseRun n runs = some r) : r ∈ runs ∧ r.holds n = true := by
  induction runs with
  | nil => cases h
  | cons run runs ih =>
    unfold findCaseRun at h
    split at h
    · cases h
    · split at h
      next hholds =>
        cases h
        exact ⟨List.mem_cons_self, hholds⟩
      next =>
        obtain ⟨hmem, hholds⟩ := ih h
        exact ⟨List.mem_cons_of_mem run hmem, hholds⟩

theorem toNat_ofNat_eq_or (n : Nat) : (Char.ofNat n).toNat = n ∨ (Char.ofNat n).toNat = 0 := by
  by_cases hvalid : n.isValidChar
  · left
    exact congrArg Char.toNat (dif_pos hvalid)
  · right
    exact congrArg Char.toNat (dif_neg hvalid)

/-- A character stays as it is in lower case, or becomes one behind the ASCII capitals and the signs
that follow them. -/
theorem lowerChar_eq_or (c : Char) :
    lowerChar c = c ∨ (lowerChar c).toNat = 0 ∨ 0x60 < (lowerChar c).toNat := by
  cases hrun : findCaseRun c.toNat caseRuns with
  | none =>
    left
    unfold lowerChar
    rw [hrun]
  | some r =>
    obtain ⟨hmem, hholds⟩ := mem_of_findCaseRun hrun
    have hfirst : r.first ≤ c.toNat := by
      simp only [CaseRun.holds, Bool.and_eq_true, decide_eq_true_eq] at hholds
      exact hholds.1.1
    -- so does the first capital of every run
    have hruns : ∀ r ∈ caseRuns, (0x60 : Int) < r.first + r.shift := by decide +kernel
    have habove := hruns r hmem
    have hform : lowerChar c = Char.ofNat (c.toNat + r.shift).toNat := by
      unfold lowerChar
      rw [hrun]
    rw [hform]
    rcases toNat_ofNat_eq_or (c.toNat + r.shift).toNat with hsame | hzero
    · right; right
      omega
    · exact .inr (.inl hzero)

/-- No lower-case form is an ASCII capital. -/
theorem isUpper_lowerChar (c : Char) : (lowerChar c).isUpper = false := by
  by_contra hupper
  obtain ⟨i, hi, heq⟩ := exists_of_isUpper (eq_true_of_ne_false hupper)
  have hcapital : ∀ i < 26, (Char.ofNat (0x41 + i)).toNat = 0x41 + i ∧
      lowerChar (Char.ofNat (0x41 + i)) ≠ Char.ofNat (0x41 + i) := by decide
  obtain ⟨hvalue, hmoves⟩ := hcapital i hi
  rcases lowerChar_eq_or c with hself | hzero | habove
  · rw [heq] at hself
    exact hmoves (hself ▸ heq)
  · rw [heq] at hzero
    omega
  · rw [heq] at habove
    omega

/-! ### Texts -/

/-- What a character becomes in lower case is not empty and has no ASCII capitals. -/
theorem lowerIn_spec (before : List Char) (c : Char) (after : List Char) :
    lowerIn before c after ≠ [] ∧ asciiLower (lowerIn before c after) = lowerIn before c after := by
  unfold lowerIn
  split
  · refine ⟨List.cons_ne_nil _ _, ?_⟩
    split <;> decide
  · split
    · decide
    · refine ⟨List.cons_ne_nil _ _, ?_⟩
      rw [asciiLower_cons, toLower_of_not_isUpper (isUpper_lowerChar c), asciiLower_nil]

/-- Characters that lower case brings into a text stand behind the ASCII capitals and the signs that
follow them. -/
theorem mem_of_mem_lowerFrom {before s : List Char} {d : Char} (h : d ∈ lowerFrom before s) :
    d ∈ s ∨ d.toNat = 0 ∨ 0x60 < d.toNat := by
  induction s generalizing before with
  | nil => cases h
  | cons c s ih =>
    rcases List.mem_append.mp h with h | h
    · unfold lowerIn at h
      split at h
      · -- both small sigmas
        have hsigma : d = 'ς' ∨ d = 'σ' := by
          rw [List.mem_singleton.mp h]
          exact ite_eq_or_eq ..
        rcases hsigma with rfl | rfl <;> exact .inr (.inr (by decide))
      · split at h
        · rcases List.mem_pair.mp h with rfl | rfl <;> exact .inr (.inr (by decide))
        · rw [List.mem_singleton.mp h]
          rcases lowerChar_eq_or c with hself | hnew
          · rw [hself]
            exact .inl List.mem_cons_self
          · exact .inr hnew
    · rcases ih h with h | h
      · exact .inl (List.mem_cons_of_mem c h)
      · exact .inr h

theorem asciiLower_lowerFrom (before s : List Char) :
    asciiLower (lowerFrom before s) = lowerFrom before s := by
  induction s generalizing before with
  | nil => rfl
  | cons c s ih => rw [lowerFrom, asciiLower_append, (lowerIn_spec before c s).2, ih]

/-- A text in lower case has no ASCII capitals. -/
theorem asciiLower_lower (s : List Char) : asciiLower (lower s) = lower s :=
  asciiLower_lowerFrom [] s

theorem length_le_length_lowerFrom (before s : List Char) :
    s.length ≤ (lowerFrom before s).length := by
  induction s generalizing before with
  | nil => exact Nat.le_refl 0
  | cons c s ih =>
    have hpos := List.length_pos_of_ne_nil (lowerIn_spec before c s).1
    have hrest := ih (c :: before)
    rw [lowerFrom, List.length_append, List.length_cons]
    omega

/-- A text does not become shorter in lower case. -/
theorem length_le_length_lower (s : List Char) : s.length ≤ (lower s).length :=
  length_le_length_lowerFrom [] s

theorem lowerFrom_eq_asciiLower_iff (before s : List Char) :
    lowerFrom before s = asciiLower s ↔ ∀ c ∈ s, ¬IsForeignCapital c := by
  induction s generalizing before with
  | nil => exact iff_of_true rfl fun c hc => by cases hc
  | cons c s ih =>
    rw [lowerFrom, asciiLower_cons, List.forall_mem_cons, lowerIn]
    -- what the two additions to the table make of a character begins with another one than ASCII
    by_cases hsigma : c = 'Σ'
    · subst hsigma
      refine iff_of_false ?_ (fun h => h.1 (by decide))
      intro h
      obtain ⟨hhead, -⟩ := List.cons.inj h
      split at hhead <;> exact absurd hhead (by decide)
    · by_cases hdotted : c = 'İ'
      · subst hdotted
        refine iff_of_false ?_ (fun h => h.1 (by decide))
        intro h
        obtain ⟨hhead, -⟩ := List.cons.inj h
        exact absurd hhead (by decide)
      · rw [if_neg (by simpa using hsigma), if_neg (by simpa using hdotted), List.singleton_append,
          List.cons.injEq, ih]
        refine and_congr_left fun _ => ?_
        simp [IsForeignCapital, hdotted]

/-- The full lower-case form is the one in which only ASCII letters have case exactly if no other
letter is a capital. -/
theorem lower_eq_asciiLower_iff (s : List Char) :
    lower s = asciiLower s ↔ ∀ c ∈ s, ¬IsForeignCapital c :=
  lowerFrom_eq_asciiLower_iff [] s

end Harvest.Text
