/-!
# Parts of texts

## Main definitions

* `Text.holds` — whether a text contains another one
* `Text.endsWith` — whether a text ends with another one

## Main results

* `Text.holds_iff` — a text contains another one when it can be split around it
-/

namespace Harvest.Text

/-- Whether `s` contains `part`. -/
def holds (part : List Char) : List Char → Bool
  | [] => part.isEmpty
  | c :: s => part.isPrefixOf (c :: s) || holds part s

/-- Whether `s` ends with `part`. -/
def endsWith (part s : List Char) : Bool := part.reverse.isPrefixOf s.reverse

/-- A text contains another one exactly when it can be split around it. -/
theorem holds_iff (part s : List Char) : holds part s = true ↔ ∃ a b, s = a ++ part ++ b := by
  induction s with
  | nil =>
    rw [holds, List.isEmpty_iff]
    constructor
    · rintro rfl
      exact ⟨[], [], rfl⟩
    · rintro ⟨a, b, h⟩
      have h' := congrArg List.length h
      simp only [List.length_nil, List.length_append] at h'
      exact List.eq_nil_of_length_eq_zero (by omega)
  | cons c s ih =>
    simp only [holds, Bool.or_eq_true, List.isPrefixOf_iff_prefix, ih]
    constructor
    · rintro (⟨b, hb⟩ | ⟨a, b, rfl⟩)
      · exact ⟨[], b, by simp [hb]⟩
      · exact ⟨c :: a, b, by simp⟩
    · rintro ⟨a, b, h⟩
      cases a with
      | nil => exact Or.inl ⟨b, by simpa using h.symm⟩
      | cons d a =>
        simp only [List.cons_append, List.cons.injEq] at h
        exact Or.inr ⟨a, b, h.2⟩

end Harvest.Text
