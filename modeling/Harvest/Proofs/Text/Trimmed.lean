import Harvest.Text.Category
import Mathlib.Data.List.DropRight

/-!
# Trimmed texts

What trimming leaves is a part of the text that neither begins nor ends with white space, and
nothing is left exactly of white space.

## Main definitions

* `Text.IsTrimmed` — no white space at the ends

## Main results

* `Text.isTrimmed_trim`, `Text.trim_infix`, `Text.trim_eq_nil_iff` — trimming
-/

namespace Harvest.Text

variable {s : List Char} {p : Char → Bool}

/-- A text that neither begins nor ends with white space. -/
structure IsTrimmed (s : List Char) : Prop where
  head : ∀ ch ∈ s.head?, isBlank ch = false
  last : ∀ ch ∈ s.getLast?, isBlank ch = false

theorem isPrefix_dropEndWhile (p : Char → Bool) (s : List Char) : dropEndWhile p s <+: s :=
  List.rdropWhile_prefix p s

theorem dropEndWhile_eq_nil_iff : dropEndWhile p s = [] ↔ ∀ ch ∈ s, p ch = true :=
  List.rdropWhile_eq_nil_iff

theorem not_of_mem_getLast?_dropEndWhile {ch : Char} (h : ch ∈ (dropEndWhile p s).getLast?) :
    p ch = false := by
  obtain ⟨hne, rfl⟩ := List.mem_getLast?_eq_getLast h
  exact Bool.eq_false_iff.mpr (List.rdropWhile_last_not p s hne)

theorem trim_infix (s : List Char) : trim s <:+: s :=
  (isPrefix_dropEndWhile isBlank _).isInfix.trans (List.dropWhile_suffix isBlank).isInfix

theorem trim_eq_nil_iff : trim s = [] ↔ ∀ ch ∈ s, isBlank ch = true := by
  rw [trim, dropBlanksEnd, dropEndWhile_eq_nil_iff]
  constructor
  · intro h
    -- what is left at the beginning is no white space, so nothing is left
    have hnil : s.dropWhile isBlank = [] := by
      by_contra hne
      have hhead := List.head_dropWhile_not isBlank hne
      rw [h _ (List.head_mem hne)] at hhead
      cases hhead
    exact List.dropWhile_eq_nil_iff.mp hnil
  · exact fun h ch hch => h ch ((List.dropWhile_suffix isBlank).subset hch)

theorem isTrimmed_trim (s : List Char) : IsTrimmed (trim s) where
  head ch hch := by
    obtain ⟨rest, hrest⟩ := isPrefix_dropEndWhile isBlank (s.dropWhile isBlank)
    have hhead : (s.dropWhile isBlank).head? = some ch := by
      rw [← hrest]
      exact List.mem_head?_append_of_mem_head? hch
    have hnot := List.head?_dropWhile_not isBlank s
    rwa [hhead] at hnot
  last _ hch := not_of_mem_getLast?_dropEndWhile hch

end Harvest.Text
