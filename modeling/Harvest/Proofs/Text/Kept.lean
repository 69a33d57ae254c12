import Harvest.Proofs.Text.Capitals
import Harvest.Text.Category

/-!
# What lower case keeps

A space has no case, and case does not look through it, so the texts on either side of a space are
put in lower case on their own. Letters and numbers stay letters and numbers.

## Main definitions

* `Text.covers`, `Text.misses` — a run of numbers lies in a set, or outside of it
* `Text.CaseRun.keeps` — the lower-case forms of a run of capitals are letters or numbers if the
  capitals are

## Main results

* `Text.lower_append_space` — a space parts a text in lower case
* `Text.exists_isTitleChar_lower` — a text with letters or numbers has some in lower case too
-/

namespace Harvest.Text

/-! ### Spaces -/

variable {s : List Char} {c : Char}

theorem startsCased_append_space (s t : List Char) :
    startsCased (s ++ ' ' :: t) = startsCased s := by
  have hspace : isCaseIgnorable ' ' = false ∧ isCased ' ' = false := by decide
  induction s with
  | nil => simp [startsCased, hspace]
  | cons c s ih =>
    by_cases hc : isCaseIgnorable c = true
    · simpa [startsCased, hc] using ih
    · simp [startsCased, hc]

/-- What stands in front of a space makes no difference behind it. -/
theorem lowerFrom_append_space (before rest s : List Char) :
    lowerFrom (before ++ ' ' :: rest) s = lowerFrom before s := by
  induction s generalizing before with
  | nil => rfl
  | cons c s ih =>
    have hhere : lowerIn (before ++ ' ' :: rest) c s = lowerIn before c s := by
      rw [lowerIn, startsCased_append_space, lowerIn]
    rw [lowerFrom, hhere, ← List.cons_append, ih, lowerFrom]

theorem lowerFrom_space (before s t : List Char) :
    lowerFrom before (s ++ ' ' :: t) = lowerFrom before s ++ ' ' :: lower t := by
  induction s generalizing before with
  | nil =>
    have hspace : lowerIn before ' ' t = [' '] := by
      simp [lowerIn, show lowerChar ' ' = ' ' by decide]
    have hrest : lowerFrom (' ' :: before) t = lower t := lowerFrom_append_space [] before t
    change lowerIn before ' ' t ++ lowerFrom (' ' :: before) t = ' ' :: lower t
    rw [hspace, hrest, List.singleton_append]
  | cons c s ih =>
    have hhere : lowerIn before c (s ++ ' ' :: t) = lowerIn before c s := by
      rw [lowerIn, startsCased_append_space, lowerIn]
    rw [List.cons_append, lowerFrom, hhere, ih, lowerFrom, List.append_assoc]

/-- A space parts a text in lower case. -/
theorem lower_append_space (s t : List Char) : lower (s ++ ' ' :: t) = lower s ++ ' ' :: lower t :=
  lowerFrom_space [] s t

/-! ### Letters and numbers -/

/-- Whether all numbers of a run lie in one run of a set. -/
def covers : List Nat → Nat → Nat → Bool
  | a :: b :: bounds, first, last =>
    Nat.ble a first && (Nat.blt last b || Nat.ble b first && covers bounds first last)
  | _, _, _ => false

/-- Whether all numbers of a run lie between two runs of a set. -/
def misses : List Nat → Nat → Nat → Bool
  | a :: b :: bounds, first, last => Nat.blt last a || Nat.ble b first && misses bounds first last
  | [a], _, last => Nat.blt last a
  | [], _, _ => true

theorem inside_of_covers {bounds : List Nat} {first last n : Nat}
    (h : covers bounds first last = true) (hfirst : first ≤ n) (hlast : n ≤ last) :
    inside bounds n = true := by
  fun_induction covers bounds first last with
  | case1 a b bounds first last ih =>
    simp only [Bool.and_eq_true, Bool.or_eq_true, Nat.ble_eq, Nat.blt_eq] at h
    obtain ⟨ha, hb | ⟨hb, hrest⟩⟩ := h
    · rw [inside_of_le _ (Nat.le_trans ha hfirst), inside_of_lt _ (Nat.lt_of_le_of_lt hlast hb)]
      rfl
    · rw [inside_of_le _ (Nat.le_trans ha hfirst), inside_of_le _ (Nat.le_trans hb hfirst),
        Bool.not_not]
      exact ih hrest hfirst hlast
  | case2 => cases h

theorem inside_of_misses {bounds : List Nat} {first last n : Nat}
    (h : misses bounds first last = true) (hfirst : first ≤ n) (hlast : n ≤ last) :
    inside bounds n = false := by
  fun_induction misses bounds first last with
  | case1 a b bounds first last ih =>
    simp only [Bool.and_eq_true, Bool.or_eq_true, Nat.ble_eq, Nat.blt_eq] at h
    by_cases ha : n < a
    · exact inside_of_lt _ ha
    · obtain ⟨hb, hrest⟩ := h.resolve_left fun hlt => ha (Nat.lt_of_le_of_lt hlast hlt)
      rw [inside_of_le _ (Nat.le_of_not_lt ha), inside_of_le _ (Nat.le_trans hb hfirst),
        Bool.not_not]
      exact ih hrest hfirst hlast
  | case2 a first last =>
    exact inside_of_lt _ (Nat.lt_of_le_of_lt hlast (by simpa using h))
  | case3 => rfl

/-- The boundary points of letters and of the kinds of numbers. -/
def titleBounds : List (List Nat) :=
  [letterBounds, decimalDigitBounds, letterNumberBounds, otherNumberBounds]

theorem isTitleChar_iff :
    isTitleChar c = true ↔ ∃ bounds ∈ titleBounds, inside bounds c.toNat = true := by
  simp [isTitleChar, isLetter, isNumber, isDecimalDigit, isLetterNumber, isOtherNumber, titleBounds,
    or_assoc]

/-- Whether the lower-case forms of a run are characters and all of one kind of letters or numbers,
or else the capitals are of no such kind. -/
def CaseRun.keeps (r : CaseRun) : Bool :=
  let first := (r.first + r.shift).toNat
  let last := (r.last + r.shift).toNat
  (Nat.blt last 0xD800 || Nat.blt 0xDFFF first && Nat.blt last 0x110000) &&
    (titleBounds.any (covers · first last) || titleBounds.all (misses · r.first r.last))

theorem keeps_caseRuns : caseRuns.all CaseRun.keeps = true := by
  decide +kernel

/-- The lower-case form of a letter or number that is a capital of a run is one, too. -/
theorem CaseRun.keeps.isTitleChar {r : CaseRun} (h : r.keeps = true)
    (hn : r.holds c.toNat = true) (hc : isTitleChar c = true) :
    isTitleChar (Char.ofNat (c.toNat + r.shift).toNat) = true := by
  simp only [holds, Bool.and_eq_true, decide_eq_true_eq] at hn
  simp only [keeps, Bool.and_eq_true, Bool.or_eq_true, Nat.blt_eq, List.any_eq_true,
    List.all_eq_true] at h
  obtain ⟨⟨hfirst, hlast⟩, -⟩ := hn
  obtain ⟨hvalid, ⟨bounds, hbounds, hcovers⟩ | hmisses⟩ := h
  · -- the number of the lower-case form is that of a character, so it is not replaced by another
    have hvalue : (Char.ofNat (c.toNat + r.shift).toNat).toNat = (c.toNat + r.shift).toNat := by
      refine congrArg Char.toNat (dif_pos (show Nat.isValidChar _ from ?_))
      unfold Nat.isValidChar
      omega
    refine isTitleChar_iff.mpr ⟨bounds, hbounds, ?_⟩
    rw [hvalue]
    exact inside_of_covers hcovers (by omega) (by omega)
  · -- capitals that are neither letters nor numbers, as those in circles
    obtain ⟨bounds, hbounds, hin⟩ := isTitleChar_iff.mp hc
    exact absurd hin (ne_true_of_eq_false (inside_of_misses (hmisses bounds hbounds) hfirst hlast))

/-- A letter or number is one in lower case too. -/
theorem isTitleChar_lowerChar (hc : isTitleChar c = true) : isTitleChar (lowerChar c) = true := by
  unfold lowerChar
  cases hrun : findCaseRun c.toNat caseRuns with
  | none => exact hc
  | some r =>
    obtain ⟨hmem, hholds⟩ := mem_of_findCaseRun hrun
    exact CaseRun.keeps.isTitleChar (List.all_eq_true.mp keeps_caseRuns r hmem) hholds hc

theorem exists_isTitleChar_lowerIn (before after : List Char) (hc : isTitleChar c = true) :
    ∃ d ∈ lowerIn before c after, isTitleChar d = true := by
  unfold lowerIn
  split
  · refine ⟨_, List.mem_singleton_self _, ?_⟩
    split <;> decide
  · split
    · exact ⟨'i', by simp, by decide⟩
    · exact ⟨_, List.mem_singleton_self _, isTitleChar_lowerChar hc⟩

theorem exists_isTitleChar_lowerFrom (before : List Char) (h : ∃ c ∈ s, isTitleChar c = true) :
    ∃ d ∈ lowerFrom before s, isTitleChar d = true := by
  induction s generalizing before with
  | nil =>
    obtain ⟨c, hmem, -⟩ := h
    cases hmem
  | cons c s ih =>
    rcases List.exists_mem_cons_iff .. |>.mp h with hc | hs
    · obtain ⟨d, hd, hkept⟩ := exists_isTitleChar_lowerIn before s hc
      exact ⟨d, List.mem_append_left _ hd, hkept⟩
    · obtain ⟨d, hd, hkept⟩ := ih (c :: before) hs
      exact ⟨d, List.mem_append_right _ hd, hkept⟩

/-- A text with letters or numbers has some in lower case too. -/
theorem exists_isTitleChar_lower (h : ∃ c ∈ s, isTitleChar c = true) :
    ∃ d ∈ lower s, isTitleChar d = true :=
  exists_isTitleChar_lowerFrom [] h

end Harvest.Text
