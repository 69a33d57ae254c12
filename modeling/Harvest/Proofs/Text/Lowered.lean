import Harvest.Proofs.Text.Capitals

/-!
# Texts in lower case

Lower case leaves nothing to put in lower case: no character of the full lower-case form of a text is
a capital of any script. So a text made of such characters stays as it is, wherever they stand, and
lower case is done once and for all.

## Main definitions

* `Text.IsLowered` — a character that is no capital of any script

## Main results

* `Text.isLowered_of_mem_lower` — the characters of a text in lower case
* `Text.lower_of_isLowered` — a text without capitals stays as it is
* `Text.lower_lower` — lower case is done once and for all
-/

namespace Harvest.Text

/-- A character that is no capital of any script. -/
def IsLowered (c : Char) : Prop := findCaseRun c.toNat caseRuns = none ∧ c ≠ 'İ'

instance (c : Char) : Decidable (IsLowered c) :=
  inferInstanceAs (Decidable (_ ∧ _))

/-! ### The table of capitals -/

/-- Whether the lower-case forms of the run `r` are none of the capitals of the run `q`: they lie in
front of them, behind them, or in the gaps between them. -/
def CaseRun.avoids (r q : CaseRun) : Bool :=
  let first := (r.first + r.shift).toNat
  let last := (r.last + r.shift).toNat
  Nat.blt 0 first && (Nat.blt last q.first || Nat.blt q.last first ||
    (first % 2 != q.first % 2 && q.step == 2 && (r.step == 2 || r.first == r.last)))

theorem CaseRun.avoids.not_holds {r q : CaseRun} {n : Nat} (h : r.avoids q = true)
    (hn : r.holds n = true) : q.holds (n + r.shift).toNat = false := by
  refine eq_false_of_ne_true fun hq => ?_
  simp only [holds, Bool.and_eq_true, decide_eq_true_eq, beq_iff_eq] at hn hq
  simp only [avoids, Bool.and_eq_true, Bool.or_eq_true, Nat.blt_eq, bne_iff_ne, beq_iff_eq] at h
  obtain ⟨⟨hfirst, hlast⟩, hstep⟩ := hn
  obtain ⟨⟨hqfirst, hqlast⟩, hqstep⟩ := hq
  obtain ⟨hpos, (hfront | hbehind) | ⟨⟨hparity, hqtwo⟩, hgap⟩⟩ := h
  · omega
  · omega
  · rw [hqtwo] at hqstep
    rcases hgap with htwo | hone
    · rw [htwo] at hstep
      omega
    · omega

theorem avoids_caseRuns : caseRuns.all (fun r => caseRuns.all r.avoids) = true := by
  decide +kernel

theorem findCaseRun_of_holds {r : CaseRun} {n : Nat} (hr : r ∈ caseRuns) (hn : r.holds n = true) :
    findCaseRun (n + r.shift).toNat caseRuns = none := by
  rw [Option.eq_none_iff_forall_ne_some]
  intro q hq
  obtain ⟨hmem, hholds⟩ := mem_of_findCaseRun hq
  have havoids := List.all_eq_true.mp (List.all_eq_true.mp avoids_caseRuns r hr) q hmem
  exact ne_true_of_eq_false (CaseRun.avoids.not_holds havoids hn) hholds

/-- No lower-case form is the capital I with a dot. -/
theorem ne_dotted_of_holds {r : CaseRun} {n : Nat} (hr : r ∈ caseRuns) (hn : r.holds n = true) :
    (n + r.shift).toNat ≠ 'İ'.toNat := by
  have hall : ∀ r ∈ caseRuns,
      (r.last + r.shift).toNat < 'İ'.toNat ∨ 'İ'.toNat < (r.first + r.shift).toNat := by
    decide +kernel
  simp only [CaseRun.holds, Bool.and_eq_true, decide_eq_true_eq] at hn
  have hside := hall r hr
  omega

/-! ### Characters -/

variable {c d : Char}

theorem isLowered_lowerChar (hc : c ≠ 'İ') : IsLowered (lowerChar c) := by
  cases hrun : findCaseRun c.toNat caseRuns with
  | none =>
    have hself : lowerChar c = c := by
      unfold lowerChar
      rw [hrun]
    rw [hself]
    exact ⟨hrun, hc⟩
  | some r =>
    obtain ⟨hmem, hholds⟩ := mem_of_findCaseRun hrun
    have hform : lowerChar c = Char.ofNat (c.toNat + r.shift).toNat := by
      unfold lowerChar
      rw [hrun]
    rw [hform]
    rcases toNat_ofNat_eq_or (c.toNat + r.shift).toNat with hsame | hzero
    · refine ⟨?_, fun heq => ne_dotted_of_holds hmem hholds ?_⟩
      · rw [hsame]
        exact findCaseRun_of_holds hmem hholds
      · rw [← hsame, heq]
    · refine ⟨?_, fun heq => ?_⟩
      · rw [hzero]
        decide
      · rw [heq] at hzero
        exact absurd hzero (by decide)

theorem IsLowered.lowerIn (h : IsLowered c) (before after : List Char) :
    lowerIn before c after = [c] := by
  have hsigma : c ≠ 'Σ' := by
    rintro rfl
    exact absurd h.1 (by decide)
  have hself : lowerChar c = c := by
    unfold lowerChar
    rw [h.1]
  rw [Text.lowerIn, if_neg (by simpa using hsigma), if_neg (by simpa using h.2), hself]

theorem isLowered_of_mem_lowerIn {before after : List Char} (h : d ∈ lowerIn before c after) :
    IsLowered d := by
  unfold lowerIn at h
  split at h
  · -- both small sigmas
    have hsigma : d = 'ς' ∨ d = 'σ' := by
      rw [List.mem_singleton.mp h]
      exact ite_eq_or_eq ..
    rcases hsigma with rfl | rfl <;> decide
  · split at h
    · rcases List.mem_pair.mp h with rfl | rfl <;> decide
    next hdotted =>
      rw [List.mem_singleton.mp h]
      exact isLowered_lowerChar (by simpa using hdotted)

/-! ### Texts -/

theorem isLowered_of_mem_lowerFrom {before s : List Char} (h : d ∈ lowerFrom before s) :
    IsLowered d := by
  induction s generalizing before with
  | nil => cases h
  | cons c s ih => exact (List.mem_append.mp h).elim isLowered_of_mem_lowerIn ih

/-- The characters of a text in lower case are no capitals. -/
theorem isLowered_of_mem_lower {s : List Char} (h : d ∈ lower s) : IsLowered d :=
  isLowered_of_mem_lowerFrom h

/-- A text without capitals stays as it is. -/
theorem lower_of_isLowered {s : List Char} (h : ∀ c ∈ s, IsLowered c) : lower s = s := by
  have hfrom : ∀ before, lowerFrom before s = s := by
    induction s with
    | nil => exact fun before => rfl
    | cons c s ih =>
      obtain ⟨hc, hs⟩ := List.forall_mem_cons.mp h
      intro before
      rw [lowerFrom, hc.lowerIn, ih hs, List.singleton_append]
  exact hfrom []

/-- Lower case is done once and for all. -/
@[simp] theorem lower_lower (s : List Char) : lower (lower s) = lower s :=
  lower_of_isLowered fun _ => isLowered_of_mem_lower

end Harvest.Text
