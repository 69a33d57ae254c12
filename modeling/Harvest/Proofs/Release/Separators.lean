import Harvest.Proofs.Crawl.Accounting
import Harvest.Proofs.Pattern.Places

/-!
# Words of adult content behind separators

Release names have dots or underscores for spaces, and reading a name begins with putting the spaces
back. Words of adult content are searched for in the name as it is, where an underscore is a part of
a word like a letter. So a word that stands in the spaced name is not found if it stands next to an
underscore, or if it has a separator for a space inside.

## Main definitions

* `Release.adultText` — the words of adult content, wherever they stand
* `Release.spacedName` — a name with spaces for its separators
* `Release.Written`, `Release.Spoken` — a word of adult content of a name, and of the spaced name
* `Release.Hidden` — a word that separators keep from being found

## Main results

* `Release.isAdult_iff`, `Release.isAdult_spacedName_iff` — what the filter looks for
* `Release.evades_iff` — the entries that get past the filter by their separators
* `Release.underscores_evade` — one of them
-/

namespace Harvest

/-- The pattern between two word edges. -/
def Pattern.core : Pattern → Pattern
  | seq (seq wordEdge p) wordEdge => p
  | p => p

namespace Release

open Pattern

/-! ### Words of adult content -/

/-- The words of adult content, wherever they stand. -/
def adultText : Pattern := adultKeyword.core

theorem adultKeyword_eq : adultKeyword = word adultText := rfl

theorem isFree_adultText : adultText.isFree = true := by
  decide

/-- No word of adult content has an underscore. -/
theorem not_mem_of_takes_adultText {t : List Char} {gs : List (Nat × List Char)}
    (h : adultText.Takes t gs) : '_' ∉ t := by
  have hclasses : adultText.all (fun k => !k.contains '_') = true := by decide
  have hall := forall_mem_of_spells (Q := (· ≠ '_')) (fun k hk ch hch => ?_) hclasses
    (spells_of_takes isFree_adultText h)
  · exact fun hmem => hall '_' hmem rfl
  · rintro rfl
    simp [hch] at hk

/-- A word of adult content of a name: it is written between two other parts. -/
structure Written (s before t after : List Char) : Prop where
  parts : s = before ++ t ++ after
  stands : adultText.StandsIn before t after

/-- A word of adult content of the spaced form of a name, with the parts of the name that stand for
it. -/
structure Spoken (s before t after : List Char) : Prop where
  parts : s = before ++ t ++ after
  stands : adultText.StandsIn (spaceSeparators before) (spaceSeparators t) (spaceSeparators after)

/-- A name with spaces for its separators. -/
def spacedName (name : String) : String := String.ofList (spaceSeparators name.toList)

/-- The filter looks for words that are written in the name. -/
theorem isAdult_iff (name : String) :
    isAdult name = true ↔ ∃ before t after, Written name.toList before t after := by
  rw [isAdult, adultKeyword_eq, occursIn_word_iff isFree_adultText (by decide) (by decide)]
  exact exists₃_congr fun _ _ _ => ⟨fun ⟨h, h'⟩ => ⟨h, h'⟩, fun ⟨h, h'⟩ => ⟨h, h'⟩⟩

theorem spaceSeparators_append (s t : List Char) :
    spaceSeparators (s ++ t) = spaceSeparators s ++ spaceSeparators t := List.map_append

theorem isAdult_spacedName_iff (name : String) :
    isAdult (spacedName name) = true ↔ ∃ before t after, Spoken name.toList before t after := by
  rw [isAdult_iff, spacedName, String.toList_ofList]
  constructor
  · rintro ⟨_, _, _, hparts, hstands⟩
    obtain ⟨front, after, hname, hfront, rfl⟩ := List.map_eq_append_iff.mp hparts
    obtain ⟨before, t, rfl, rfl, rfl⟩ := List.map_eq_append_iff.mp hfront
    exact ⟨before, t, after, hname, hstands⟩
  · rintro ⟨before, t, after, hparts, hstands⟩
    exact ⟨_, _, _, by rw [hparts, spaceSeparators_append, spaceSeparators_append], hstands⟩

/-! ### Separators -/

/-- A word of the spaced name that separators keep from being found in the name: an underscore
stands directly before or behind it, or a separator stands inside. -/
def Hidden (before t after : List Char) : Prop :=
  before.getLast? = some '_' ∨ after.head? = some '_' ∨ '.' ∈ t ∨ '_' ∈ t

variable {s before t after : List Char}

theorem spaceSeparators_eq_self (hdot : '.' ∉ t) (hline : '_' ∉ t) : spaceSeparators t = t := by
  have hkept (ch : Char) (hch : ch ∈ t) : (if ch == '.' || ch == '_' then ' ' else ch) = id ch := by
    have hne : ch ≠ '.' ∧ ch ≠ '_' := ⟨fun h => hdot (h ▸ hch), fun h => hline (h ▸ hch)⟩
    simp [hne.1, hne.2]
  rw [spaceSeparators, List.map_congr_left hkept, List.map_id]

/-- A neighbour other than an underscore is a word character in the name exactly if it is one in the
spaced name. -/
theorem forall_isWordChar_spaced_iff {o : Option Char} (h : o ≠ some '_') :
    (∀ ch ∈ o.map fun c => if c == '.' || c == '_' then ' ' else c, Text.isWordChar ch = false) ↔
      ∀ ch ∈ o, Text.isWordChar ch = false := by
  cases o with
  | none => simp
  | some c =>
    have hline : c ≠ '_' := fun hc => h (hc ▸ rfl)
    by_cases hdot : c = '.'
    · -- neither the dot nor the space in its place is a word character
      obtain rfl := hdot
      have hwords : Text.isWordChar '.' = false ∧ Text.isWordChar ' ' = false := by decide
      simp [hwords.1, hwords.2]
    · simp [hline, hdot]

/-- A word that separators do not hide is written in the name if it stands in the spaced name, and
the other way round. -/
theorem standsIn_spaced_iff (h : ¬Hidden before t after) :
    adultText.StandsIn (spaceSeparators before) (spaceSeparators t) (spaceSeparators after) ↔
      adultText.StandsIn before t after := by
  obtain ⟨hlast, hhead, hdot, hline⟩ : before.getLast? ≠ some '_' ∧ after.head? ≠ some '_' ∧
      '.' ∉ t ∧ '_' ∉ t := by
    simpa only [Hidden, not_or] using h
  have hbefore := forall_isWordChar_spaced_iff hlast
  have hafter := forall_isWordChar_spaced_iff hhead
  rw [← List.getLast?_map] at hbefore
  rw [← List.head?_map] at hafter
  rw [spaceSeparators_eq_self hdot hline]
  constructor
  · rintro ⟨htakes, hb, ha⟩
    exact ⟨htakes, hbefore.mp hb, hafter.mp ha⟩
  · rintro ⟨htakes, hb, ha⟩
    exact ⟨htakes, hbefore.mpr hb, hafter.mpr ha⟩

/-- A word without a dot that is written in the name is not hidden. -/
theorem Written.not_hidden (h : Written s before t after) (hdot : '.' ∉ t) :
    ¬Hidden before t after := by
  have hword : Text.isWordChar '_' = true := by decide
  obtain ⟨gs, htakes⟩ := h.stands.takes
  rintro (hlast | hhead | hmem | hmem)
  · exact Bool.false_ne_true ((h.stands.before _ hlast).symm.trans hword)
  · exact Bool.false_ne_true ((h.stands.after _ hhead).symm.trans hword)
  · exact hdot hmem
  · exact not_mem_of_takes_adultText htakes hmem

theorem ofEntry_eq_adult_iff (e : Entry) :
    EntryVerdict.ofEntry e = .adult ↔ isAdult e.filename = true := by
  rw [← beq_iff_eq, EntryVerdict.beq_adult, Entry.isAdult]

/-- An entry gets past the filter although there is a word of adult content in the spaced form of its
name exactly if separators hide every such word and none with a dot is written in the name. -/
theorem evades_iff (e : Entry) :
    (isAdult (spacedName e.filename) = true ∧ EntryVerdict.ofEntry e ≠ .adult) ↔
      (∃ before t after, Spoken e.filename.toList before t after) ∧
      (∀ before t after, Spoken e.filename.toList before t after → Hidden before t after) ∧
      ∀ before t after, Written e.filename.toList before t after → '.' ∉ t := by
  rw [ne_eq, ofEntry_eq_adult_iff, isAdult_spacedName_iff, isAdult_iff]
  refine and_congr_right fun _ => ⟨fun hnone => ⟨?_, ?_⟩, ?_⟩
  · intro before t after hspoken
    by_contra hshown
    exact hnone ⟨before, t, after, hspoken.parts, (standsIn_spaced_iff hshown).mp hspoken.stands⟩
  · intro before t after hwritten
    exact absurd ⟨before, t, after, hwritten⟩ hnone
  · -- what is written without a dot also stands in the spaced name, and there it is not hidden
    rintro ⟨hhidden, hdotless⟩ ⟨before, t, after, hwritten⟩
    have hshown := hwritten.not_hidden (hdotless before t after hwritten)
    exact hshown (hhidden before t after
      ⟨hwritten.parts, (standsIn_spaced_iff hshown).mpr hwritten.stands⟩)

/-- Underscores hide the word from the filter. -/
theorem underscores_evade : isAdult (spacedName "Some_XXX_Release_1080p") = true ∧
    isAdult "Some_XXX_Release_1080p" = false ∧
      EntryVerdict.ofEntry ⟨"Some_XXX_Release_1080p", "", 0⟩ ≠ .adult := by
  have hpast : isAdult "Some_XXX_Release_1080p" = false := by decide
  refine ⟨by decide, hpast, fun hadult => ?_⟩
  cases hpast.symm.trans ((ofEntry_eq_adult_iff _).mp hadult)

end Release

end Harvest
