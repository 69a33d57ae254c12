import Harvest.Proofs.Release.Kinds
import Mathlib.Data.List.Forall2

/-!
# The numbers of quality tags

Picture heights, codings and brightness ranges have numbers in their names. None of these is taken
for a season or for an episode, whatever stands around the tag: letters stand in front of it or
behind it, and none of them is a letter that tells a season. Since the tags are given by a finite
list of spellings, this is a matter of looking at each number of each of them.

## Main definitions

* `Pattern.spellings` — the texts of a pattern without runs, with the forms of each letter
* `Release.qualityTags` — the tags
* `Release.isHarmless` — what may stand beside a number that no token takes

## Main results

* `Pattern.exists_spelling` — every text of a pattern is spelled so
* `Release.not_takenForSeason_of_isHarmless`, `Release.isDashed_of_isHarmless` — what is harmless is
  not taken
* `Release.not_taken_of_tag` — no number of a quality tag is taken
-/

namespace Harvest

/-! ### Spellings -/

/-- The characters of a class that is given by one of them. -/
def CharClass.forms : CharClass → List Char
  | only c => [c]
  | caseless c => c :: c.toUpper ::
      ((if c = 's' then ['ſ'] else []) ++ if c = 'k' then [Char.ofNat 0x212A] else [])
  | digit | nonDigit | blank | plainAlphanumeric | among _ | outside _ => []

namespace Pattern

variable {p : Pattern} {t : List Char}

/-- The texts of a pattern without runs, with all forms of each character. -/
def spellings : Pattern → List (List (List Char))
  | one k => [[k.forms]]
  | seq p q => p.spellings.flatMap fun a => q.spellings.map (a ++ ·)
  | either p q => p.spellings ++ q.spellings
  | group _ p => p.spellings
  | run _ _ _ => []
  | empty | wordEdge | start | stop => [[]]

/-- Whether a pattern has no runs, and gives its characters one by one. -/
def isSpelled : Pattern → Bool
  | one (.only _) | one (.caseless _) => true
  | one _ | run _ _ _ => false
  | seq p q | either p q => p.isSpelled && q.isSpelled
  | group _ p => p.isSpelled
  | empty | wordEdge | start | stop => true

/-- Every text of a pattern is one of its spellings. -/
theorem exists_spelling (hp : p.isSpelled = true) (h : p.Spells t) :
    ∃ w ∈ p.spellings, List.Forall₂ (· ∈ ·) t w := by
  induction p generalizing t with
  | one k =>
    obtain ⟨ch, rfl, hch⟩ := h
    refine ⟨_, List.mem_singleton_self _, .cons ?_ .nil⟩
    cases k with
    | only c =>
      obtain rfl : ch = c := beq_iff_eq.mp hch
      exact List.mem_singleton_self ch
    | caseless c =>
      simp only [CharClass.contains, CharClass.sameLetter, Bool.or_eq_true, Bool.and_eq_true,
        beq_iff_eq] at hch
      rcases hch with ((rfl | rfl) | ⟨rfl, rfl⟩) | ⟨rfl, hkelvin⟩
      · exact List.mem_cons_self
      · exact List.mem_cons_of_mem _ List.mem_cons_self
      · decide
      · obtain rfl : ch = Char.ofNat 0x212A := by rw [← hkelvin, Char.ofNat_toNat]
        decide
    | _ => cases hp
  | seq p q ihp ihq =>
    obtain ⟨hp, hq⟩ := Bool.and_eq_true_iff.mp hp
    obtain ⟨a, b, rfl, ha, hb⟩ := h
    obtain ⟨v, hv, hav⟩ := ihp hp ha
    obtain ⟨w, hw, hbw⟩ := ihq hq hb
    exact ⟨v ++ w, List.mem_flatMap_of_mem hv (List.mem_map_of_mem hw),
      List.rel_append hav hbw⟩
  | either p q ihp ihq =>
    obtain ⟨hp, hq⟩ := Bool.and_eq_true_iff.mp hp
    rcases h with h | h
    · obtain ⟨w, hw, ht⟩ := ihp hp h
      exact ⟨w, List.mem_append_left _ hw, ht⟩
    · obtain ⟨w, hw, ht⟩ := ihq hq h
      exact ⟨w, List.mem_append_right _ hw, ht⟩
  | group n p ih => exact ih hp h
  | run k least most => cases hp
  | empty | wordEdge | start | stop =>
    obtain rfl : t = [] := h
    exact ⟨[], List.mem_singleton_self _, .nil⟩

end Pattern

namespace Release

open Pattern

/-! ### Harmless numbers -/

/-- Whether a character stands for a letter. -/
def isForm (l : Char) (ch : Char) : Bool := (CharClass.caseless l).contains ch

/-- Whether no token takes a number with `n` digits for a season or for an episode, if one of the
given characters stands in front of it and behind it; none is given where no word goes on. -/
def isHarmless (before : Option (List Char)) (n : Nat) (behind : Option (List Char)) : Bool :=
  before.all (·.all fun ch => !isForm 's' ch) &&
  (2 < n || behind.any (·.all Text.isWordChar) ||
    before.any (·.all fun ch => !isForm 'n' ch && !Text.isBlank ch)) &&
  (2 < n || before.any (·.all Text.isWordChar) || behind.all (·.all fun ch => !isForm 'x' ch)) &&
  (4 < n || behind.any (·.all Text.isWordChar) || before.any (·.all fun ch => !Text.isBlank ch))

/-- One of the given characters stands beside a number; none is given where no word goes on. -/
def Fits (o : Option (List Char)) (a : Option Char) : Prop :=
  match o with
  | some cs => ∃ ch ∈ cs, a = some ch
  | none => ∀ ch ∈ a, Text.isWordChar ch = false

variable {c : Cursor} {o before behind : Option (List Char)} {a : Option Char} {P : Char → Bool}

theorem Fits.of_any (h : Fits o a) (ho : o.any (·.all P) = true) :
    ∃ ch, a = some ch ∧ P ch = true := by
  cases o with
  | none => cases ho
  | some cs =>
    obtain ⟨ch, hch, rfl⟩ := h
    exact ⟨ch, rfl, List.all_eq_true.mp ho ch hch⟩

theorem Fits.of_all (h : Fits o a) (ho : o.all (·.all P) = true) :
    ∀ ch ∈ a, P ch = true ∨ Text.isWordChar ch = false := by
  cases o with
  | none => exact fun ch hch => .inr (h ch hch)
  | some cs =>
    obtain ⟨ch, hch, rfl⟩ := h
    intro ch' hch'
    obtain rfl : ch = ch' := Option.some.inj hch'
    exact .inl (List.all_eq_true.mp ho ch hch)

/-- A letter is a part of a word. -/
theorem isWordChar_of_isForm {l ch : Char} (hl : CharClass.isWordy (.caseless l) = true)
    (h : isForm l ch = true) : Text.isWordChar ch = true :=
  CharClass.isWordChar_of_contains hl ch h

theorem isHarmless_iff {n : Nat} : isHarmless before n behind = true ↔
    before.all (·.all fun ch => !isForm 's' ch) = true ∧
    (2 < n ∨ behind.any (·.all Text.isWordChar) = true ∨
      before.any (·.all fun ch => !isForm 'n' ch && !Text.isBlank ch) = true) ∧
    (2 < n ∨ before.any (·.all Text.isWordChar) = true ∨
      behind.all (·.all fun ch => !isForm 'x' ch) = true) ∧
    (4 < n ∨ behind.any (·.all Text.isWordChar) = true ∨
      before.any (·.all fun ch => !Text.isBlank ch) = true) := by
  simp only [isHarmless, Bool.and_eq_true, Bool.or_eq_true, decide_eq_true_eq, and_assoc, or_assoc]

/-- A harmless number is not taken for a season. -/
theorem not_takenForSeason_of_isHarmless (hbefore : Fits before c.seen.head?)
    (hbehind : Fits behind c.behind) (h : isHarmless before c.number.length behind = true) :
    ¬c.TakenForSeason := by
  obtain ⟨hletter, hword, hcross, -⟩ := isHarmless_iff.mp h
  intro htaken
  cases htaken with
  | letter hfront =>
    obtain ⟨ch, hch, hform⟩ := hfront
    rcases hbefore.of_all hletter ch hch with hnot | hnot
    · simp [isForm, hform] at hnot
    · cases hnot.symm.trans (isWordChar_of_isForm (by decide) hform)
  | word hfront hlength hafter =>
    rcases hword with hlong | hnext | hprevious
    · omega
    · obtain ⟨ch, hch, hgoes⟩ := hbehind.of_any hnext
      cases (hafter ch hch).symm.trans hgoes
    · obtain ⟨ch, hch, hform⟩ := hfront
      obtain ⟨ch', hch', hnot⟩ := hbefore.of_any hprevious
      obtain rfl : ch' = ch := Option.some.inj (hch'.symm.trans hch)
      rcases hform with hform | hblank
      · simp [isForm, hform] at hnot
      · simp [hblank] at hnot
  | cross hfront hlength hafter =>
    rcases hcross with hlong | hprevious | hnext
    · omega
    · obtain ⟨ch, hch, hgoes⟩ := hbefore.of_any hprevious
      cases (hfront ch hch).symm.trans hgoes
    · obtain ⟨ch, hch, hform⟩ := hafter
      rcases hbehind.of_all hnext ch hch with hnot | hnot
      · simp [isForm, hform] at hnot
      · cases hnot.symm.trans (isWordChar_of_isForm (by decide) hform)

/-- A harmless number is not taken for an episode. -/
theorem isDashed_of_isHarmless (hbefore : Fits before c.seen.head?)
    (hbehind : Fits behind c.behind) (h : isHarmless before c.number.length behind = true) :
    c.isDashed = false := by
  obtain ⟨-, -, -, hdash⟩ := isHarmless_iff.mp h
  refine Bool.eq_false_iff.mpr fun hdashed => ?_
  obtain ⟨hfront, -, hlength, hafter⟩ := Cursor.isDashed_iff.mp hdashed
  obtain ⟨_, b, seen, hseen, -, hb⟩ := Cursor.afterDash_iff.mp hfront
  rcases hdash with hlong | hnext | hprevious
  · omega
  · obtain ⟨ch, hch, hgoes⟩ := hbehind.of_any hnext
    cases (hafter ch hch).symm.trans hgoes
  · obtain ⟨ch, hch, hnot⟩ := hbefore.of_any hprevious
    obtain rfl : b = ch := by simpa [hseen] using hch
    simp [hb] at hnot

/-! ### Quality tags -/

/-- The tags for picture heights, sources, codings and brightness ranges. -/
def qualityTags : List Pattern := qualityToken :: anyWord ["hdr10"] :: codecs.map (·.1)

/-- Whether all characters are decimal digits. -/
def isDigits (cs : List Char) : Bool := cs.all Text.isDecimalDigit

/-- Whether each place of a spelling has only digits or no digit. -/
def tellsDigits (w : List (List Char)) : Bool :=
  w.all fun cs => isDigits cs || cs.all (!Text.isDecimalDigit ·)

/-- Whether a spelling tells its digits, and each of its numbers is harmless. -/
def hasHarmlessNumbers (w : List (List Char)) : Bool :=
  tellsDigits w &&
  (List.range w.length).all fun m =>
    !(w.drop m).head?.any isDigits || (w.take m).getLast?.any isDigits ||
      isHarmless (w.take m).getLast? ((w.drop m).takeWhile isDigits).length
        ((w.drop m).dropWhile isDigits).head?

/-- Quality tags are words with harmless numbers. -/
theorem exists_of_mem_qualityTags {p : Pattern} (hp : p ∈ qualityTags) :
    ∃ q, p = word q ∧ q.isSpelled = true ∧ q.spellings.all hasHarmlessNumbers = true := by
  simp only [qualityTags, codecs, List.map_cons, List.map_nil, List.mem_cons, List.not_mem_nil,
    or_false] at hp
  rcases hp with rfl | rfl | rfl | rfl | rfl | rfl
  all_goals exact ⟨_, rfl, by decide +kernel, by decide +kernel⟩

/-- The digits of a spelled text are where its spelling has digits. -/
theorem forall₂_digits {t : List Char} {w : List (List Char)} (h : List.Forall₂ (· ∈ ·) t w)
    (hw : tellsDigits w = true) :
    (w.takeWhile isDigits).length = (t.takeWhile Text.isDecimalDigit).length ∧
      List.Forall₂ (· ∈ ·) (t.dropWhile Text.isDecimalDigit) (w.dropWhile isDigits) := by
  induction h with
  | nil => exact ⟨rfl, .nil⟩
  | @cons ch cs t w hch htw ih =>
    rw [tellsDigits, List.all_cons, Bool.and_eq_true, Bool.or_eq_true] at hw
    obtain ⟨hcs, hw⟩ := hw
    by_cases hdigits : isDigits cs = true
    · have hdigit : Text.isDecimalDigit ch = true := List.all_eq_true.mp hdigits ch hch
      obtain ⟨hlength, hrest⟩ := ih hw
      simpa [hdigits, hdigit, hlength] using hrest
    · have hdigit : Text.isDecimalDigit ch = false := by
        simpa using List.all_eq_true.mp (hcs.resolve_left hdigits) ch hch
      simpa [hdigits, hdigit] using List.Forall₂.cons (R := (· ∈ ·)) hch htw

/-- The next character is one of the text, or no word goes on behind it. -/
theorem fits_head {t rest : List Char} {w : List (List Char)} (h : List.Forall₂ (· ∈ ·) t w)
    (hrest : t = [] → ∀ ch ∈ rest.head?, Text.isWordChar ch = false) :
    Fits w.head? (t ++ rest).head? := by
  cases h with
  | nil => exact hrest rfl
  | cons hch htw => exact ⟨_, hch, rfl⟩

/-- A number is not taken that is harmless in a text between word edges. -/
theorem not_taken_of_spelled {seen rest ds t₁ t₃ : List Char} {w₁ w₃ : List (List Char)}
    (h₁ : List.Forall₂ (· ∈ ·) t₁ w₁) (h₃ : List.Forall₂ (· ∈ ·) t₃ w₃)
    (hds : ∀ ch ∈ ds, Text.isDecimalDigit ch = true) (hne : ds ≠ [])
    (ht₃ : ∀ ch ∈ t₃.head?, Text.isDecimalDigit ch = false)
    (hharmless : isHarmless w₁.getLast? ds.length w₃.head? = true)
    (hstart : Cursor.atWordEdge ⟨seen, t₁ ++ (ds ++ (t₃ ++ rest))⟩ = true)
    (hend : Cursor.atWordEdge ⟨(t₁ ++ (ds ++ t₃)).reverse ++ seen, rest⟩ = true) :
    ¬Cursor.TakenForSeason ⟨t₁.reverse ++ seen, ds ++ (t₃ ++ rest)⟩ ∧
      Cursor.isDashed ⟨t₁.reverse ++ seen, ds ++ (t₃ ++ rest)⟩ = false := by
  have hafter : t₃ = [] → ∀ ch ∈ rest.head?, Text.isWordChar ch = false := by
    rintro rfl
    rw [List.append_nil, List.reverse_append, List.append_assoc] at hend
    exact (atWordEdge_digits_iff hds hne).mp hend
  have hbefore : t₁.reverse = [] → ∀ ch ∈ seen.head?, Text.isWordChar ch = false := by
    intro hnil
    rw [List.reverse_eq_nil_iff.mp hnil] at hstart
    exact not_isWordChar_of_digits (q := ⟨seen, _⟩) rfl hds hne hstart
  have hstop : ∀ ch ∈ (t₃ ++ rest).head?, Text.isDecimalDigit ch = false := by
    cases t₃ with
    | nil => exact fun ch hch => Text.isDecimalDigit_eq_false (hafter rfl ch hch)
    | cons ch t₃ => exact ht₃
  obtain ⟨hnumber, hbehind⟩ := Cursor.number_eq (c := ⟨t₁.reverse ++ seen, _⟩) rfl hds hstop
  have hfront : Fits w₁.getLast? (t₁.reverse ++ seen).head? := by
    rw [List.getLast?_eq_head?_reverse]
    exact fits_head (List.rel_reverse h₁) hbefore
  have hback : Fits w₃.head? (Cursor.behind ⟨t₁.reverse ++ seen, ds ++ (t₃ ++ rest)⟩) := by
    rw [hbehind]
    exact fits_head h₃ hafter
  rw [← hnumber] at hharmless
  exact ⟨not_takenForSeason_of_isHarmless hfront hback hharmless,
    isDashed_of_isHarmless hfront hback hharmless⟩

/-- Where a number begins in a spelled text, digits begin in its spelling. -/
theorem digits_of_beginsNumber {seen rest t₁ t₂ : List Char} {w₁ w₂ : List (List Char)}
    (h₁ : List.Forall₂ (· ∈ ·) t₁ w₁) (h₂ : List.Forall₂ (· ∈ ·) t₂ w₂) (hne : t₂ ≠ [])
    (hw₂ : tellsDigits w₂ = true)
    (hn : Cursor.beginsNumber ⟨t₁.reverse ++ seen, t₂ ++ rest⟩ = true) :
    t₂.takeWhile Text.isDecimalDigit ≠ [] ∧ w₂.head?.any isDigits = true ∧
      w₁.getLast?.any isDigits = false := by
  obtain ⟨hfirst, hprevious⟩ := Bool.and_eq_true_iff.mp hn
  rw [Bool.not_eq_true'] at hprevious
  refine ⟨?_, ?_, ?_⟩
  · obtain ⟨d, t₂, rfl⟩ := List.exists_cons_of_ne_nil hne
    have hd : Text.isDecimalDigit d = true := by simpa using hfirst
    rw [List.takeWhile_cons_of_pos hd]
    exact List.cons_ne_nil _ _
  · cases h₂ with
    | nil => exact absurd rfl hne
    | @cons d cs t w hd htw =>
      have hdigit : Text.isDecimalDigit d = true := by simpa using hfirst
      rw [tellsDigits, List.all_cons, Bool.and_eq_true, Bool.or_eq_true] at hw₂
      refine hw₂.1.resolve_right fun hnone => ?_
      simpa [hdigit] using List.all_eq_true.mp hnone d hd
  · rw [List.getLast?_eq_head?_reverse]
    have hreverse := List.rel_reverse h₁
    revert hprevious hreverse
    generalize t₁.reverse = u, w₁.reverse = v
    intro hprevious hreverse
    cases hreverse with
    | nil => rfl
    | @cons ch cs u v hch huv =>
      have hdigit : Text.isDecimalDigit ch = false := by simpa using hprevious
      refine Bool.eq_false_iff.mpr fun hdigits => ?_
      cases (List.all_eq_true.mp hdigits ch hch).symm.trans hdigit

/-- No number is taken of a text between word edges whose spelling has only harmless numbers. -/
theorem not_taken_of_hasHarmlessNumbers {seen rest t : List Char} {w : List (List Char)} {m : Nat}
    (htw : List.Forall₂ (· ∈ ·) t w) (hw : hasHarmlessNumbers w = true) (hm : m < t.length)
    (hstart : Cursor.atWordEdge ⟨seen, t ++ rest⟩ = true)
    (hend : Cursor.atWordEdge ⟨t.reverse ++ seen, rest⟩ = true)
    (hn : Cursor.beginsNumber ⟨(t.take m).reverse ++ seen, t.drop m ++ rest⟩ = true) :
    ¬Cursor.TakenForSeason ⟨(t.take m).reverse ++ seen, t.drop m ++ rest⟩ ∧
      Cursor.isDashed ⟨(t.take m).reverse ++ seen, t.drop m ++ rest⟩ = false := by
  rw [hasHarmlessNumbers, Bool.and_eq_true, List.all_eq_true (l := List.range _)] at hw
  obtain ⟨htold, hcheck⟩ := hw
  have htold' : tellsDigits (w.drop m) = true :=
    List.all_eq_true.mpr fun cs hcs => List.all_eq_true.mp htold cs (List.mem_of_mem_drop hcs)
  have h₁ := List.forall₂_take m htw
  have h₂ := List.forall₂_drop m htw
  -- the spelling has the number at the same place
  obtain ⟨hne, hdigits, hnone⟩ := digits_of_beginsNumber h₁ h₂ (by simpa using hm) htold' hn
  have hhere := hcheck m (List.mem_range.mpr (htw.length_eq ▸ hm))
  rw [hdigits, hnone] at hhere
  obtain ⟨hcount, h₃⟩ := forall₂_digits h₂ htold'
  have hparts : t = t.take m ++ ((t.drop m).takeWhile Text.isDecimalDigit ++
      (t.drop m).dropWhile Text.isDecimalDigit) := by
    rw [List.takeWhile_append_dropWhile, List.take_append_drop]
  rw [← List.takeWhile_append_dropWhile (p := Text.isDecimalDigit) (l := t.drop m),
    List.append_assoc]
  refine not_taken_of_spelled h₁ h₃ (fun ch hch => List.mem_takeWhile_imp hch) hne ?_ ?_ ?_ ?_
  · intro ch hch
    have hstop := List.head?_dropWhile_not Text.isDecimalDigit (t.drop m)
    rwa [hch] at hstop
  · simpa [hcount] using hhere
  · rw [← List.append_assoc (List.takeWhile ..), ← List.append_assoc, ← hparts]
    exact hstart
  · rw [← hparts]
    exact hend

/-- No number of a quality tag is taken for a season or for an episode. -/
theorem not_taken_of_tag {p : Pattern} {s : List Char} {f : Found} {i : Nat}
    (hp : p ∈ qualityTags) (hf : p.IsMatch s f) (hlow : f.offset ≤ i)
    (hhigh : i < f.way.cursor.offset) (hn : (Cursor.after s i).beginsNumber = true) :
    ¬(Cursor.after s i).TakenForSeason ∧ (Cursor.after s i).isDashed = false := by
  obtain ⟨q, rfl, hspelled, hharmless⟩ := exists_of_mem_qualityTags hp
  obtain ⟨hstart, hway, hend⟩ := mem_ways_word_iff.mp hf.way
  obtain ⟨t, ht, hrest, hseen⟩ := exists_spelled hway
  obtain ⟨w, hw, htw⟩ := exists_spelling hspelled ht
  obtain ⟨m, rfl⟩ := Nat.exists_eq_add_of_le hlow
  have hm : m < t.length := by
    have hoffset : f.way.cursor.offset = t.length + f.offset := by
      rw [Cursor.offset, hseen, List.length_append, List.length_reverse]
      rfl
    omega
  have hplace : Cursor.after s (f.offset + m) =
      ⟨(t.take m).reverse ++ f.start.seen, t.drop m ++ f.way.cursor.rest⟩ := by
    have hparts : f.start.rest = t.take m ++ (t.drop m ++ f.way.cursor.rest) := by
      rw [← List.append_assoc, List.take_append_drop]
      exact hrest
    have hafter := Cursor.after_offset_add hf.start hparts
    rwa [List.length_take_of_le (Nat.le_of_lt hm)] at hafter
  rw [hplace] at hn ⊢
  refine not_taken_of_hasHarmlessNumbers htw (List.all_eq_true.mp hharmless w hw) hm ?_ ?_ hn
  · rw [← show f.start.rest = t ++ f.way.cursor.rest from hrest]
    exact hstart
  · rw [← hseen]
    exact hend

end Release

end Harvest
