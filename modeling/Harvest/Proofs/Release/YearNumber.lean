import Harvest.Proofs.Release.QualityTags

/-!
# Years that are taken for episodes

The year of a release and its episodes are searched for in the same text, each without regard to
the other. A number behind a dash that stands alone is taken for an episode, so a year behind such a
dash is both, and a movie whose name has no other number counts as a series then. This happens
exactly if the year is the first number behind a dash and no token tells an episode.

## Main definitions

* `Found.covers`, `Found.Shares` — the characters of a match, and matches that share some
* `Release.Name.absoluteMatch` — the match whose number is taken for the only episode
* `Release.Name.hasOnlyYear` — whether all numbers are the year or parts of quality tags

## Main results

* `Release.number_of_year` — a year is a number between word edges
* `Release.shares_year_iff` — when the digits of the year are taken for an episode
* `Release.year_taken_iff` — which releases with a year belong to series
* `Release.year_taken_2019` — a movie that does
-/

namespace Harvest

namespace Found

/-- Whether the character behind `i` others belongs to the match. -/
def covers (f : Found) (i : Nat) : Bool := f.offset ≤ i && i < f.way.cursor.offset

/-- Two matches in a text share a character. -/
def Shares (f g : Found) : Prop := ∃ i, f.covers i = true ∧ g.covers i = true

theorem covers_iff {f : Found} {i : Nat} :
    f.covers i = true ↔ f.offset ≤ i ∧ i < f.way.cursor.offset := by
  rw [covers, Bool.and_eq_true, decide_eq_true_eq, decide_eq_true_eq]

end Found

namespace Release

open Pattern

/-- The match whose number is taken for the only episode. -/
def Name.absoluteMatch (n : Name) : Option Found :=
  if episode.occursIn n.normalized || crossEpisode.occursIn n.normalized then none
  else absoluteEpisode.find n.normalized

/-- Whether the character behind `i` others belongs to a quality tag. -/
def Name.isTagged (n : Name) (i : Nat) : Bool :=
  qualityTags.any fun p => (p.findAll n.normalized).any (·.covers i)

/-- Whether every number of a name begins at the place `y` or belongs to a quality tag. -/
def Name.hasOnlyYear (n : Name) (y : Nat) : Bool :=
  (List.range n.normalized.length).all fun i =>
    !(Cursor.after n.normalized i).beginsNumber || i == y || n.isTagged i

variable {n : Name} {s : List Char} {f y : Found} {i j : Nat}

/-! ### Numbers and their places -/

/-- Every digit of a number has its place. -/
theorem isDecimalDigit_of_lt (hlow : i ≤ j) (hhigh : j < i + (Cursor.after s i).number.length) :
    s[j]?.any Text.isDecimalDigit = true := by
  obtain ⟨d, rfl⟩ := Nat.exists_eq_add_of_le hlow
  have hd : d < ((s.drop i).takeWhile Text.isDecimalDigit).length := Nat.lt_of_add_lt_add_left hhigh
  have hget := List.prefix_iff_getElem?.mp (List.takeWhile_prefix Text.isDecimalDigit) d hd
  rw [← List.getElem?_drop, hget, Option.any_some]
  exact List.mem_takeWhile_imp (List.getElem_mem hd)

/-- Where a number begins, no digit stands in front. -/
theorem not_isDecimalDigit_of_beginsNumber (h : (Cursor.after s (i + 1)).beginsNumber = true) :
    s[i]?.any Text.isDecimalDigit = false := by
  obtain ⟨-, hprevious⟩ := Bool.and_eq_true_iff.mp h
  rw [Bool.not_eq_true', Cursor.after, List.head?_reverse, List.getLast?_take] at hprevious
  cases hget : s[i]? with
  | none => rfl
  | some ch => simpa [hget] using hprevious

/-- Two numbers that share a digit begin at the same place. -/
theorem eq_of_beginsNumber {k : Nat} (hi : (Cursor.after s i).beginsNumber = true)
    (hj : (Cursor.after s j).beginsNumber = true) (hik : i ≤ k)
    (hki : k < i + (Cursor.after s i).number.length) (hjk : j ≤ k)
    (hkj : k < j + (Cursor.after s j).number.length) : i = j := by
  -- the later one would begin behind a digit of the earlier one
  have hlt {i j : Nat} (hj : (Cursor.after s j).beginsNumber = true) (hij : i < j) (hjk : j ≤ k)
      (hki : k < i + (Cursor.after s i).number.length) : False := by
    obtain ⟨j, rfl⟩ := Nat.exists_eq_add_one_of_ne_zero (Nat.ne_zero_of_lt hij)
    have hdigit := isDecimalDigit_of_lt (s := s) (i := i) (j := j) (by omega) (by omega)
    cases (not_isDecimalDigit_of_beginsNumber hj).symm.trans hdigit
  rcases Nat.lt_trichotomy i j with hij | hij | hij
  · exact (hlt hj hij hjk hki).elim
  · exact hij
  · exact (hlt hi hij hik hkj).elim

/-- Whether a class holds only decimal digits. -/
def isDigitClass : CharClass → Bool
  | .only c => Text.isDecimalDigit c
  | .digit => true
  | _ => false

theorem isDecimalDigit_of_isDigitClass {k : CharClass} (hk : isDigitClass k = true) (ch : Char)
    (h : k.contains ch = true) : Text.isDecimalDigit ch = true := by
  cases k with
  | only c =>
    obtain rfl : ch = c := beq_iff_eq.mp h
    exact hk
  | digit => exact h
  | _ => cases hk

/-- A year is a number of four digits at which no word begins or goes on. -/
theorem number_of_year (h : year.IsMatch s y) : y.start.beginsNumber = true ∧
    y.start.number = y.text ∧ y.text.length = 4 ∧ y.way.cursor.offset = y.offset + 4 ∧
      (∀ ch ∈ y.start.seen.head?, Text.isWordChar ch = false) ∧
        ∀ ch ∈ y.start.behind, Text.isWordChar ch = false := by
  obtain ⟨start, ⟨⟨seen, rest⟩, groups⟩⟩ := y
  obtain ⟨hstart, hway, hend⟩ := mem_ways_word_iff.mp h.way
  obtain ⟨t, ht, hrest, rfl⟩ : ∃ t, (group 1 (oneOf [literal "19" ++ digits 2 2,
      literal "20" ++ digits 2 2])).Spells t ∧ start.rest = t ++ rest ∧
        seen = t.reverse ++ start.seen := exists_spelled hway
  have htext : Found.text ⟨start, ⟨t.reverse ++ start.seen, rest⟩, groups⟩ = t :=
    Cursor.since_append start.seen t rest start.rest
  have hlength : t.length = 4 := by
    have hspells : year.Spells t := htext ▸ spells_since h.way
    obtain ⟨u, hu, hcentury⟩ := exists_of_spells_year hspells
    rcases hcentury with rfl | rfl
    · rw [List.length_cons, List.length_cons, hu]
    · rw [List.length_cons, List.length_cons, hu]
  have hdigits : ∀ ch ∈ t, Text.isDecimalDigit ch = true :=
    forall_mem_of_spells (fun _ => isDecimalDigit_of_isDigitClass) (by decide) ht
  have hne : t ≠ [] := List.ne_nil_of_length_pos (by omega)
  have hbefore := not_isWordChar_of_digits hrest hdigits hne hstart
  have hafter := (atWordEdge_digits_iff hdigits hne).mp hend
  obtain ⟨hnumber, hbehind⟩ := Cursor.number_eq hrest hdigits
    fun ch hch => Text.isDecimalDigit_eq_false (hafter ch hch)
  refine ⟨Cursor.beginsNumber_of_digits hrest hdigits hne fun ch hch =>
    Text.isDecimalDigit_eq_false (hbefore ch hch), ?_, ?_, ?_, hbefore, hbehind ▸ hafter⟩
  · rw [hnumber, htext]
  · rw [htext, hlength]
  · rw [Cursor.offset, List.length_append, List.length_reverse, hlength, Nat.add_comm]
    rfl

/-- A year is not taken for a season. -/
theorem not_takenForSeason_of_year (h : year.IsMatch s y) : ¬y.start.TakenForSeason := by
  obtain ⟨-, hnumber, hlength, -, hbefore, -⟩ := number_of_year h
  intro htaken
  cases htaken with
  | letter hfront =>
    obtain ⟨ch, hch, hform⟩ := hfront
    cases (hbefore ch hch).symm.trans (CharClass.isWordChar_of_contains (by decide) ch hform)
  | word _ hshort _ | cross _ hshort _ =>
    rw [hnumber] at hshort
    omega

/-! ### Years behind dashes -/

theorem absoluteMatch_eq_some_iff : n.absoluteMatch = some f ↔
    episode.occursIn n.normalized = false ∧ crossEpisode.occursIn n.normalized = false ∧
      absoluteEpisode.find n.normalized = some f := by
  rw [Name.absoluteMatch]
  split
  next h => grind
  next h => grind

/-- A match of a number behind a dash. -/
theorem number_of_absoluteEpisode (h : absoluteEpisode.IsMatch s f) :
    (Cursor.after s (f.offset + 3)).isDashed = true ∧
      f.group 1 = (Cursor.after s (f.offset + 3)).number ∧
      f.way.cursor.offset = f.offset + 3 + (Cursor.after s (f.offset + 3)).number.length ∧
      ∀ i, f.offset ≤ i → i < f.offset + 3 → s[i]?.any Text.isDecimalDigit = false := by
  obtain ⟨a, b, rest, hrest, hdashed, hway⟩ := mem_ways_absoluteEpisode_iff.mp h.way
  have hplace : Cursor.after s (f.offset + 3) = ⟨b :: '-' :: a :: f.start.seen, rest⟩ :=
    Cursor.after_offset_add (t := [a, '-', b]) h.start hrest
  rw [hplace, hway]
  refine ⟨hdashed, ?_, ?_, ?_⟩
  · rw [Found.group, Found.group?, hway]
    rfl
  · rw [Cursor.offset, List.length_append, List.length_reverse, Nat.add_comm]
    rfl
  · obtain ⟨hdash, -⟩ := Cursor.isDashed_iff.mp hdashed
    obtain ⟨a', b', seen, hseen, ha, hb⟩ := Cursor.afterDash_iff.mp hdash
    obtain ⟨rfl, -, rfl, -⟩ : b = b' ∧ True ∧ a = a' ∧ f.start.seen = seen := by simpa using hseen
    intro i hlow hhigh
    have hdrop : s.drop f.offset = a :: '-' :: b :: rest :=
      (congrArg Cursor.rest (Cursor.after_offset h.start)).trans hrest
    have hdigit {ch : Char} (hch : Text.isBlank ch = true) : Text.isDecimalDigit ch = false :=
      Text.isDecimalDigit_eq_false (Text.isWordChar_of_isBlank hch)
    obtain ⟨d, rfl⟩ := Nat.exists_eq_add_of_le hlow
    rw [← List.getElem?_drop, hdrop]
    obtain rfl | rfl | rfl : d = 0 ∨ d = 1 ∨ d = 2 := by omega
    · exact hdigit ha
    · rfl
    · exact hdigit hb

/-- A number behind a dash that shares a digit with a year is the year. -/
theorem offset_of_shares (hf : absoluteEpisode.IsMatch s f) (hy : year.IsMatch s y)
    (h : f.Shares y) : f.offset + 3 = y.offset := by
  obtain ⟨hdashed, -, hfend, hfront⟩ := number_of_absoluteEpisode hf
  obtain ⟨hbegins, hnumber, hfour, hyend, -, -⟩ := number_of_year hy
  have hplace : Cursor.after s y.offset = y.start := Cursor.after_offset hy.start
  obtain ⟨i, hfi, hyi⟩ := h
  obtain ⟨hflow, hfhigh⟩ := Found.covers_iff.mp hfi
  obtain ⟨hylow, hyhigh⟩ := Found.covers_iff.mp hyi
  rw [hyend, ← hfour, ← hnumber, ← hplace] at hyhigh
  -- the shared character is a digit, so it is one of the number behind the dash
  have hdigit := isDecimalDigit_of_lt hylow hyhigh
  have hinside : f.offset + 3 ≤ i := by
    by_contra hlt
    cases (hfront i hflow (Nat.lt_of_not_le hlt)).symm.trans hdigit
  exact eq_of_beginsNumber (beginsNumber_of_isDashed hdashed) (hplace ▸ hbegins) hinside
    (hfend ▸ hfhigh) hylow hyhigh

/-- The match is that of the first number behind a dash. -/
theorem offset_absoluteEpisode_iff {k : Nat} :
    (absoluteEpisode.find s).map Found.offset = some k ↔
      (Cursor.after s (k + 3)).isDashed = true ∧
        ∀ i < k + 3, (Cursor.after s i).isDashed = false := by
  simp only [offset_find_eq_some_iff, matchesAt_absoluteEpisode]
  refine and_congr_right fun _ => ⟨fun hbefore i hi => ?_, fun hbefore i hi => ?_⟩
  · refine Bool.eq_false_iff.mpr fun hdashed => ?_
    obtain ⟨j, rfl⟩ := Nat.exists_eq_add_of_le' (Cursor.le_of_isDashed hdashed)
    cases (hbefore j (Nat.lt_of_add_lt_add_right hi)).symm.trans hdashed
  · exact hbefore (i + 3) (Nat.add_lt_add_right hi 3)

theorem isMatch_yearMatch (hy : n.yearMatch = some y) : year.IsMatch n.normalized y :=
  isMatch_of_mem_findAll (List.mem_of_find?_eq_some hy)

/-- The digits of the year are those of the only episode exactly if the year is the first number
behind a dash that stands alone and no token tells an episode. -/
theorem shares_year_iff (hy : n.yearMatch = some y) :
    (∃ f, n.absoluteMatch = some f ∧ f.Shares y) ↔
      (Cursor.after n.normalized y.offset).isDashed = true ∧
      (∀ i < y.offset, (Cursor.after n.normalized i).isDashed = false) ∧
      episode.occursIn n.normalized = false ∧ crossEpisode.occursIn n.normalized = false := by
  constructor
  · rintro ⟨f, hf, hshares⟩
    obtain ⟨hepisode, hcross, hfind⟩ := absoluteMatch_eq_some_iff.mp hf
    have hsame := offset_of_shares (isMatch_of_find hfind) (isMatch_yearMatch hy) hshares
    have hoffset : (absoluteEpisode.find n.normalized).map Found.offset = some f.offset := by
      rw [hfind, Option.map_some]
    obtain ⟨hdashed, hfirst⟩ := offset_absoluteEpisode_iff.mp hoffset
    exact ⟨hsame ▸ hdashed, hsame ▸ hfirst, hepisode, hcross⟩
  · rintro ⟨hdashed, hfirst, hepisode, hcross⟩
    obtain ⟨-, -, -, hyend, -, -⟩ := number_of_year (isMatch_yearMatch hy)
    obtain ⟨k, hk⟩ := Nat.exists_eq_add_of_le' (Cursor.le_of_isDashed hdashed)
    have hoffset : (absoluteEpisode.find n.normalized).map Found.offset = some k :=
      offset_absoluteEpisode_iff.mpr ⟨hk ▸ hdashed, hk ▸ hfirst⟩
    obtain ⟨f, hfind, rfl⟩ := Option.map_eq_some_iff.mp hoffset
    obtain ⟨-, -, hfend, -⟩ := number_of_absoluteEpisode (isMatch_of_find hfind)
    have hpos := (Cursor.isDashed_iff.mp hdashed).2.1
    rw [← hk] at hfend
    refine ⟨f, absoluteMatch_eq_some_iff.mpr ⟨hepisode, hcross, hfind⟩, y.offset, ?_, ?_⟩
    · exact Found.covers_iff.mpr ⟨by omega, by omega⟩
    · exact Found.covers_iff.mpr ⟨Nat.le_refl _, by omega⟩

/-- The year is the only episode then. -/
theorem episodes_of_shares {k : Nat} (hy : n.yearMatch = some y) (hk : number? y.text = some k)
    (hf : n.absoluteMatch = some f) (h : f.Shares y) : episodes n.normalized = [k] := by
  obtain ⟨hepisode, hcross, hfind⟩ := absoluteMatch_eq_some_iff.mp hf
  have hmatch := isMatch_yearMatch hy
  obtain ⟨-, hgroup, -⟩ := number_of_absoluteEpisode (isMatch_of_find hfind)
  obtain ⟨-, hnumber, -⟩ := number_of_year hmatch
  have hplace : Cursor.after n.normalized y.offset = y.start := Cursor.after_offset hmatch.start
  rw [offset_of_shares (isMatch_of_find hfind) hmatch h, hplace, hnumber] at hgroup
  rw [episodes_eq_of_not_occursIn hepisode hcross, hfind, Option.bind_some, hgroup, hk]
  rfl

/-! ### Names with no other number -/

/-- Every number of such a name is the year or belongs to a quality tag. -/
theorem eq_or_exists_tag {k : Nat} (h : n.hasOnlyYear k = true)
    (hn : (Cursor.after n.normalized i).beginsNumber = true) :
    i = k ∨ ∃ p ∈ qualityTags, ∃ f, p.IsMatch n.normalized f ∧ f.covers i = true := by
  have hi : i < n.normalized.length := by
    by_contra hle
    have hnil : n.normalized.drop i = [] := List.drop_eq_nil_of_le (Nat.le_of_not_lt hle)
    simp [Cursor.beginsNumber, Cursor.after, hnil] at hn
  have hhere := List.all_eq_true.mp h i (List.mem_range.mpr hi)
  rw [hn, Bool.not_true, Bool.false_or, Bool.or_eq_true, beq_iff_eq] at hhere
  refine hhere.imp_right fun htag => ?_
  obtain ⟨p, hp, hany⟩ := List.any_eq_true.mp htag
  obtain ⟨f, hf, hcovers⟩ := List.any_eq_true.mp hany
  exact ⟨p, hp, f, isMatch_of_mem_findAll hf, hcovers⟩

/-- In such a name, no token tells a season, and no other number stands behind a dash. -/
theorem not_told_of_hasOnlyYear (hy : n.yearMatch = some y) (h : n.hasOnlyYear y.offset = true) :
    tellsSeason n.normalized = false ∧
      ∀ i, (Cursor.after n.normalized i).isDashed = true → i = y.offset := by
  have hmatch := isMatch_yearMatch hy
  have htag {i : Nat} (hn : (Cursor.after n.normalized i).beginsNumber = true)
      (hi : i ≠ y.offset) : ¬(Cursor.after n.normalized i).TakenForSeason ∧
        (Cursor.after n.normalized i).isDashed = false := by
    obtain ⟨p, hp, f, hf, hcovers⟩ := (eq_or_exists_tag h hn).resolve_left hi
    obtain ⟨hlow, hhigh⟩ := Found.covers_iff.mp hcovers
    exact not_taken_of_tag hp hf hlow hhigh hn
  constructor
  · refine Bool.eq_false_iff.mpr fun htold => ?_
    obtain ⟨q, hq, hbegins, htaken⟩ := exists_number_of_tellsSeason htold
    have hplace := Cursor.after_offset hq
    rw [← hplace] at hbegins htaken
    by_cases hi : q.offset = y.offset
    · rw [hi, show Cursor.after n.normalized y.offset = y.start from
        Cursor.after_offset hmatch.start] at htaken
      exact not_takenForSeason_of_year hmatch htaken
    · exact (htag hbegins hi).1 htaken
  · intro i hdashed
    by_contra hi
    cases (htag (beginsNumber_of_isDashed hdashed) hi).2.symm.trans hdashed

/-- Such a name belongs to a series exactly if the year stands behind a dash. -/
theorem mediaType_of_hasOnlyYear {k : Nat} (hy : n.yearMatch = some y)
    (hk : number? y.text = some k) (h : n.hasOnlyYear y.offset = true) :
    n.parse.mediaType = .series ↔ (Cursor.after n.normalized y.offset).isDashed = true := by
  obtain ⟨hseason, honly⟩ := not_told_of_hasOnlyYear hy h
  constructor
  · intro hseries
    rcases told_of_series hseries with htold | ⟨i, hi⟩
    · cases hseason.symm.trans htold
    · exact honly i hi ▸ hi
  · intro hdashed
    have htokens := hseason
    rw [← Bool.not_eq_true, tellsSeason_iff, not_or, not_or] at htokens
    obtain ⟨hnone, -, hcross⟩ := htokens
    have hfirst : ∀ i < y.offset, (Cursor.after n.normalized i).isDashed = false :=
      fun i hi => Bool.eq_false_iff.mpr fun hdashed' => Nat.ne_of_lt hi (honly i hdashed')
    obtain ⟨f, hf, hshares⟩ := (shares_year_iff hy).mpr ⟨hdashed, hfirst,
      Bool.eq_false_iff.mpr (mt season_of_episode hnone), Bool.eq_false_iff.mpr hcross⟩
    rw [mediaType_eq_series, episodes_of_shares hy hk hf hshares]
    exact .inr (List.cons_ne_nil k [])

/-- The digits of the year of a release are taken for its only episode as well exactly if the year
is the first number behind a dash that stands alone and no token tells an episode; such a release
belongs to a series. So does one whose name has no number besides the year and the quality tags
exactly if the year stands behind such a dash, and any one exactly if a token tells a season or a
number stands behind such a dash. -/
theorem year_taken_iff (name : String) {k : Int} (hyear : (parse name).year = some k) :
    let n := Name.ofChars name.toList
    ∃ y, n.yearMatch = some y ∧
      ((∃ f, n.absoluteMatch = some f ∧ f.Shares y) ↔
        (Cursor.after n.normalized y.offset).isDashed = true ∧
        (∀ i < y.offset, (Cursor.after n.normalized i).isDashed = false) ∧
        episode.occursIn n.normalized = false ∧ crossEpisode.occursIn n.normalized = false) ∧
      (∀ f, n.absoluteMatch = some f → f.Shares y →
        (parse name).episodes.map Int.ofNat = [k] ∧ (parse name).mediaType = .series) ∧
      (n.hasOnlyYear y.offset = true → ((parse name).mediaType = .series ↔
        (Cursor.after n.normalized y.offset).isDashed = true)) ∧
      (HasPlainDigits n.normalized → ((parse name).mediaType = .series ↔
        tellsSeason n.normalized = true ∨
          ∃ i, (Cursor.after n.normalized i).isDashed = true)) := by
  intro n
  obtain ⟨m, hm, rfl⟩ := Option.map_eq_some_iff.mp hyear
  obtain ⟨y, hy, hnumber⟩ := Option.bind_eq_some_iff.mp hm
  refine ⟨y, hy, shares_year_iff hy, ?_, mediaType_of_hasOnlyYear hy hnumber,
    mediaType_eq_series_iff⟩
  intro f hf hshares
  have hepisodes : episodes n.normalized = [m] := episodes_of_shares hy hnumber hf hshares
  constructor
  · exact congrArg (List.map Int.ofNat) hepisodes
  · rw [show (parse name).mediaType = n.parse.mediaType from rfl, mediaType_eq_series, hepisodes]
    exact .inr (List.cons_ne_nil m [])

/-- A year that no dash stands in front of is not taken. -/
theorem year_taken_heat : (parse "Heat 1995 1080p").year = some 1995 ∧
    (parse "Heat 1995 1080p").mediaType ≠ .series := by
  have hyear : (parse "Heat 1995 1080p").year = some 1995 := by decide
  obtain ⟨y, hy, -, -, honly, -⟩ := year_taken_iff "Heat 1995 1080p" hyear
  have hplace : y.offset = 5 := by
    have hoffset : (Name.ofChars "Heat 1995 1080p".toList).yearMatch.map Found.offset = some 5 := by
      decide
    rw [hy] at hoffset
    exact Option.some.inj hoffset
  rw [hplace] at honly
  refine ⟨hyear, fun hseries => ?_⟩
  exact absurd ((honly (by decide)).mp hseries) (by decide)

/-- A year behind a dash is the number of an episode as well, though there is no other number. -/
theorem year_taken_2019 :
    let n := Name.ofChars "Movie - 2019".toList
    (parse "Movie - 2019").year = some 2019 ∧ n.hasOnlyYear 8 = true ∧
      (∃ f ∈ n.absoluteMatch, ∃ y ∈ n.yearMatch, f.covers 8 = true ∧ y.covers 8 = true) ∧
      (parse "Movie - 2019").episodes = [2019] ∧ (parse "Movie - 2019").mediaType = .series := by
  decide +kernel

end Release

end Harvest
