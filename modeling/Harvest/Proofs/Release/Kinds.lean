import Harvest.Proofs.Pattern.Groups
import Mathlib.Data.List.TakeWhile

/-!
# Movies and series

A release belongs to a series if its name tells a season or an episode, and to a movie otherwise. A
season is told by a letter or a word in front of a number or by an x behind it, and an episode also
by a dash that stands alone in front of a number of at most four digits. So which kind a release is
of depends on what stands around the numbers of its name.

## Main definitions

* `Cursor.number`, `Cursor.behind` — the digits that follow, and what stands behind them
* `Cursor.beginsNumber` — whether a number begins
* `Cursor.isDashed` — whether a number stands behind a dash that stands alone
* `Cursor.TakenForSeason` — how a token takes a number for a season
* `Release.tellsSeason` — whether a token with a season occurs

## Main results

* `Release.exists_number_of_tellsSeason` — the numbers of tokens with seasons
* `Release.mem_ways_absoluteEpisode_iff` — the numbers behind dashes
* `Release.told_of_series`, `Release.mediaType_eq_series_iff` — which releases belong to series
-/

namespace Harvest

/-! ### Numbers of a text -/

namespace Cursor

/-- The decimal digits that follow. -/
def number (c : Cursor) : List Char := c.rest.takeWhile Text.isDecimalDigit

/-- What stands behind the digits that follow. -/
def behind (c : Cursor) : Option Char := (c.rest.dropWhile Text.isDecimalDigit).head?

/-- Whether a number begins at the position. -/
def beginsNumber (c : Cursor) : Bool :=
  c.rest.head?.any Text.isDecimalDigit && !c.seen.head?.any Text.isDecimalDigit

/-- Whether a dash stands in front of the position, with white space on either side. -/
def afterDash (c : Cursor) : Bool :=
  match c.seen with
  | b :: d :: a :: _ => Text.isBlank a && d == '-' && Text.isBlank b
  | _ => false

/-- Whether a number of at most four digits stands at the position, behind a dash that stands
alone. -/
def isDashed (c : Cursor) : Bool :=
  c.afterDash && (0 < c.number.length && c.number.length ≤ 4 && !c.behind.any Text.isWordChar)

/-- How a token takes a number for a season. -/
inductive TakenForSeason (c : Cursor) : Prop where
  /-- It stands behind a letter. -/
  | letter (before : ∃ ch ∈ c.seen.head?, (CharClass.caseless 's').contains ch = true)
  /-- It has at most two digits and stands behind a word or behind white space, and no word goes on
  behind it. -/
  | word (before : ∃ ch ∈ c.seen.head?,
      (CharClass.caseless 'n').contains ch = true ∨ Text.isBlank ch = true)
      (length : c.number.length ≤ 2) (behind : ∀ ch ∈ c.behind, Text.isWordChar ch = false)
  /-- It has at most two digits, no word goes on in front of it, and an x stands behind it. -/
  | cross (before : ∀ ch ∈ c.seen.head?, Text.isWordChar ch = false)
      (length : c.number.length ≤ 2)
      (behind : ∃ ch ∈ c.behind, (CharClass.caseless 'x').contains ch = true)

variable {c : Cursor} {ds rest : List Char}

/-- Digits in front of another character are taken as a whole. -/
theorem takeWhile_digits (hds : ∀ ch ∈ ds, Text.isDecimalDigit ch = true)
    (hrest : ∀ ch ∈ rest.head?, Text.isDecimalDigit ch = false) :
    (ds ++ rest).takeWhile Text.isDecimalDigit = ds ∧
      (ds ++ rest).dropWhile Text.isDecimalDigit = rest := by
  rw [List.takeWhile_append_of_pos hds, List.dropWhile_append_of_pos hds]
  cases rest with
  | nil => simp
  | cons ch rest =>
    have hch : Text.isDecimalDigit ch = false := hrest ch rfl
    simp [hch]

theorem number_eq (hc : c.rest = ds ++ rest) (hds : ∀ ch ∈ ds, Text.isDecimalDigit ch = true)
    (hrest : ∀ ch ∈ rest.head?, Text.isDecimalDigit ch = false) :
    c.number = ds ∧ c.behind = rest.head? := by
  obtain ⟨htake, hdrop⟩ := takeWhile_digits hds hrest
  rw [number, behind, hc, htake, hdrop]
  exact ⟨rfl, rfl⟩

/-- A run of digits that nothing stands in front of but other characters begins a number. -/
theorem beginsNumber_of_digits (hc : c.rest = ds ++ rest)
    (hds : ∀ ch ∈ ds, Text.isDecimalDigit ch = true) (hne : ds ≠ [])
    (hseen : ∀ ch ∈ c.seen.head?, Text.isDecimalDigit ch = false) : c.beginsNumber = true := by
  obtain ⟨d, ds, rfl⟩ := List.exists_cons_of_ne_nil hne
  have hd : c.rest.head?.any Text.isDecimalDigit = true := by
    simpa [hc] using (List.forall_mem_cons.mp hds).1
  have hfirst : c.seen.head?.any Text.isDecimalDigit = false := by
    simpa [Option.any_eq_false] using hseen
  rw [beginsNumber, hd, hfirst]
  rfl

theorem isDashed_iff : c.isDashed = true ↔ c.afterDash = true ∧ 0 < c.number.length ∧
    c.number.length ≤ 4 ∧ ∀ ch ∈ c.behind, Text.isWordChar ch = false := by
  simp only [isDashed, Bool.and_eq_true, decide_eq_true_eq, Bool.not_eq_true', Option.any_eq_false,
    Option.mem_def, and_assoc]

theorem afterDash_iff : c.afterDash = true ↔ ∃ a b seen, c.seen = b :: '-' :: a :: seen ∧
    Text.isBlank a = true ∧ Text.isBlank b = true := by
  unfold afterDash
  constructor
  · intro h
    split at h
    next b d a seen hseen =>
      simp only [Bool.and_eq_true, beq_iff_eq] at h
      obtain ⟨⟨ha, rfl⟩, hb⟩ := h
      exact ⟨a, b, seen, hseen, ha, hb⟩
    next => cases h
  · rintro ⟨a, b, seen, hseen, ha, hb⟩
    simp [hseen, ha, hb]

/-- In front of a number behind a dash, there are three characters. -/
theorem le_of_isDashed {s : List Char} {i : Nat} (h : (after s i).isDashed = true) : 3 ≤ i := by
  obtain ⟨a, b, seen, hseen, -⟩ := afterDash_iff.mp (isDashed_iff.mp h).1
  have hlength : (s.take i).length = seen.length + 3 := by
    rw [← List.length_reverse]
    exact congrArg List.length hseen
  have hle := List.length_take_le i s
  omega

end Cursor

namespace Text

theorem isDecimalDigit_eq_false {ch : Char} (h : isWordChar ch = false) :
    isDecimalDigit ch = false := by
  by_contra hdigit
  rw [Bool.not_eq_false] at hdigit
  simp [isWordChar, hdigit] at h

theorem isWordChar_of_isDecimalDigit {ch : Char} (h : isDecimalDigit ch = true) :
    isWordChar ch = true := by
  simp [isWordChar, h]

/-- The numbers between boundary points. -/
def between : List Nat → List Nat
  | a :: b :: bounds => List.range' a (b - a) ++ between bounds
  | _ => []

theorem mem_between_of_inside {bounds : List Nat} {n : Nat} (heven : bounds.length % 2 = 0)
    (h : inside bounds n = true) : n ∈ between bounds := by
  fun_induction between bounds with
  | case1 a b bounds ih =>
    have hlow : a ≤ n := by
      by_contra hlt
      simp [inside_of_lt _ (Nat.lt_of_not_le hlt)] at h
    rw [inside_of_le _ hlow] at h
    rw [List.mem_append, List.mem_range'_1]
    by_cases hhigh : n < b
    · exact .inl ⟨hlow, by omega⟩
    · rw [inside_of_le _ (Nat.le_of_not_lt hhigh), Bool.not_not] at h
      exact .inr (ih (by simpa [Nat.add_assoc] using heven) h)
  | case2 bounds hshort =>
    match bounds, hshort with
    | [], _ => cases h
    | [a], _ => cases heven
    | a :: b :: bounds, hshort => exact absurd rfl (hshort a b bounds)

/-- White space is no part of a word. -/
theorem isWordChar_of_isBlank {ch : Char} (h : isBlank ch = true) : isWordChar ch = false := by
  have hblanks : ∀ n ∈ between blankBounds, isWordChar (Char.ofNat n) = false := by
    decide +kernel
  have hch := hblanks _ (mem_between_of_inside rfl h)
  rwa [Char.ofNat_toNat] at hch

end Text

namespace Release

open Pattern

variable {c : Cursor} {v : Way} {s : List Char}

/-! ### The numbers of tokens -/

/-- The characters that stand for a letter are no digits. -/
theorem isDecimalDigit_of_caseless {l ch : Char} (hl : Text.isDecimalDigit l = false)
    (hup : Text.isDecimalDigit l.toUpper = false) (h : (CharClass.caseless l).contains ch = true) :
    Text.isDecimalDigit ch = false := by
  simp only [CharClass.contains, CharClass.sameLetter, Bool.or_eq_true, Bool.and_eq_true,
    beq_iff_eq] at h
  rcases h with ((rfl | rfl) | ⟨-, rfl⟩) | ⟨-, hkelvin⟩
  · exact hl
  · exact hup
  · decide
  · rw [Text.isDecimalDigit, hkelvin]
    decide

/-- The digits that a token takes for a number. -/
theorem mem_ways_digits_iff {k most : Nat} {w : Way} :
    v ∈ (group k (digits 1 most)).ways w ↔ ∃ ds rest,
      (∀ ch ∈ ds, Text.isDecimalDigit ch = true) ∧ ds ≠ [] ∧ ds.length ≤ most ∧
        w.cursor.rest = ds ++ rest ∧
          v = ⟨⟨ds.reverse ++ w.cursor.seen, rest⟩, (k, ds) :: w.groups⟩ := by
  rw [digits, ways, List.mem_map]
  constructor
  · rintro ⟨u, hu, rfl⟩
    obtain ⟨p, hp, rfl⟩ := List.mem_map.mp hu
    obtain ⟨ds, hrest, hseen, hrun⟩ := (Cursor.mem_runs_iff.mp hp).resolve_left List.not_mem_nil
    obtain ⟨seen, rest⟩ := p
    obtain rfl : seen = ds.reverse ++ w.cursor.seen := hseen
    refine ⟨ds, rest, hrun.chars, List.ne_nil_of_length_pos hrun.least_le, hrun.le_most most rfl,
      hrest, ?_⟩
    rw [Cursor.since_append]
  · rintro ⟨ds, rest, hds, hne, hlength, hrest, rfl⟩
    have hrun : CharClass.digit.IsRun 1 (some most) ds :=
      ⟨List.length_pos_of_ne_nil hne, fun m hm => Option.some.inj hm ▸ hlength, hds⟩
    have hmem : ⟨ds.reverse ++ w.cursor.seen, rest⟩ ∈
        Cursor.runs .digit 1 (some most) w.cursor.seen w.cursor.rest [] :=
      Cursor.mem_runs_iff.mpr (.inr ⟨ds, hrest, rfl, hrun⟩)
    refine ⟨_, List.mem_map_of_mem hmem, ?_⟩
    rw [Cursor.since_append]

/-- There is a word edge behind digits unless a word goes on. -/
theorem atWordEdge_digits_iff {ds seen rest : List Char}
    (hds : ∀ ch ∈ ds, Text.isDecimalDigit ch = true) (hne : ds ≠ []) :
    Cursor.atWordEdge ⟨ds.reverse ++ seen, rest⟩ = true ↔
      ∀ ch ∈ rest.head?, Text.isWordChar ch = false := by
  obtain ⟨front, d, rfl⟩ : ∃ front d, ds = front ++ [d] :=
    ⟨ds.dropLast, ds.getLast hne, (List.dropLast_append_getLast hne).symm⟩
  have hd : Text.isWordChar d = true :=
    Text.isWordChar_of_isDecimalDigit (hds d (List.mem_append_right _ List.mem_cons_self))
  rw [List.reverse_append, List.reverse_singleton, List.append_assoc, List.singleton_append]
  exact atWordEdge_snoc_iff hd

/-- No word goes on in front of digits at a word edge. -/
theorem not_isWordChar_of_digits {ds rest : List Char} {q : Cursor} (hrest : q.rest = ds ++ rest)
    (hds : ∀ ch ∈ ds, Text.isDecimalDigit ch = true) (hne : ds ≠ [])
    (hedge : q.atWordEdge = true) : ∀ ch ∈ q.seen.head?, Text.isWordChar ch = false := by
  obtain ⟨seen, rest'⟩ := q
  obtain ⟨d, ds, rfl⟩ := List.exists_cons_of_ne_nil hne
  obtain rfl : rest' = d :: (ds ++ rest) := hrest
  have hd : Text.isWordChar d = true :=
    Text.isWordChar_of_isDecimalDigit (hds d List.mem_cons_self)
  rw [← List.reverse_reverse seen, atWordEdge_cons_iff hd, List.getLast?_reverse] at hedge
  exact hedge

/-- Whether a class is that of a letter in either case. -/
def isCaseless (l : Char) : CharClass → Bool
  | .caseless c => c == l
  | _ => false

theorem contains_of_isCaseless {l ch : Char} {k : CharClass} (hk : isCaseless l k = true)
    (h : k.contains ch = true) : (CharClass.caseless l).contains ch = true := by
  cases k with
  | caseless c =>
    obtain rfl : c = l := beq_iff_eq.mp hk
    exact h
  | _ => cases hk

theorem exists_number_of_season (h : v ∈ season.ways ⟨c, []⟩) :
    ∃ q, c.LeadsTo q ∧ q.beginsNumber = true ∧ q.TakenForSeason := by
  simp only [season, mem_ways_append_iff] at h
  obtain ⟨u, ⟨u₁, hfront, hdigits⟩, -⟩ := h
  have hlead : c.LeadsTo u₁.cursor := leadsTo_of_mem_ways (mem_ways_append_iff.mpr hfront)
  obtain ⟨u₀, -, hletter⟩ := hfront
  obtain ⟨ch, rest, -, hch, rfl⟩ := mem_ways_one_iff.mp hletter
  obtain ⟨ds, rest', hds, hne, -, hrest, rfl⟩ := mem_ways_digits_iff.mp hdigits
  refine ⟨_, hlead, Cursor.beginsNumber_of_digits hrest hds hne ?_, .letter ⟨ch, rfl, hch⟩⟩
  intro ch' hch'
  obtain rfl : ch = ch' := Option.some.inj hch'
  exact isDecimalDigit_of_caseless (by decide) (by decide) hch

/-- In front of the number of a season written out stands the word, or white space behind it. -/
theorem exists_head_of_seasonWord {w : Way} (h : v ∈ (caseless "season" ++ blanks).ways w) :
    ∃ ch ∈ v.cursor.seen.head?,
      (CharClass.caseless 'n').contains ch = true ∨ Text.isBlank ch = true := by
  obtain ⟨u, hword, hblanks⟩ := mem_ways_append_iff.mp h
  obtain ⟨t, ht, -, hseen⟩ := exists_spelled hword
  obtain ⟨front, ch, rfl, hch⟩ := exists_last_of_spells (P := isCaseless 'n')
    (fun _ hk _ => contains_of_isCaseless hk) (by decide) ht
  obtain ⟨bs, hbs, -, hseen'⟩ := exists_spelled hblanks
  have hrun : CharClass.blank.IsRun 0 none bs := hbs
  rw [hseen] at hseen'
  -- the white space may be missing
  rcases List.eq_nil_or_concat bs with rfl | ⟨bs, b, rfl⟩
  · exact ⟨ch, by simp [hseen'], .inl hch⟩
  · exact ⟨b, by simp [hseen'], .inr (hrun.chars b (by simp))⟩

theorem exists_number_of_seasonWord (h : v ∈ seasonWord.ways ⟨c, []⟩) :
    ∃ q, c.LeadsTo q ∧ q.beginsNumber = true ∧ q.TakenForSeason := by
  rw [seasonWord, mem_ways_append_wordEdge_iff] at h
  simp only [mem_ways_append_iff] at h
  obtain ⟨⟨u₂, hfront, hdigits⟩, hedge⟩ := h
  have hlead : c.LeadsTo u₂.cursor :=
    leadsTo_of_mem_ways (p := wordEdge ++ caseless "season" ++ blanks)
      (by simpa only [mem_ways_append_iff] using hfront)
  obtain ⟨u₁, ⟨u₀, -, hword⟩, hblanks⟩ := hfront
  obtain ⟨ch, hch, hclass⟩ :=
    exists_head_of_seasonWord (mem_ways_append_iff.mpr ⟨u₁, hword, hblanks⟩)
  obtain ⟨ds, rest, hds, hne, hlength, hrest, rfl⟩ := mem_ways_digits_iff.mp hdigits
  have hafter := (atWordEdge_digits_iff hds hne).mp hedge
  obtain ⟨hnumber, hbehind⟩ := Cursor.number_eq hrest hds
    fun ch hch => Text.isDecimalDigit_eq_false (hafter ch hch)
  refine ⟨u₂.cursor, hlead, Cursor.beginsNumber_of_digits hrest hds hne ?_,
    .word ⟨ch, hch, hclass⟩ (hnumber ▸ hlength) (hbehind ▸ hafter)⟩
  intro ch' hch'
  obtain rfl : ch = ch' := Option.some.inj (hch.symm.trans hch')
  rcases hclass with hletter | hblank
  · exact isDecimalDigit_of_caseless (by decide) (by decide) hletter
  · exact Text.isDecimalDigit_eq_false (Text.isWordChar_of_isBlank hblank)

theorem exists_number_of_crossEpisode (h : v ∈ crossEpisode.ways ⟨c, []⟩) :
    c.beginsNumber = true ∧ c.TakenForSeason := by
  rw [crossEpisode, mem_ways_word_iff] at h
  simp only [mem_ways_append_iff] at h
  obtain ⟨hstart, ⟨u₂, ⟨u₁, hdigits, hletter⟩, -⟩, -⟩ := h
  obtain ⟨ds, rest, hds, hne, hlength, hrest, rfl⟩ := mem_ways_digits_iff.mp hdigits
  obtain ⟨ch, rest', rfl, hch, -⟩ := mem_ways_one_iff.mp hletter
  obtain ⟨hnumber, hbehind⟩ := Cursor.number_eq hrest hds fun ch' hch' => by
    obtain rfl : ch = ch' := Option.some.inj hch'
    exact isDecimalDigit_of_caseless (by decide) (by decide) hch
  have hbefore := not_isWordChar_of_digits hrest hds hne hstart
  refine ⟨Cursor.beginsNumber_of_digits hrest hds hne fun ch' hch' =>
    Text.isDecimalDigit_eq_false (hbefore ch' hch'), .cross hbefore ?_ ⟨ch, ?_, hch⟩⟩
  · rwa [hnumber]
  · rw [hbehind]
    rfl

/-! ### Numbers behind dashes -/

theorem beginsNumber_of_isDashed (h : c.isDashed = true) : c.beginsNumber = true := by
  obtain ⟨hdash, hpos, -⟩ := Cursor.isDashed_iff.mp h
  obtain ⟨a, b, seen, hseen, -, hb⟩ := Cursor.afterDash_iff.mp hdash
  refine Cursor.beginsNumber_of_digits List.takeWhile_append_dropWhile.symm
    (fun ch hch => List.mem_takeWhile_imp hch) (List.ne_nil_of_length_pos hpos) ?_
  intro ch hch
  obtain rfl : b = ch := by simpa [hseen] using hch
  exact Text.isDecimalDigit_eq_false (Text.isWordChar_of_isBlank hb)

/-- A dash that stands alone. -/
theorem mem_ways_dash_iff {w : Way} :
    v ∈ (one .blank ++ literal "-" ++ one .blank).ways w ↔ ∃ a b rest,
      w.cursor.rest = a :: '-' :: b :: rest ∧ Text.isBlank a = true ∧ Text.isBlank b = true ∧
        v = ⟨⟨b :: '-' :: a :: w.cursor.seen, rest⟩, w.groups⟩ := by
  simp only [mem_ways_append_iff]
  constructor
  · rintro ⟨u₂, ⟨u₁, hfirst, hdash⟩, hsecond⟩
    obtain ⟨a, rest₁, hrest₁, ha, rfl⟩ := mem_ways_one_iff.mp hfirst
    obtain ⟨d, rest₂, hrest₂, hd, rfl⟩ := mem_ways_one_iff.mp hdash
    obtain ⟨b, rest, hrest₃, hb, rfl⟩ := mem_ways_one_iff.mp hsecond
    obtain rfl : d = '-' := beq_iff_eq.mp hd
    obtain rfl : rest₁ = '-' :: rest₂ := hrest₂
    obtain rfl : rest₂ = b :: rest := hrest₃
    exact ⟨a, b, rest, hrest₁, ha, hb, rfl⟩
  · rintro ⟨a, b, rest, hrest, ha, hb, rfl⟩
    refine ⟨⟨⟨'-' :: a :: w.cursor.seen, b :: rest⟩, w.groups⟩,
      ⟨⟨⟨a :: w.cursor.seen, '-' :: b :: rest⟩, w.groups⟩, ?_, ?_⟩, ?_⟩
    · exact mem_ways_one_iff.mpr ⟨a, _, hrest, ha, rfl⟩
    · exact mem_ways_one_iff.mpr ⟨'-', _, rfl, rfl, rfl⟩
    · exact mem_ways_one_iff.mpr ⟨b, _, rfl, hb, rfl⟩

/-- A number behind a dash that stands alone is taken as a whole, and nothing else is. -/
theorem mem_ways_absoluteEpisode_iff : v ∈ absoluteEpisode.ways ⟨c, []⟩ ↔ ∃ a b rest,
    c.rest = a :: '-' :: b :: rest ∧
      Cursor.isDashed ⟨b :: '-' :: a :: c.seen, rest⟩ = true ∧
      v = ⟨⟨(rest.takeWhile Text.isDecimalDigit).reverse ++ b :: '-' :: a :: c.seen,
        rest.dropWhile Text.isDecimalDigit⟩, [(1, rest.takeWhile Text.isDecimalDigit)]⟩ := by
  rw [absoluteEpisode, mem_ways_append_wordEdge_iff, mem_ways_append_iff]
  constructor
  · rintro ⟨⟨u, hdash, hdigits⟩, hedge⟩
    obtain ⟨a, b, rest, hrest, ha, hb, rfl⟩ := mem_ways_dash_iff.mp hdash
    obtain ⟨ds, rest', hds, hne, hlength, hrest', rfl⟩ := mem_ways_digits_iff.mp hdigits
    obtain rfl : rest = ds ++ rest' := hrest'
    have hafter := (atWordEdge_digits_iff hds hne).mp hedge
    have hstop : ∀ ch ∈ rest'.head?, Text.isDecimalDigit ch = false :=
      fun ch hch => Text.isDecimalDigit_eq_false (hafter ch hch)
    obtain ⟨htake, hdrop⟩ := Cursor.takeWhile_digits hds hstop
    refine ⟨a, b, ds ++ rest', hrest, Cursor.isDashed_iff.mpr ⟨?_, ?_⟩, ?_⟩
    · exact Cursor.afterDash_iff.mpr ⟨a, b, c.seen, rfl, ha, hb⟩
    · rw [Cursor.number, Cursor.behind, htake, hdrop]
      exact ⟨List.length_pos_of_ne_nil hne, hlength, hafter⟩
    · rw [htake, hdrop]
  · rintro ⟨a, b, rest, hrest, hdashed, rfl⟩
    obtain ⟨hdash, hpos, hlength, hafter⟩ := Cursor.isDashed_iff.mp hdashed
    obtain ⟨a', b', seen, hseen, ha, hb⟩ := Cursor.afterDash_iff.mp hdash
    obtain ⟨rfl, -, rfl, rfl⟩ : b = b' ∧ True ∧ a = a' ∧ c.seen = seen := by simpa using hseen
    have hds : ∀ ch ∈ rest.takeWhile Text.isDecimalDigit, Text.isDecimalDigit ch = true :=
      fun ch hch => List.mem_takeWhile_imp hch
    have hne : rest.takeWhile Text.isDecimalDigit ≠ [] := List.ne_nil_of_length_pos hpos
    refine ⟨⟨⟨⟨b :: '-' :: a :: c.seen, rest⟩, []⟩, ?_, ?_⟩, ?_⟩
    · exact mem_ways_dash_iff.mpr ⟨a, b, rest, hrest, ha, hb, rfl⟩
    · exact mem_ways_digits_iff.mpr ⟨_, _, hds, hne, hlength,
        List.takeWhile_append_dropWhile.symm, rfl⟩
    · exact (atWordEdge_digits_iff hds hne).mpr hafter

/-- So a number behind a dash is found with three characters in front. -/
theorem matchesAt_absoluteEpisode (s : List Char) (i : Nat) :
    absoluteEpisode.matchesAt s i = (Cursor.after s (i + 3)).isDashed := by
  rw [Bool.eq_iff_iff, matchesAt, Bool.and_eq_true, decide_eq_true_eq, isSome_first_iff]
  simp only [mem_ways_absoluteEpisode_iff]
  have hstep (hi : i ≤ s.length) {a d b : Char} {rest : List Char}
      (h : s.drop i = a :: d :: b :: rest) :
      Cursor.after s (i + 3) = ⟨b :: d :: a :: (Cursor.after s i).seen, rest⟩ := by
    obtain ⟨hlead, hoffset⟩ := Cursor.leadsTo_after hi
    have hplace := Cursor.after_offset_add (t := [a, d, b]) hlead h
    rwa [hoffset] at hplace
  constructor
  · rintro ⟨hi, _, a, b, rest, hrest, hdashed, -⟩
    rwa [hstep hi hrest]
  · intro hdashed
    obtain ⟨hdash, hpos, -⟩ := Cursor.isDashed_iff.mp hdashed
    -- there are three characters, since a number follows them
    have hlength : i + 3 < s.length := by
      by_contra hle
      have hnil : s.drop (i + 3) = [] := List.drop_eq_nil_of_le (Nat.le_of_not_lt hle)
      simp [Cursor.number, Cursor.after, hnil] at hpos
    obtain ⟨a, d, b, rest, hrest⟩ : ∃ a d b rest, s.drop i = a :: d :: b :: rest := by
      refine ⟨s[i], s[i + 1], s[i + 2], s.drop (i + 3), ?_⟩
      rw [List.drop_eq_getElem_cons (by omega), List.drop_eq_getElem_cons (by omega),
        List.drop_eq_getElem_cons (by omega)]
    have hi : i ≤ s.length := by omega
    rw [hstep hi hrest] at hdash hdashed
    obtain ⟨a', b', seen, hseen, -⟩ := Cursor.afterDash_iff.mp hdash
    obtain rfl : d = '-' := (List.cons.inj (List.cons.inj hseen).2).1
    exact ⟨hi, _, a, b, rest, hrest, hdashed, rfl⟩

/-! ### Tokens with seasons -/

/-- Whether a token with a season occurs in a text. -/
def tellsSeason (s : List Char) : Bool :=
  season.occursIn s || seasonWord.occursIn s || crossEpisode.occursIn s

theorem tellsSeason_iff : tellsSeason s = true ↔ season.occursIn s = true ∨
    seasonWord.occursIn s = true ∨ crossEpisode.occursIn s = true := by
  rw [tellsSeason, Bool.or_eq_true, Bool.or_eq_true, or_assoc]

/-- Every token with a season takes a number for one. -/
theorem exists_number_of_tellsSeason (h : tellsSeason s = true) :
    ∃ q, (Cursor.ofList s).LeadsTo q ∧ q.beginsNumber = true ∧ q.TakenForSeason := by
  simp only [tellsSeason_iff, occursIn_iff_exists_ways] at h
  rcases h with ⟨c, hc, v, hv⟩ | ⟨c, hc, v, hv⟩ | ⟨c, hc, v, hv⟩
  · obtain ⟨q, hq, hnumber⟩ := exists_number_of_season hv
    exact ⟨q, hc.trans hq, hnumber⟩
  · obtain ⟨q, hq, hnumber⟩ := exists_number_of_seasonWord hv
    exact ⟨q, hc.trans hq, hnumber⟩
  · exact ⟨c, hc, exists_number_of_crossEpisode hv⟩

/-- A range of seasons begins with a season. -/
theorem season_of_seasonRange (h : seasonRange.occursIn s = true) : season.occursIn s = true := by
  rw [occursIn_iff_exists_ways] at h ⊢
  obtain ⟨c, hc, v, hv⟩ := h
  simp only [seasonRange, mem_ways_append_iff] at hv
  obtain ⟨_, ⟨_, ⟨_, ⟨u, ⟨u₁, hfront, hnumber⟩, hdash⟩, -⟩, -⟩, -⟩ := hv
  obtain ⟨ds, rest, hds, hne, -, -, rfl⟩ := mem_ways_digits_iff.mp hnumber
  obtain ⟨d, rest', rfl, hd, -⟩ := mem_ways_one_iff.mp hdash
  obtain rfl : d = '-' := beq_iff_eq.mp hd
  have hedge : Cursor.atWordEdge ⟨ds.reverse ++ u₁.cursor.seen, '-' :: rest'⟩ = true :=
    (atWordEdge_digits_iff hds hne).mpr fun ch hch => by
      obtain rfl := Option.some.inj hch
      decide
  have hseason := mem_ways_append_iff.mpr ⟨u₁, mem_ways_append_iff.mpr hfront, hnumber⟩
  exact ⟨c, hc, _, mem_ways_append_iff.mpr ⟨_, hseason,
    mem_ways_either_iff.mpr (.inr (mem_ways_wordEdge_iff.mpr ⟨rfl, hedge⟩))⟩⟩

/-- A season with an episode is a season. -/
theorem season_of_episode (h : episode.occursIn s = true) : season.occursIn s = true := by
  rw [occursIn_iff_exists_ways] at h ⊢
  obtain ⟨c, hc, v, hv⟩ := h
  simp only [episode, mem_ways_append_iff] at hv
  obtain ⟨_, ⟨_, ⟨u₃, ⟨u₂, ⟨u₁, hfront, hnumber⟩, hletter⟩, hdigits⟩, -⟩, -⟩ := hv
  obtain ⟨ds, rest, hds, hne, -, hrest, -⟩ := mem_ways_digits_iff.mp hdigits
  obtain ⟨d, ds, rfl⟩ := List.exists_cons_of_ne_nil hne
  -- the season holds its number in a group, the episode does not
  have hgroup : ⟨u₂.cursor, (1, u₂.cursor.since u₁.cursor) :: u₂.groups⟩ ∈
      (group 1 (digits 1 2)).ways u₁ := List.mem_map.mpr ⟨u₂, hnumber, rfl⟩
  obtain ⟨u, hu, hplace⟩ := exists_ways_with ((1, u₂.cursor.since u₁.cursor) :: u₂.groups) hletter
  rw [← hplace] at hrest
  have hdigit := (mem_ways_one_iff (k := .digit)).mpr
    ⟨d, _, hrest, hds d List.mem_cons_self, rfl⟩
  have hseason := mem_ways_append_iff.mpr ⟨u₁, mem_ways_append_iff.mpr hfront, hgroup⟩
  exact ⟨c, hc, _, mem_ways_append_iff.mpr ⟨_, hseason,
    mem_ways_either_iff.mpr (.inl (mem_ways_append_iff.mpr ⟨u, hu, hdigit⟩))⟩⟩

/-! ### Kinds of releases -/

theorem mediaType_eq_series (n : Name) : n.parse.mediaType = .series ↔
    seasons n.normalized ≠ [] ∨ episodes n.normalized ≠ [] := by
  have hkind : n.parse.mediaType =
      if (seasons n.normalized).isEmpty && (episodes n.normalized).isEmpty then .movie
      else .series := rfl
  rw [hkind]
  cases seasons n.normalized <;> cases episodes n.normalized <;> simp

theorem tellsSeason_of_seasons (h : seasons s ≠ []) : tellsSeason s = true := by
  rw [tellsSeason_iff]
  by_cases hrange : seasonRange.occursIn s = true
  · exact .inl (season_of_seasonRange hrange)
  · have hsingle : seasons s = singleSeasons s := by
      rw [seasons, seasonsOfRange, Option.not_isSome_iff_eq_none.mp hrange]
      rfl
    -- every season that is listed was told by a token
    obtain ⟨k, hk⟩ := List.exists_mem_of_ne_nil _ (hsingle ▸ h)
    obtain ⟨f, hf, -⟩ :=
      List.mem_filterMap.mp (mem_of_mem_unique ((List.mergeSort_perm _ _).mem_iff.mp hk))
    rcases List.mem_append.mp hf with hf | hf
    · rcases List.mem_append.mp hf with hf | hf
      · exact .inl (isMatch_of_mem_findAll hf).occursIn
      · exact .inr (.inl (isMatch_of_mem_findAll hf).occursIn)
    · exact .inr (.inr (isMatch_of_mem_findAll hf).occursIn)

theorem exists_isDashed_iff : (∃ i, (Cursor.after s i).isDashed = true) ↔
    absoluteEpisode.occursIn s = true := by
  simp only [occursIn_iff_exists_matchesAt, matchesAt_absoluteEpisode]
  constructor
  · rintro ⟨i, hi⟩
    obtain ⟨k, rfl⟩ := Nat.exists_eq_add_of_le' (Cursor.le_of_isDashed hi)
    exact ⟨k, hi⟩
  · rintro ⟨i, hi⟩
    exact ⟨i + 3, hi⟩

/-- Without other tokens, the only episode is the first number behind a dash. -/
theorem episodes_eq_of_not_occursIn (hepisode : episode.occursIn s = false)
    (hcross : crossEpisode.occursIn s = false) : episodes s =
      ((absoluteEpisode.find s).bind fun f => number? (f.group 1)).toList := by
  rw [episodes, Option.isSome_eq_false_iff.mp hepisode |> Option.isNone_iff_eq_none.mp,
    Option.isSome_eq_false_iff.mp hcross |> Option.isNone_iff_eq_none.mp]

theorem episodes_of_not_tellsSeason (h : tellsSeason s = false) : episodes s =
    ((absoluteEpisode.find s).bind fun f => number? (f.group 1)).toList := by
  rw [← Bool.not_eq_true, tellsSeason_iff, not_or, not_or] at h
  obtain ⟨hseason, -, hcross⟩ := h
  exact episodes_eq_of_not_occursIn (Bool.eq_false_iff.mpr (mt season_of_episode hseason))
    (Bool.eq_false_iff.mpr hcross)

theorem told_of_episodes (h : episodes s ≠ []) :
    tellsSeason s = true ∨ ∃ i, (Cursor.after s i).isDashed = true := by
  rw [exists_isDashed_iff, tellsSeason_iff]
  unfold episodes at h
  split at h
  next f hf => exact .inl (.inl (season_of_episode (isMatch_of_find hf).occursIn))
  next =>
    split at h
    next f hf => exact .inl (.inr (.inr (isMatch_of_find hf).occursIn))
    next =>
      cases hfind : absoluteEpisode.find s with
      | none => simp [hfind] at h
      | some f => exact .inr (isMatch_of_find hfind).occursIn

theorem mem_unique_of_mem {α : Type} [DecidableEq α] {items : List α} {a : α} (h : a ∈ items) :
    a ∈ unique items := by
  have hfold : ∀ xs known : List α, a ∈ known ∨ a ∈ xs → a ∈ xs.foldl pushUnique known := by
    intro xs
    induction xs with
    | nil => exact fun known h => h.resolve_right List.not_mem_nil
    | cons x xs ih =>
      refine fun known h => ih _ ?_
      unfold pushUnique
      split <;> grind
  exact hfold items [] (.inr h)

/-- A release of a series tells a season, or a number stands behind a dash in its name. -/
theorem told_of_series {n : Name} (h : n.parse.mediaType = .series) :
    tellsSeason n.normalized = true ∨ ∃ i, (Cursor.after n.normalized i).isDashed = true := by
  rcases (mediaType_eq_series n).mp h with h | h
  · exact .inl (tellsSeason_of_seasons h)
  · exact told_of_episodes h

/-- Whether the decimal digits of a text are those with which numbers are written. -/
def HasPlainDigits (s : List Char) : Prop :=
  ∀ ch ∈ s, Text.isDecimalDigit ch = true → ch.isDigit = true

section PlainDigits

variable {p : Pattern} {f : Found} {k most : Nat} (hs : HasPlainDigits s)
include hs

/-- A group of plain digits is a number. -/
theorem exists_number_of_group (h : p.IsMatch s f) (hk : p.binds k = true)
    (hparts : p.parts k = [digits 1 most]) : ∃ m, number? (f.group k) = some m := by
  obtain ⟨q, hq, hspells, hsub⟩ := h.exists_part hk
  rw [hparts, List.mem_singleton] at hq
  subst hq
  have hrun : CharClass.digit.IsRun 1 (some most) (f.group k) := hspells
  have hne : (f.group k).isEmpty = false := by
    simpa using List.ne_nil_of_length_pos hrun.least_le
  have hall : (f.group k).all Char.isDigit = true :=
    List.all_eq_true.mpr fun ch hch => hs ch (hsub hch) (hrun.chars ch hch)
  simp [number?, hne, hall]

theorem singleSeasons_ne_nil (h : tellsSeason s = true) : singleSeasons s ≠ [] := by
  obtain ⟨f, hf, m, hm⟩ : ∃ f ∈ season.findAll s ++ seasonWord.findAll s ++ crossEpisode.findAll s,
      ∃ m, number? (f.group 1) = some m := by
    simp only [List.mem_append]
    rcases tellsSeason_iff.mp h with h | h | h
    · obtain ⟨f, hf⟩ := Option.isSome_iff_exists.mp h
      exact ⟨f, .inl (.inl (mem_findAll_of_find hf)),
        exists_number_of_group hs (isMatch_of_find hf) (by decide) rfl⟩
    · obtain ⟨f, hf⟩ := Option.isSome_iff_exists.mp h
      exact ⟨f, .inl (.inr (mem_findAll_of_find hf)),
        exists_number_of_group hs (isMatch_of_find hf) (by decide) rfl⟩
    · obtain ⟨f, hf⟩ := Option.isSome_iff_exists.mp h
      exact ⟨f, .inr (mem_findAll_of_find hf),
        exists_number_of_group hs (isMatch_of_find hf) (by decide) rfl⟩
  exact List.ne_nil_of_mem ((List.mergeSort_perm _ _).mem_iff.mpr
    (mem_unique_of_mem (List.mem_filterMap.mpr ⟨f, hf, hm⟩)))

theorem seasons_ne_nil (h : tellsSeason s = true) : seasons s ≠ [] := by
  rw [seasons, seasonsOfRange]
  split
  next f hf =>
    dsimp only
    split
    next hle =>
      -- a range that runs upwards has a first season
      rw [Option.getD_some, span, Ne, List.range'_eq_nil_iff]
      omega
    next => exact singleSeasons_ne_nil hs h
  next => exact singleSeasons_ne_nil hs h

end PlainDigits

/-- A release belongs to a series exactly if its name tells a season or a number stands behind a
dash in it. -/
theorem mediaType_eq_series_iff {n : Name} (hs : HasPlainDigits n.normalized) :
    n.parse.mediaType = .series ↔
      tellsSeason n.normalized = true ∨ ∃ i, (Cursor.after n.normalized i).isDashed = true := by
  refine ⟨told_of_series, fun h => (mediaType_eq_series n).mpr ?_⟩
  by_cases hseason : tellsSeason n.normalized = true
  · exact .inl (seasons_ne_nil hs hseason)
  · have hdashed := exists_isDashed_iff.mp (h.resolve_left hseason)
    obtain ⟨f, hf⟩ := Option.isSome_iff_exists.mp hdashed
    obtain ⟨m, hm⟩ := exists_number_of_group (k := 1) hs (isMatch_of_find hf) (by decide) rfl
    rw [episodes_of_not_tellsSeason (Bool.eq_false_iff.mpr hseason), hf, Option.bind_some, hm]
    exact .inr (List.cons_ne_nil m [])

end Release

end Harvest
