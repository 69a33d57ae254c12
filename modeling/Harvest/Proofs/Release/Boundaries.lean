import Harvest.Proofs.Pattern.Places

/-!
# Where titles end

The title of a release name is meant to end at the first token behind the beginning of the name. A
search for the leftmost match finds that token unless another match of the same pattern begins the
name: then it finds the beginning, and all later matches are overlooked. Years are searched for in
another way, by which a year at the beginning does not hide a later one.

## Main definitions

* `Release.firstPlace` — the first place behind the beginning with a property
* `Release.openingBracket` — an opening bracket as a pattern
* `Release.Name.tokenAt`, `Release.Name.seenAt` — where tokens are, and where they are seen
* `Release.Name.firstToken` — where the first token behind the beginning of a name begins

## Main results

* `Release.Name.titleEnd_eq` — the title ends at the first token that is seen
* `Release.title_stops_iff` — when that is the first token
* `Release.title_overrun` — a title that runs past it
-/

namespace Harvest.Release

open Pattern

/-! ### First places -/

/-- The first place behind the beginning, up to `last`, that has a property; `last` if there is
none. -/
def firstPlace (P : Nat → Bool) (last : Nat) : Nat :=
  ((List.range' 1 last).find? P).getD last

section FirstPlace

variable {P Q : Nat → Bool} {last i : Nat}

theorem firstPlace_spec (P : Nat → Bool) (last : Nat) : firstPlace P last ≤ last ∧
    (firstPlace P last ≠ last → 0 < firstPlace P last ∧ P (firstPlace P last) = true) ∧
      ∀ j, 0 < j → j < firstPlace P last → P j = false := by
  unfold firstPlace
  cases hfind : (List.range' 1 last).find? P with
  | none =>
    refine ⟨Nat.le_refl _, fun h => absurd rfl h, fun j hpos (hj : j < last) => ?_⟩
    simpa using List.find?_eq_none.mp hfind j (List.mem_range'_1.mpr (by omega))
  | some i =>
    obtain ⟨hi, hmem, hbefore⟩ := List.find?_range'_eq_some.mp hfind
    have hbounds := List.mem_range'_1.mp hmem
    refine ⟨Nat.le_of_lt_succ (by simpa [Nat.add_comm] using hbounds.2), fun _ => ⟨hbounds.1, hi⟩,
      fun j hpos hj => ?_⟩
    simpa using hbefore j hpos hj

theorem firstPlace_le (hpos : 0 < i) (h : P i = true) : firstPlace P last ≤ i := by
  obtain ⟨-, -, hbefore⟩ := firstPlace_spec P last
  by_contra hlt
  cases (hbefore i hpos (Nat.lt_of_not_le hlt)).symm.trans h

/-- A property that holds less often does not hold earlier. -/
theorem firstPlace_mono (h : ∀ i, Q i = true → P i = true) (last : Nat) :
    firstPlace P last ≤ firstPlace Q last := by
  obtain ⟨-, hhere, -⟩ := firstPlace_spec Q last
  by_cases hend : firstPlace Q last = last
  · rw [hend]
    exact (firstPlace_spec P last).1
  · obtain ⟨hpos, hplace⟩ := hhere hend
    exact firstPlace_le hpos (h _ hplace)

/-- It first holds at the same place exactly if it holds there. -/
theorem firstPlace_eq_iff (h : ∀ i, Q i = true → P i = true) (last : Nat) :
    firstPlace Q last = firstPlace P last ↔
      firstPlace P last = last ∨ Q (firstPlace P last) = true := by
  constructor
  · intro heq
    rw [← heq]
    by_cases hend : firstPlace Q last = last
    · exact .inl hend
    · exact .inr ((firstPlace_spec Q last).2.1 hend).2
  · intro hplace
    refine Nat.le_antisymm ?_ (firstPlace_mono h last)
    obtain ⟨-, hhere, -⟩ := firstPlace_spec P last
    by_cases hend : firstPlace P last = last
    · rw [hend]
      exact (firstPlace_spec Q last).1
    · exact firstPlace_le (hhere hend).1 (hplace.resolve_left hend)

end FirstPlace

/-! ### Tokens -/

/-- An opening bracket. -/
def openingBracket : Pattern := one (.among ['[', '('])

theorem contains_openingBracket (c : Char) :
    (CharClass.among ['[', '(']).contains c = (c == '[' || c == '(') := by
  rw [CharClass.contains, List.contains_cons, List.contains_cons, List.contains_nil, Bool.or_false]

theorem map_offset_find_openingBracket (s : List Char) :
    (openingBracket.find s).map Found.offset = s.findIdx? fun c => c == '[' || c == '(' := by
  ext i
  rw [offset_find_eq_some_iff, List.findIdx?_eq_some_iff_getElem]
  simp only [openingBracket, matchesAt_one, ← contains_openingBracket, Bool.not_eq_true]
  constructor
  · rintro ⟨hi, hbefore⟩
    obtain ⟨ch, hch, hclass⟩ := (Option.any_eq_true _ _).mp hi
    obtain ⟨hlt, rfl⟩ := List.getElem?_eq_some_iff.mp hch
    refine ⟨hlt, hclass, fun j hj => ?_⟩
    have hnot := hbefore j hj
    rwa [List.getElem?_eq_getElem (by omega), Option.any_some] at hnot
  · rintro ⟨hlt, hclass, hbefore⟩
    refine ⟨?_, fun j hj => ?_⟩
    · rwa [List.getElem?_eq_getElem hlt, Option.any_some]
    · rw [List.getElem?_eq_getElem (by omega), Option.any_some]
      exact hbefore j hj

/-- The tokens of which the leftmost match is searched for. -/
def plainTokens : List Pattern := boundaries ++ [openingBracket]

theorem apart_year (s : List Char) : year.Apart s := apart_of_isWordy (by decide) (by decide) s

namespace Name

variable {n : Name} {i : Nat}

/-- Whether a token begins behind `i` characters of the name. -/
def tokenAt (n : Name) (i : Nat) : Bool :=
  year.matchesAt n.normalized i || plainTokens.any (·.matchesAt n.normalized i)

/-- Whether a token begins behind `i` characters that is a year or of a pattern of which no other
match begins the name. -/
def seenAt (n : Name) (i : Nat) : Bool :=
  year.matchesAt n.normalized i ||
    plainTokens.any fun p => p.matchesAt n.normalized i && !p.matchesAt n.normalized 0

/-- Where the first token begins that does not begin the name; the end of the name if there is
none. -/
def firstToken (n : Name) : Nat := firstPlace n.tokenAt n.normalized.length

theorem seenAt_iff : n.seenAt i = true ↔ year.matchesAt n.normalized i = true ∨
    ∃ p ∈ plainTokens, p.matchesAt n.normalized i = true ∧ p.matchesAt n.normalized 0 = false := by
  simp only [seenAt, Bool.or_eq_true, List.any_eq_true, Bool.and_eq_true, Bool.not_eq_true']

theorem tokenAt_of_seenAt (h : n.seenAt i = true) : n.tokenAt i = true := by
  rw [tokenAt, Bool.or_eq_true, List.any_eq_true]
  exact (seenAt_iff.mp h).imp_right fun ⟨p, hp, hmatch, _⟩ => ⟨p, hp, hmatch⟩

/-! ### The end of the title -/

theorem offset_yearMatch_eq_some_iff : n.yearMatch.map Found.offset = some i ↔
    0 < i ∧ year.matchesAt n.normalized i = true ∧
      ∀ j, 0 < j → j < i → year.matchesAt n.normalized j = false := by
  -- all years are found, since none begins inside another one
  have hmap : n.yearMatch.map Found.offset = (List.range (n.normalized.length + 1)).find?
      fun j => decide (year.matchesAt n.normalized j = true ∧ decide (0 < j) = true) := by
    rw [← List.find?_filter, ← map_offset_findAll (apart_year _), List.find?_map]
    rfl
  rw [hmap, List.find?_range_eq_some]
  simp only [decide_eq_true_eq, Bool.not_eq_true', decide_eq_false_iff_not, List.mem_range]
  constructor
  · rintro ⟨⟨hmatch, hpos⟩, -, hbefore⟩
    exact ⟨hpos, hmatch, fun j hj hji => by simpa [hj] using hbefore j hji⟩
  · rintro ⟨hpos, hmatch, hbefore⟩
    refine ⟨⟨hmatch, hpos⟩, Nat.lt_succ_of_le (le_length_of_matchesAt hmatch), ?_⟩
    rintro j hji ⟨hj, hjpos⟩
    cases (hbefore j hjpos hji).symm.trans hj

theorem mem_boundaryOffsets_iff : i ∈ n.boundaryOffsets ↔ n.yearMatch.map Found.offset = some i ∨
    ∃ p ∈ plainTokens, (p.find n.normalized).map Found.offset = some i := by
  rw [boundaryOffsets, List.mem_append, List.mem_append, Option.mem_toList, Option.mem_toList,
    bracket, ← map_offset_find_openingBracket, List.mem_filterMap, or_assoc]
  simp only [plainTokens, List.mem_append, List.mem_singleton, or_and_right, exists_or,
    exists_eq_left]

/-- A place behind the beginning that a search gives is that of a token that is seen. -/
theorem seenAt_of_mem_boundaryOffsets (hpos : 0 < i) (h : i ∈ n.boundaryOffsets) :
    n.seenAt i = true := by
  rw [seenAt_iff]
  rcases mem_boundaryOffsets_iff.mp h with hyear | ⟨p, hp, hfind⟩
  · exact .inl (offset_yearMatch_eq_some_iff.mp hyear).2.1
  · obtain ⟨hmatch, hbefore⟩ := offset_find_eq_some_iff.mp hfind
    exact .inr ⟨p, hp, hmatch, hbefore 0 hpos⟩

/-- The first place of a token that is seen is one that a search gives. -/
theorem mem_boundaryOffsets_of_seenAt (hpos : 0 < i) (h : n.seenAt i = true)
    (hbefore : ∀ j, 0 < j → j < i → n.seenAt j = false) : i ∈ n.boundaryOffsets := by
  have hnone (j : Nat) (hj : 0 < j) (hji : j < i) : ¬(year.matchesAt n.normalized j = true ∨
      ∃ p ∈ plainTokens, p.matchesAt n.normalized j = true ∧
        p.matchesAt n.normalized 0 = false) := by
    rw [← seenAt_iff, hbefore j hj hji]
    exact Bool.false_ne_true
  rw [mem_boundaryOffsets_iff]
  rcases seenAt_iff.mp h with hyear | ⟨p, hp, hmatch, hfirst⟩
  · refine .inl (offset_yearMatch_eq_some_iff.mpr ⟨hpos, hyear, fun j hj hji => ?_⟩)
    exact Bool.eq_false_iff.mpr fun hmatch => hnone j hj hji (.inl hmatch)
  · refine .inr ⟨p, hp, offset_find_eq_some_iff.mpr ⟨hmatch, fun j hji => ?_⟩⟩
    -- an earlier match is at the beginning, where there is none, or would have been seen itself
    rcases Nat.eq_zero_or_pos j with rfl | hj
    · exact hfirst
    · exact Bool.eq_false_iff.mpr fun hmatch => hnone j hj hji (.inr ⟨p, hp, hmatch, hfirst⟩)

/-- The title ends at the first token behind the beginning that is seen. -/
theorem titleEnd_eq (n : Name) : n.titleEnd = firstPlace n.seenAt n.normalized.length := by
  obtain ⟨-, hhere, hbefore⟩ := firstPlace_spec n.seenAt n.normalized.length
  have hmem {j : Nat} : j ∈ n.boundaryOffsets.filter (0 < ·) ↔ j ∈ n.boundaryOffsets ∧ 0 < j := by
    rw [List.mem_filter, decide_eq_true_eq]
  have hplace (hend : firstPlace n.seenAt n.normalized.length ≠ n.normalized.length) :
      firstPlace n.seenAt n.normalized.length ∈ n.boundaryOffsets.filter (0 < ·) :=
    hmem.mpr ⟨mem_boundaryOffsets_of_seenAt (hhere hend).1 (hhere hend).2 hbefore, (hhere hend).1⟩
  rw [titleEnd]
  cases hmin : (n.boundaryOffsets.filter (0 < ·)).min? with
  | none =>
    -- a token that is seen would be among the places
    rw [Option.getD_none]
    by_contra hend
    have hmem := hplace (Ne.symm hend)
    rw [List.min?_eq_none_iff.mp hmin] at hmem
    cases hmem
  | some k =>
    obtain ⟨hk, hkpos⟩ := hmem.mp (List.min?_mem hmin)
    have hseen := seenAt_of_mem_boundaryOffsets hkpos hk
    have hklength : k ≤ n.normalized.length := by
      have hend := titleEnd_le n
      rwa [titleEnd, hmin] at hend
    -- each of both places is one of those of which the other is the first
    rw [Option.getD_some]
    refine Nat.le_antisymm ?_ (firstPlace_le hkpos hseen)
    by_cases hend : firstPlace n.seenAt n.normalized.length = n.normalized.length
    · rwa [hend]
    · exact (List.min?_eq_some_iff.mp hmin).2 _ (hplace hend)

end Name

/-- The title is the text before the place where it ends, which is the first token behind the
beginning of the name that is seen. That is the first token at all exactly if there is none, or it
is a year, or no other match of its pattern begins the name; else the title runs past it. -/
theorem title_stops_iff (name : String) (h : tidy ((Name.ofChars name.toList).normalized.take
    (Name.ofChars name.toList).titleEnd) ≠ []) :
    let n := Name.ofChars name.toList
    (parse name).title = String.ofList (tidy (n.normalized.take n.titleEnd)) ∧
      n.titleEnd = firstPlace n.seenAt n.normalized.length ∧
      n.firstToken ≤ n.titleEnd ∧
      (n.titleEnd = n.firstToken ↔
        n.firstToken = n.normalized.length ∨ n.seenAt n.firstToken = true) := by
  intro n
  have htitle : n.title = tidy (n.normalized.take n.titleEnd) := by
    rw [Name.title]
    exact if_neg (by simpa using h)
  refine ⟨congrArg String.ofList htitle, n.titleEnd_eq, ?_, ?_⟩
  · rw [n.titleEnd_eq]
    exact firstPlace_mono (fun _ => Name.tokenAt_of_seenAt) _
  · rw [n.titleEnd_eq]
    exact firstPlace_eq_iff (fun _ => Name.tokenAt_of_seenAt) _

/-- A year at the beginning does not hide a later one. -/
theorem title_stops_1917 : (parse "1917.2019.2160p").title = "1917" ∧
    (Name.ofChars "1917.2019.2160p".toList).titleEnd =
      (Name.ofChars "1917.2019.2160p".toList).firstToken :=
  have hstops := title_stops_iff "1917.2019.2160p" (by decide)
  ⟨by decide, hstops.2.2.2.mpr (.inr (by decide))⟩

/-- A source at the beginning hides the picture height behind the title. -/
theorem title_overrun :
    let name := "Web.Therapy.720p.S01E02.WEBRip"
    let n := Name.ofChars name.toList
    tidy (n.normalized.take n.firstToken) = "Web Therapy".toList ∧
      tidy (n.normalized.take n.titleEnd) ≠ [] ∧ (parse name).title = "Web Therapy 720p" := by
  decide

end Harvest.Release
