import Harvest.Proofs.Release.Cuts
import Harvest.Proofs.Text.Trimmed
import Harvest.Stream.Record
import Mathlib.Data.List.Sort

/-!
# What release names tell

Whatever a release name is, what is read off it is well formed: the title is trimmed, the year is
one of two centuries, the seasons increase, the episodes follow one another, and no label is given
twice. So the files of a release have different numbers. A title is empty only if nothing is left
of the name.

## Main definitions

* `Consecutive` — numbers that follow one another
* `ParsedRelease.IsWellFormed` — what can be relied on
* `Stream.IsBreakdown` — the files that belong to seasons and episodes
* `Release.Name.remainder` — the name without its extension, behind a leading group

## Main results

* `Release.isWellFormed_parse` — every name is read so
* `Release.title_parse_eq_empty_iff` — names without a title
* `Stream.isBreakdown_files` — the files of a release
* `Release.parse_wellFormed` — all of it for every name
-/

namespace Harvest

/-- Numbers that follow one another. -/
def Consecutive (ns : List Nat) : Prop := ∃ first, ns = List.range' first ns.length

/-- What a release name tells can be relied on. -/
structure ParsedRelease.IsWellFormed (p : ParsedRelease) : Prop where
  /-- There is no white space at the ends of the title. -/
  title : Text.IsTrimmed p.title.toList
  /-- There are spaces for dots and underscores. -/
  separators : ∀ ch ∈ p.title.toList, ch ≠ '.' ∧ ch ≠ '_'
  year : ∀ y ∈ p.year, 1900 ≤ y ∧ y ≤ 2099
  /-- The seasons increase. -/
  seasons : p.seasons.Pairwise (· < ·) ∧ ∀ k ∈ p.seasons, k ≤ 99
  /-- The episodes follow one another. -/
  episodes : Consecutive p.episodes ∧ ∀ k ∈ p.episodes, k ≤ 9999
  /-- No label is given twice. -/
  labels : p.audio.Nodup ∧ p.channels.Nodup ∧ p.hdr.Nodup ∧ p.languages.Nodup
  /-- The extended kind of brightness range takes the place of the plain one. -/
  hdr : ¬("HDR10" ∈ p.hdr ∧ "HDR10+" ∈ p.hdr)

/-- The season and the episode of a file. -/
def StreamFile.numbers (f : StreamFile) : Option Nat × Option Nat := (f.season, f.episode)

/-- The files are those of the seasons and episodes of a release. -/
structure Stream.IsBreakdown (p : ParsedRelease) (files : List StreamFile) : Prop where
  /-- No two files have the same numbers. -/
  nodup : (files.map StreamFile.numbers).Nodup
  /-- Episodes belong to the smallest season. -/
  episodes : ∀ least, p.seasons.min? = some least → p.episodes ≠ [] →
    files.map StreamFile.numbers = p.episodes.map fun e => (some least, some e)
  /-- Without an episode, there is one file for each season. -/
  seasons : p.episodes = [] → files.map StreamFile.numbers = p.seasons.map fun s => (some s, some 1)
  /-- Without a season, there are no files. -/
  empty : p.seasons = [] → files = []

/-! ### Files -/

namespace Stream

variable {p : ParsedRelease}

/-- The numbers of the files of a release with a season. -/
theorem map_numbers_files (filename : String) {first : Nat} {rest : List Nat}
    (h : p.seasons = first :: rest) :
    (files filename p p.mediaType).map StreamFile.numbers =
      if p.episodes = [] then p.seasons.map fun s => (some s, some 1)
      else p.episodes.map fun e => (some first, some e) := by
  have hkind : p.mediaType = .series := by simp [ParsedRelease.mediaType, h]
  have hfiles : files filename p .series =
      if p.episodes.isEmpty then p.seasons.map fun s => video filename s 1
      else p.episodes.map (video filename first) := by
    unfold files
    rw [h]
  rw [hkind, hfiles]
  by_cases hnone : p.episodes = []
  · rw [if_pos hnone, if_pos (List.isEmpty_iff.mpr hnone), List.map_map]
    rfl
  · rw [if_neg hnone, if_neg (by simpa using hnone), List.map_map]
    rfl

/-- The files of a release that is well formed are those of its seasons and episodes. -/
theorem isBreakdown_files (filename : String) (h : p.IsWellFormed) :
    IsBreakdown p (files filename p p.mediaType) := by
  obtain ⟨hlt, -⟩ := h.seasons
  obtain ⟨⟨start, hepisodes⟩, -⟩ := h.episodes
  cases hseasons : p.seasons with
  | nil =>
    rw [files_of_no_season filename _ hseasons]
    exact ⟨List.nodup_nil, fun least hleast => by simp [hseasons] at hleast,
      fun _ => by rw [hseasons, List.map_nil, List.map_nil], fun _ => rfl⟩
  | cons first rest =>
    have hnumbers := map_numbers_files filename hseasons
    -- the seasons increase, so the first one is the smallest
    have hfirst : p.seasons.min? = some first := by
      rw [hseasons, List.min?_eq_some_iff]
      rw [hseasons] at hlt
      refine ⟨List.mem_cons_self, List.forall_mem_cons.mpr ⟨Nat.le_refl _, fun k hk => ?_⟩⟩
      exact Nat.le_of_lt (List.rel_of_pairwise_cons hlt hk)
    refine ⟨?_, fun least hleast hsome => ?_, fun hnone => ?_, fun hnil => nomatch hseasons ▸ hnil⟩
    · have hseason : p.seasons.Nodup := hlt.imp Nat.ne_of_lt
      have hepisode : p.episodes.Nodup := hepisodes ▸ List.nodup_range'
      rw [hnumbers]
      split
      · exact hseason.map fun a b heq => by simpa using heq
      · exact hepisode.map fun a b heq => by simpa using heq
    · obtain rfl : first = least := Option.some.inj (hfirst.symm.trans hleast)
      rw [hnumbers, if_neg hsome]
    · rw [hnumbers, if_pos hnone]

end Stream

/-! ### Titles -/

namespace Release

open Pattern

variable {n : Name} {s : List Char}

/-- The name without its extension, behind a leading group. -/
def Name.remainder (n : Name) : List Char :=
  match Release.leadingGroup.find (spaceSeparators n.raw) with
  | some f => n.raw.drop f.text.length
  | none => n.raw

theorem spaceSeparators_remainder (s : List Char) :
    spaceSeparators (Name.ofChars s).remainder = (Name.ofChars s).normalized := by
  unfold Name.remainder
  split
  next f hf =>
    have hleading := (isSound_ofChars s).leading f hf
    rw [spaceSeparators, List.map_drop, ← spaceSeparators, hleading, List.drop_left]
  next hf =>
    rw [Name.raw_ofChars] at hf ⊢
    unfold Name.ofChars
    dsimp only
    rw [hf]

theorem not_separator_of_mem_spaceSeparators {ch : Char} (h : ch ∈ spaceSeparators s) :
    ch ≠ '.' ∧ ch ≠ '_' := by
  obtain ⟨c, -, rfl⟩ := List.mem_map.mp h
  split
  next => decide
  next hc => simpa using hc

/-- The spaced text is blank exactly if there are only white space and separators. -/
theorem forall_isBlank_spaceSeparators_iff :
    (∀ ch ∈ spaceSeparators s, Text.isBlank ch = true) ↔
      ∀ ch ∈ s, Text.isBlank ch = true ∨ ch = '.' ∨ ch = '_' := by
  rw [spaceSeparators, List.forall_mem_map]
  refine forall₂_congr fun ch _ => ?_
  split
  next hch =>
    have hseparator : ch = '.' ∨ ch = '_' := by simpa using hch
    exact ⟨fun _ => .inr hseparator, fun _ => by decide⟩
  next hch =>
    have hseparator : ¬(ch = '.' ∨ ch = '_') := by simpa using hch
    rw [or_iff_left hseparator]

/-- A title is a trimmed part of the name. -/
theorem exists_title_eq_trim (n : Name) : ∃ s, n.title = Text.trim s ∧ s ⊆ n.normalized := by
  rw [Name.title]
  split
  · exact ⟨n.normalized, rfl, List.Subset.refl _⟩
  · refine ⟨_, rfl, ?_⟩
    have hinner := (Text.isPrefix_dropEndWhile (fun c => c == '-' || c == ' ')
      (Text.trim (n.normalized.take n.titleEnd))).subset
    exact fun ch hch => List.take_subset _ _ ((Text.trim_infix _).subset (hinner hch))

theorem isTrimmed_title (n : Name) : Text.IsTrimmed n.title := by
  obtain ⟨s, htitle, -⟩ := exists_title_eq_trim n
  exact htitle ▸ Text.isTrimmed_trim s

theorem title_subset (n : Name) : n.title ⊆ n.normalized := by
  obtain ⟨s, htitle, hs⟩ := exists_title_eq_trim n
  exact htitle ▸ fun ch hch => hs ((Text.trim_infix s).subset hch)

/-- A title is empty exactly if the name is blank. -/
theorem title_eq_nil_iff (n : Name) :
    n.title = [] ↔ ∀ ch ∈ n.normalized, Text.isBlank ch = true := by
  constructor
  · intro h
    -- without a text in front of its end, the title is the whole name
    rw [Name.title] at h
    split at h
    · exact Text.trim_eq_nil_iff.mp h
    next hne => exact absurd (List.isEmpty_iff.mpr h) hne
  · intro h
    obtain ⟨s, htitle, hs⟩ := exists_title_eq_trim n
    rw [htitle, Text.trim_eq_nil_iff]
    exact fun ch hch => h ch (hs hch)

/-- A name has no title exactly if nothing but white space and separators is left of it. -/
theorem title_parse_eq_empty_iff (name : String) : (parse name).title = "" ↔
    ∀ ch ∈ (Name.ofChars name.toList).remainder,
      Text.isBlank ch = true ∨ ch = '.' ∨ ch = '_' := by
  rw [← forall_isBlank_spaceSeparators_iff, spaceSeparators_remainder, ← title_eq_nil_iff,
    ← String.ofList_eq_empty_iff]
  rfl

/-! ### Numbers and labels -/

theorem pairwise_lt_span (first last : Nat) : (span first last).Pairwise (· < ·) :=
  List.pairwise_lt_range'

theorem pairwise_lt_singleSeasons (s : List Char) : (singleSeasons s).Pairwise (· < ·) := by
  have hnodup : (singleSeasons s).Nodup :=
    (List.mergeSort_perm _ _).nodup_iff.mpr (nodup_unique _)
  have hsorted : (singleSeasons s).Pairwise (· ≤ ·) := List.pairwise_mergeSort' _ _
  exact (hsorted.and hnodup).imp fun h => Nat.lt_of_le_of_ne h.1 h.2

theorem pairwise_lt_seasons (s : List Char) : (seasons s).Pairwise (· < ·) := by
  unfold seasons seasonsOfRange
  split
  · dsimp only
    split
    · exact pairwise_lt_span _ _
    · exact pairwise_lt_singleSeasons s
  · exact pairwise_lt_singleSeasons s

theorem consecutive_span (first last : Nat) : Consecutive (span first last) :=
  ⟨first, by rw [span, List.length_range']⟩

theorem consecutive_toList (o : Option Nat) : Consecutive o.toList := by
  cases o with
  | none => exact ⟨0, rfl⟩
  | some k => exact ⟨k, rfl⟩

theorem consecutive_episodes (s : List Char) : Consecutive (episodes s) := by
  unfold episodes
  split
  next f hf =>
    have hsingle := consecutive_toList (some ((number? (f.group 1)).getD 0))
    dsimp only
    split
    · split
      · exact consecutive_span _ _
      · exact hsingle
    · exact hsingle
  next =>
    split
    · exact consecutive_toList _
    · exact consecutive_toList _

theorem nodup_channelsOf (s : List Char) : (channelsOf s).Nodup := nodup_unique _

theorem nodup_hdrOf (s : List Char) : (hdrOf s).Nodup := by
  unfold hdrOf
  dsimp only
  split
  · exact (nodup_allLabels hdr s).filter _
  · exact nodup_allLabels hdr s

/-- The extended kind of brightness range takes the place of the plain one. -/
theorem hdrOf_excludes (s : List Char) : ¬("HDR10" ∈ hdrOf s ∧ "HDR10+" ∈ hdrOf s) := by
  rintro ⟨hplain, hextended⟩
  -- with the extended kind, the plain one has been filtered out; without it, it is not there
  unfold hdrOf at hplain hextended
  dsimp only at hplain hextended
  split at hplain
  · simpa using (List.mem_filter.mp hplain).2
  next hnot =>
    rw [if_neg hnot] at hextended
    exact hnot hextended

/-! ### The whole record -/

theorem toList_title_parse (name : String) :
    (parse name).title.toList = (Name.ofChars name.toList).title :=
  String.toList_ofList

/-- Every name is read so that the record can be relied on. -/
theorem isWellFormed_parse (name : String) : (parse name).IsWellFormed where
  title := by
    rw [toList_title_parse]
    exact isTrimmed_title _
  separators := by
    rw [toList_title_parse]
    intro ch hch
    have hspaced := title_subset _ hch
    rw [← spaceSeparators_remainder] at hspaced
    exact not_separator_of_mem_spaceSeparators hspaced
  year _ := year_parse_mem name
  seasons := by
    unfold parse Name.parse
    dsimp only
    exact ⟨pairwise_lt_seasons _, fun k hk => Nat.le_of_lt_succ ((seasons_lt _).2 k hk)⟩
  episodes := by
    unfold parse Name.parse
    dsimp only
    exact ⟨consecutive_episodes _, fun k hk => Nat.le_of_lt_succ ((episodes_lt _).2 k hk)⟩
  labels := by
    unfold parse Name.parse
    dsimp only
    exact ⟨nodup_allLabels _ _, nodup_channelsOf _, nodup_hdrOf _, nodup_allLabels _ _⟩
  hdr := by
    unfold parse Name.parse
    dsimp only
    exact hdrOf_excludes _

/-- What is read off a name is well formed, its title is empty only if nothing is left of the name,
and its files belong to its seasons and episodes. -/
theorem parse_wellFormed (name : String) : (parse name).IsWellFormed ∧
    ((parse name).title = "" ↔ ∀ ch ∈ (Name.ofChars name.toList).remainder,
      Text.isBlank ch = true ∨ ch = '.' ∨ ch = '_') ∧
    Stream.IsBreakdown (parse name)
      (Stream.files name (parse name) (parse name).mediaType) :=
  ⟨isWellFormed_parse name, title_parse_eq_empty_iff name,
    Stream.isBreakdown_files name (isWellFormed_parse name)⟩

end Release

end Harvest
