import Harvest.Proofs.Search.Narrowing

/-!
# What a search returns

A search looks for titles of the form `%word%`, ranks the first of them by similarity, and returns
the best. The word consists of letters and numbers in lower case, so nothing in it stands for other
characters than itself. Of titles that are equally similar the one with the smaller number comes
first, and as numbers are unique, there is one order in which titles can be returned.

## Main definitions

* `Catalog.Like`, `Catalog.searchPattern` — patterns with wildcards, and that of a search
* `MediaTable.Matches`, `MediaTable.candidates` — the rows that a search ranks
* `MediaTable.Outranks` — one title comes before another
* `MediaTable.IsBest` — the best titles among some rows

## Main results

* `Catalog.not_isWildcard_of_mem_searchToken` — a search word has no wildcards
* `MediaTable.matches_iff`, `MediaTable.scan_eq` — the rows that match are those that are ranked
* `MediaTable.pairwise_rank` — the order of ranked titles
* `MediaTable.search_isBest` — what a search returns
-/

namespace Harvest

open Text (asciiLower isAlphanumeric)

/-! ### Patterns with wildcards -/

namespace Catalog

/-- The characters that stand for others in a pattern. -/
def IsWildcard (c : Char) : Prop := c = '%' ∨ c = '_'

/-- A text has the form of a pattern, in which `%` stands for any text, `_` for any character, and
all else for itself, where only ASCII letters have case. -/
inductive Like : List Char → List Char → Prop
  | nil : Like [] []
  | text {p s : List Char} (skipped : List Char) : Like p s → Like ('%' :: p) (skipped ++ s)
  | one {p s : List Char} (d : Char) : Like p s → Like ('_' :: p) (d :: s)
  | same {c d : Char} {p s : List Char} :
    ¬IsWildcard c → c.toLower = d.toLower → Like p s → Like (c :: p) (d :: s)

/-- The pattern of a search: the search word with any text on either side. -/
def searchPattern (title : List Char) : List Char := '%' :: (searchToken title ++ ['%'])

variable {p q s title : List Char}

theorem like_text_iff : Like ('%' :: p) s ↔ ∃ a b, s = a ++ b ∧ Like p b := by
  constructor
  · intro h
    cases h with
    | text skipped h => exact ⟨skipped, _, rfl, h⟩
    | same hplain _ _ => exact absurd (.inl rfl) hplain
  · rintro ⟨a, b, rfl, h⟩
    exact .text a h

/-- What has no wildcards stands for itself up to case. -/
theorem like_append_iff (hp : ∀ c ∈ p, ¬IsWildcard c) :
    Like (p ++ q) s ↔ ∃ a b, s = a ++ b ∧ asciiLower a = asciiLower p ∧ Like q b := by
  induction p generalizing s with
  | nil =>
    constructor
    · exact fun h => ⟨[], s, rfl, rfl, h⟩
    · rintro ⟨a, b, rfl, ha, h⟩
      obtain rfl := List.map_eq_nil_iff.mp ha
      exact h
  | cons c p ih =>
    obtain ⟨hc, hp⟩ := List.forall_mem_cons.mp hp
    constructor
    · intro h
      cases h with
      | text _ _ => exact absurd (.inl rfl) hc
      | one _ _ => exact absurd (.inr rfl) hc
      | same _ hcase h =>
        obtain ⟨a, b, rfl, ha, hb⟩ := (ih hp).mp h
        refine ⟨_ :: a, b, rfl, ?_, hb⟩
        rw [Text.asciiLower_cons, Text.asciiLower_cons, ha, hcase]
    · rintro ⟨a, b, rfl, ha, hb⟩
      obtain ⟨d, a, rfl, hd, ha⟩ := List.map_eq_cons_iff.mp ha
      exact .same hc hd.symm ((ih hp).mpr ⟨a, b, rfl, ha, hb⟩)

/-- A text has a word without wildcards between any texts exactly if the word is a part of it. -/
theorem like_around_iff (hp : ∀ c ∈ p, ¬IsWildcard c) : Like ('%' :: (p ++ ['%'])) s ↔
    ∃ before part after, s = before ++ part ++ after ∧ asciiLower part = asciiLower p := by
  rw [like_text_iff]
  constructor
  · rintro ⟨before, rest, rfl, h⟩
    obtain ⟨part, after, rfl, hpart, -⟩ := (like_append_iff hp).mp h
    exact ⟨before, part, after, (List.append_assoc ..).symm, hpart⟩
  · rintro ⟨before, part, after, rfl, hpart⟩
    refine ⟨before, part ++ after, List.append_assoc .., ?_⟩
    refine (like_append_iff hp).mpr ⟨part, after, rfl, hpart, ?_⟩
    exact like_text_iff.mpr ⟨after, [], (List.append_nil after).symm, .nil⟩

/-! ### The search word -/

/-- No piece of a text holds a character at which the text is split. -/
theorem not_of_mem_splitOnP {p : Char → Bool} (s : List Char) :
    ∀ w ∈ s.splitOnP p, ∀ c ∈ w, p c = false := by
  induction s with
  | nil =>
    intro w hw c hc
    rw [List.splitOnP_nil, List.mem_singleton] at hw
    exact absurd (hw ▸ hc) List.not_mem_nil
  | cons d s ih =>
    rw [List.splitOnP_cons_eq_if_modifyHead]
    by_cases hd : p d = true
    · rw [if_pos hd]
      exact List.forall_mem_cons.mpr ⟨fun c hc => absurd hc List.not_mem_nil, ih⟩
    · rw [if_neg hd]
      cases hpieces : s.splitOnP p with
      | nil => exact fun w hw => absurd hw List.not_mem_nil
      | cons u pieces =>
        rw [hpieces] at ih
        obtain ⟨hu, hrest⟩ := List.forall_mem_cons.mp ih
        refine List.forall_mem_cons.mpr ⟨?_, hrest⟩
        exact List.forall_mem_cons.mpr ⟨eq_false_of_ne_true hd, hu⟩

theorem isAlphanumeric_of_mem_longest {c : Char} (h : c ∈ longest (searchWords title)) :
    isAlphanumeric c = true := by
  rcases longest_eq_nil_or_mem (searchWords title) with hnil | hmem
  · rw [hnil] at h
    cases h
  · have hpiece := not_of_mem_splitOnP title _ hmem c h
    simpa using hpiece

/-- A search word has no wildcards, whatever the title is. -/
theorem not_isWildcard_of_mem_searchToken {c : Char} (h : c ∈ searchToken title) :
    ¬IsWildcard c := by
  intro hc
  rcases Text.mem_of_mem_lowerFrom h with hmem | hcode
  · -- wildcards are neither letters nor numbers
    have halnum := isAlphanumeric_of_mem_longest hmem
    rcases hc with rfl | rfl <;> exact absurd halnum (by decide)
  · -- nor does lower case make wildcards
    rcases hc with rfl | rfl <;> exact absurd hcode (by decide)

end Catalog

/-! ### The rows that are ranked -/

namespace MediaTable

/-- A row is of a kind, and its title has the form that a search looks for. The title is looked at
up to its first NUL character. -/
def Matches (m : MediaType) (title : String) (r : MediaRow) : Prop :=
  r.kind = m.name ∧
    Catalog.Like (Catalog.searchPattern title.toList) (asciiLower (Catalog.visible r.title.toList))

variable {t : MediaTable} {m : MediaType} {title : String} {r : MediaRow}

theorem matches_iff : Matches m title r ↔ (r.kind == m.name &&
    Catalog.containsToken r.title.toList (Catalog.searchToken title.toList)) = true := by
  have hplain : ∀ c ∈ Catalog.searchToken title.toList, ¬Catalog.IsWildcard c :=
    fun c hc => Catalog.not_isWildcard_of_mem_searchToken hc
  have hcontains : Catalog.containsToken r.title.toList (Catalog.searchToken title.toList) = true ↔
      Catalog.Like (Catalog.searchPattern title.toList)
        (asciiLower (Catalog.visible r.title.toList)) := by
    rw [Catalog.searchPattern, Catalog.like_around_iff hplain]
    refine (Text.holds_iff _ _).trans ⟨?_, ?_⟩
    · rintro ⟨before, after, hsplit⟩
      refine ⟨before, _, after, hsplit, ?_⟩
      rw [Catalog.searchToken, Text.asciiLower_lower, Text.asciiLower_lower]
    · rintro ⟨before, part, after, hsplit, hpart⟩
      -- the title is in lower case already, and so is the part of it
      obtain ⟨left, rest, -, hleft, -⟩ := List.map_eq_append_iff.mp hsplit
      obtain ⟨-, inner, -, -, rfl⟩ := List.map_eq_append_iff.mp hleft
      have hlower : asciiLower (asciiLower inner) = asciiLower inner := by
        simp [asciiLower, Function.comp_def]
      refine ⟨before, after, hsplit.trans ?_⟩
      rw [← hpart]
      exact congrArg (before ++ · ++ after) hlower.symm
  rw [Matches, Bool.and_eq_true, beq_iff_eq, hcontains]

instance (m : MediaType) (title : String) (r : MediaRow) : Decidable (Matches m title r) :=
  decidable_of_iff _ matches_iff.symm

/-- The rows that a search ranks: the first ones that match. -/
def candidates (t : MediaTable) (m : MediaType) (title : String) : List MediaRow :=
  (t.rows.filter fun r => Matches m title r).take Catalog.scanLimit

theorem scan_eq (t : MediaTable) (m : MediaType) (title : String) :
    t.scan m (Catalog.searchToken title.toList) = t.candidates m title := by
  unfold scan candidates
  refine congrArg (List.take Catalog.scanLimit) (List.filter_congr fun r _ => ?_)
  exact (Bool.eq_iff_iff.mpr (matches_iff.symm.trans decide_eq_true_iff.symm))

theorem candidates_sublist (t : MediaTable) (m : MediaType) (title : String) :
    (t.candidates m title).Sublist t.rows :=
  (List.take_sublist _ _).trans List.filter_sublist

/-! ### The order of titles -/

/-- One title comes before another: it is more similar to the title that is looked for, or as
similar with a smaller number. -/
def Outranks (title : String) (x y : CatalogTitle) : Prop :=
  Title.bestSimilarity title.toList y.title.toList <
      Title.bestSimilarity title.toList x.title.toList ∨
    Title.bestSimilarity title.toList x.title.toList =
      Title.bestSimilarity title.toList y.title.toList ∧ x.id < y.id

instance (title : String) (x y : CatalogTitle) : Decidable (Outranks title x y) :=
  inferInstanceAs (Decidable (_ ∨ _))

theorem ranksBefore_iff {x y : Nat × CatalogTitle} :
    ranksBefore x y = true ↔ y.1 < x.1 ∨ x.1 = y.1 ∧ x.2.id ≤ y.2.id := by
  simp [ranksBefore]

/-- Titles with different numbers are ranked in a strict order. -/
theorem pairwise_rank (title : String) {ts : List CatalogTitle} (hids : (ts.map (·.id)).Nodup) :
    (rank title ts).Pairwise (Outranks title) := by
  let score (t : CatalogTitle) : Nat × CatalogTitle :=
    (Title.bestSimilarity title.toList t.title.toList, t)
  have hsorted : ((ts.map score).mergeSort ranksBefore).Pairwise (ranksBefore · ·) := by
    refine List.pairwise_mergeSort (fun x y z hxy hyz => ?_) (fun x y => ?_) _
    · rw [ranksBefore_iff] at hxy hyz ⊢
      omega
    · rw [Bool.or_eq_true, ranksBefore_iff, ranksBefore_iff]
      omega
  -- the scores are those of the titles, also after sorting
  have hscored : ∀ x ∈ (ts.map score).mergeSort ranksBefore, x = score x.2 := by
    intro x hx
    obtain ⟨t, -, rfl⟩ := List.mem_map.mp (List.mem_mergeSort.mp hx)
    rfl
  have hranked : (rank title ts).Pairwise fun x y => ranksBefore (score x) (score y) = true := by
    refine List.pairwise_map.mpr (List.Pairwise.imp_of_mem (fun {x y} hx hy hxy => ?_) hsorted)
    rw [← hscored x hx, ← hscored y hy]
    exact hxy
  have hdistinct : (rank title ts).Pairwise fun x y => x.id ≠ y.id :=
    List.pairwise_map.mp (((rank_perm title ts).map _).nodup_iff.mpr hids)
  refine (hranked.and hdistinct).imp fun hxy => ?_
  rcases ranksBefore_iff.mp hxy.1 with hlt | ⟨heq, hle⟩
  · exact .inl hlt
  · exact .inr ⟨heq, Nat.lt_of_le_of_ne hle hxy.2⟩

/-! ### The best titles -/

/-- These are the best titles that are read of some rows, at most so many. -/
structure IsBest (title : String) (rows : List MediaRow) (limit : Nat)
    (found : List CatalogTitle) : Prop where
  length : found.length = min limit rows.length
  /-- Each title is read of one of the rows. -/
  fromRows : ∀ x ∈ found, ∃ r ∈ rows, x = r.asRead
  /-- No row is read twice. -/
  distinct : (found.map (·.id)).Nodup
  /-- The better titles come first. -/
  ordered : found.Pairwise (Outranks title)
  /-- Each row that is left out comes after all that are not. -/
  best : ∀ r ∈ rows, r.asRead ∉ found → ∀ x ∈ found, Outranks title x r.asRead

/-- The beginning of the ranked titles consists of the best ones. -/
theorem isBest_rank {rows : List MediaRow} (hids : (rows.map (·.id)).Nodup) (title : String)
    (limit : Nat) :
    IsBest title rows limit ((rank title (rows.map MediaRow.asRead)).take limit) := by
  have hids' : ((rows.map MediaRow.asRead).map (·.id)).Nodup := by
    rw [List.map_map]
    exact hids
  have hperm := rank_perm title (rows.map MediaRow.asRead)
  have hordered := pairwise_rank title hids'
  have hmem {x : CatalogTitle} :
      x ∈ rank title (rows.map MediaRow.asRead) ↔ ∃ r ∈ rows, r.asRead = x :=
    hperm.mem_iff.trans List.mem_map
  refine ⟨?_, fun x hx => ?_, ?_, hordered.sublist (List.take_sublist ..), fun r hr hout x hx => ?_⟩
  · rw [List.length_take, hperm.length_eq, List.length_map]
  · obtain ⟨r, hr, rfl⟩ := hmem.mp (List.mem_of_mem_take hx)
    exact ⟨r, hr, rfl⟩
  · exact ((hperm.map _).nodup_iff.mpr hids').sublist ((List.take_sublist ..).map _)
  · -- what is not among the first titles is behind them
    have hsplit := hmem.mpr ⟨r, hr, rfl⟩
    rw [← List.take_append_drop limit (rank title (rows.map MediaRow.asRead))] at hsplit hordered
    have hbehind := (List.mem_append.mp hsplit).resolve_left hout
    exact (List.pairwise_append.mp hordered).2.2 x hx r.asRead hbehind

/-- A word that is too long for a pattern is refused as soon as there is a row to compare it
with. -/
theorem search_of_tooLong (hlong : Catalog.isTooLong (Catalog.searchToken title.toList) = true)
    (hr : r ∈ t.rows) (hkind : r.kind = m.name) (limit : Nat) :
    t.search title m limit = .error .patternTooLong := by
  have hany : t.rows.any (·.kind == m.name) = true :=
    List.any_eq_true.mpr ⟨r, hr, beq_iff_eq.mpr hkind⟩
  unfold search
  dsimp only
  rw [hlong, hany]
  rfl

/-- A search returns the best of the first rows that match, more of them for a larger limit, unless
its word is too long for a pattern and there is a row to compare it with. The word never has
wildcards. -/
theorem search_isBest (h : t.WellFormed) (hread : ∀ r ∈ t.rows, r.IsReadable) (m : MediaType)
    (title : String) :
    ('%' ∉ Catalog.searchToken title.toList ∧ '_' ∉ Catalog.searchToken title.toList) ∧
    ((String.ofList (Catalog.searchToken title.toList)).utf8ByteSize ≤ 49998 ∨
        (∀ r ∈ t.rows, r.kind ≠ m.name) →
      ∃ found : Nat → List CatalogTitle,
        (∀ limit, t.search title m limit = .ok (found limit) ∧
          IsBest title (t.candidates m title) limit (found limit)) ∧
        ∀ limit limit', limit ≤ limit' → found limit <+: found limit') := by
  refine ⟨⟨fun hmem => ?_, fun hmem => ?_⟩, fun hshort => ?_⟩
  · exact Catalog.not_isWildcard_of_mem_searchToken hmem (.inl rfl)
  · exact Catalog.not_isWildcard_of_mem_searchToken hmem (.inr rfl)
  · have hrows := t.candidates_sublist m title
    have hids : ((t.candidates m title).map (·.id)).Nodup :=
      List.pairwise_map.mpr ((h.ids.sublist hrows).imp Nat.ne_of_lt)
    have hallowed : (Catalog.isTooLong (Catalog.searchToken title.toList) &&
        t.rows.any (·.kind == m.name)) = false := by
      rw [Bool.and_eq_false_iff]
      refine hshort.imp (fun hbytes => ?_) fun hkinds => ?_
      · exact decide_eq_false (by unfold Catalog.maxPatternBytes; omega)
      · exact List.any_eq_false.mpr fun r hr => by simpa using hkinds r hr
    refine ⟨fun limit => (rank title ((t.candidates m title).map MediaRow.asRead)).take limit,
      fun limit => ⟨?_, isBest_rank hids title limit⟩, fun limit limit' hle => ?_⟩
    · rw [search_ok_iff, scan_eq]
      exact ⟨hallowed, fun r hr => hread r (hrows.subset hr), rfl⟩
    · exact List.take_prefix_take_left hle

/-! ### Small examples -/

/-- A movie under a title. -/
def movie (id : Nat) (title : String) : MediaRow :=
  { series id title with kind := MediaType.movie.name }

/-- Two movies and a series with a word in common. -/
def batmen : MediaTable :=
  ⟨[movie 1 "Batman Begins", movie 2 "The Batman", series 3 "Batman"], 3⟩

/-- The movie whose title is the one that is looked for, but for an article, comes before the
other. -/
theorem search_isBest_batmen :
    (batmen.WellFormed ∧ ∀ r ∈ batmen.rows, r.IsReadable) ∧
    (String.ofList (Catalog.searchToken "Batman".toList)).utf8ByteSize ≤ 49998 ∧
    batmen.candidates .movie "Batman" = [movie 1 "Batman Begins", movie 2 "The Batman"] ∧
    batmen.search "Batman" .movie 1 = .ok [(movie 2 "The Batman").asRead] := by
  have hrows : batmen.WellFormed := ⟨by decide, by decide, by decide⟩
  have hread : ∀ r ∈ batmen.rows, r.IsReadable := by
    intro r hr
    obtain rfl | rfl | rfl : r = movie 1 "Batman Begins" ∨ r = movie 2 "The Batman" ∨
        r = series 3 "Batman" := by simpa [batmen] using hr
    all_goals exact ⟨yearFits_none, yearFits_none⟩
  have hshort : (String.ofList (Catalog.searchToken "Batman".toList)).utf8ByteSize ≤ 49998 := by
    decide
  have hcandidates : batmen.candidates .movie "Batman" =
      [movie 1 "Batman Begins", movie 2 "The Batman"] := by decide +kernel
  obtain ⟨-, hfound⟩ := search_isBest hrows hread .movie "Batman"
  obtain ⟨found, hbest, -⟩ := hfound (.inl hshort)
  obtain ⟨hsearch, hone⟩ := hbest 1
  rw [hcandidates] at hone
  obtain ⟨x, hx⟩ := List.length_eq_one_iff.mp hone.length
  obtain ⟨r, hr, rfl⟩ := hone.fromRows x (hx ▸ List.mem_singleton_self x)
  refine ⟨⟨hrows, hread⟩, hshort, hcandidates, ?_⟩
  rcases List.mem_pair.mp hr with rfl | rfl
  · -- the other movie cannot be left out
    have hout : (movie 2 "The Batman").asRead ∉ found 1 := by
      rw [hx]
      decide
    have houtranked :=
      hone.best _ (List.mem_pair.mpr (.inr rfl)) hout _ (hx ▸ List.mem_singleton_self _)
    exact absurd houtranked (by decide +kernel)
  · rw [hsearch, hx]

/-- A title that is one word of so many letters. -/
def longName (n : Nat) : String := String.ofList (List.replicate n 'a')

theorem searchToken_replicate (n : Nat) :
    Catalog.searchToken (List.replicate n 'a') = List.replicate n 'a' := by
  have hletters {c : Char} (hc : c ∈ List.replicate n 'a') : c = 'a' := List.eq_of_mem_replicate hc
  have hwords : Catalog.searchWords (List.replicate n 'a') = [List.replicate n 'a'] := by
    refine List.splitOnP_eq_singleton fun c hc => ?_
    rw [hletters hc]
    decide
  have hlongest : Catalog.longest [List.replicate n 'a'] = List.replicate n 'a' := rfl
  have hlower : Text.lower (List.replicate n 'a') = asciiLower (List.replicate n 'a') := by
    refine (Text.lower_eq_asciiLower_iff _).mpr fun c hc => ?_
    rw [hletters hc]
    decide
  rw [Catalog.searchToken, hwords, hlongest, hlower, asciiLower, List.map_replicate]
  rfl

theorem utf8ByteSize_longName (n : Nat) : (longName n).utf8ByteSize = n := by
  induction n with
  | zero => rfl
  | succ n ih =>
    have hlast : longName (n + 1) = longName n ++ String.singleton 'a' := by
      rw [longName, List.replicate_succ', String.ofList_append]
      rfl
    rw [hlast, String.utf8ByteSize_append, ih]
    rfl

/-- A series whose title is one word of 49,999 letters matches its own title, and yet every search
for the title fails. -/
theorem refused_longName :
    WellFormed ⟨[series 1 (longName 49999)], 1⟩ ∧ (series 1 (longName 49999)).IsReadable ∧
    candidates ⟨[series 1 (longName 49999)], 1⟩ .series (longName 49999) =
      [series 1 (longName 49999)] ∧
    ∀ limit, search ⟨[series 1 (longName 49999)], 1⟩ (longName 49999) .series limit =
      .error .patternTooLong := by
  have htoken : Catalog.searchToken (longName 49999).toList = (longName 49999).toList := by
    rw [longName, String.toList_ofList, searchToken_replicate]
  have hmatches : Matches .series (longName 49999) (series 1 (longName 49999)) := by
    refine matches_iff.mpr (Bool.and_eq_true_iff.mpr ⟨rfl, Catalog.showsItself_iff.mp ?_⟩)
    refine (Catalog.showsItself_iff_of_word fun c hc => ?_).mpr fun c hc => ?_
    all_goals
      obtain rfl : c = 'a' := List.eq_of_mem_replicate (String.toList_ofList ▸ hc)
      decide
  refine ⟨⟨List.pairwise_singleton _ _, ?_, ?_⟩, ⟨yearFits_none, yearFits_none⟩, ?_,
    fun limit => ?_⟩
  · exact List.forall_mem_singleton.mpr (Nat.le_refl 1)
  · exact List.nodup_nil
  · unfold candidates
    rw [List.filter_singleton, decide_eq_true hmatches]
    rfl
  · refine search_of_tooLong ?_ List.mem_cons_self rfl limit
    rw [htoken, Catalog.isTooLong, String.ofList_toList, utf8ByteSize_longName]
    rfl

end MediaTable

end Harvest
