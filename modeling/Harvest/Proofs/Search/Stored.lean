import Harvest.Proofs.Store.Catalog

/-!
# Accepted results in the catalog

A result of the external search that was accepted for a release is stored, and from then on the
stored title stands in for it. Title, first year, kind and the mark for adults are as they were, a
missing year being that of the release. The last year of a series is not stored, so the catalog
takes every series for one that still runs: it is accepted for releases after its end, for which
the result was not.

## Main definitions

* `Candidate.EndedBefore` — the candidate is a series that was over before the year of a release

## Main results

* `NewTitle.accepts_iff` — the result is accepted where the stored title is, unless the series was
  over
* `MediaTable.accepts_stored_iff` — the same for the row that is read back
-/

namespace Harvest

namespace Candidate

variable {c d : Candidate} {title : String} {year : Option Int} {m : MediaType} {similarity : Nat}
  {release : Option String}

/-- An accepted candidate has a title, is not for adults, is of no other kind, and allows the
year. -/
theorem of_accepts (h : c.accepts title year m similarity release = true) :
    (∃ t, c.title = some t) ∧ c.adult = false ∧ c.mediaType.all (· == m) = true ∧
      year.all (c.fits m) = true := by
  unfold accepts at h
  split at h
  · cases h
  next t ht =>
    simp only [Bool.and_eq_true, Bool.not_eq_true'] at h
    obtain ⟨⟨⟨⟨⟨-, hadult⟩, -⟩, hkind⟩, -⟩, hfits⟩ := h
    exact ⟨⟨t, ht⟩, hadult, hkind, hfits⟩

/-- Of two candidates with the same title, when one is accepted, the other is accepted by its
years. -/
theorem accepts_eq_of_accepts (htitle : c.title = d.title) (hadult : c.adult = false)
    (hkind : c.mediaType.all (· == m) = true)
    (hd : d.accepts title year m similarity release = true) :
    c.accepts title year m similarity release = year.all (c.fits m) := by
  unfold accepts at hd ⊢
  rw [htitle, hadult, hkind]
  split at hd
  · cases hd
  next t ht =>
    simp only [Bool.and_eq_true] at hd
    obtain ⟨⟨⟨⟨⟨hempty, -⟩, hsports⟩, -⟩, hsimilar⟩, -⟩ := hd
    simp [hempty, hsports, hsimilar]

/-- The candidate is a series that was over before the year of a release. -/
def EndedBefore (c : Candidate) (m : MediaType) (year : Option Int) : Prop :=
  m = .series ∧ ∃ first last y, c.year = some first ∧ c.endYear = some last ∧ year = some y ∧
    last < y

/-- A candidate whose last year is left out allows no other years, except those after its end. -/
theorem fits_iff {y : Int} (hyear : ∀ first, c.year = some first → d.year = some first)
    (hend : d.endYear = none) (h : d.fits m y = true) :
    c.fits m y = true ↔ ¬c.EndedBefore m (some y) := by
  cases hfirst : c.year with
  | none =>
    have hfits : c.fits m y = true := by simp [fits, hfirst]
    refine iff_of_true hfits ?_
    rintro ⟨-, first, last, y', hsome, -⟩
    rw [hfirst] at hsome
    cases hsome
  | some first =>
    have hd := hyear first hfirst
    cases m with
    | movie =>
      have hfits : c.fits .movie y = true := by simpa [fits, hfirst, hd] using h
      exact iff_of_true hfits fun hended => nomatch hended.1
    | series =>
      have hle : first ≤ y := by simpa [fits, hd, hend] using h
      cases hlast : c.endYear with
      | none =>
        have hfits : c.fits .series y = true := by simpa [fits, hfirst, hlast] using hle
        refine iff_of_true hfits ?_
        rintro ⟨-, first', last, y', -, hsome, -⟩
        rw [hlast] at hsome
        cases hsome
      | some last =>
        have hfits : c.fits .series y = true ↔ y ≤ last := by simp [fits, hfirst, hlast, hle]
        have hended : c.EndedBefore .series (some y) ↔ last < y := by
          simp [EndedBefore, hfirst, hlast]
        rw [hfits, hended, Int.not_lt]

/-- The same for a release whose year may be unknown. -/
theorem all_fits_iff (hyear : ∀ first, c.year = some first → d.year = some first)
    (hend : d.endYear = none) (h : year.all (d.fits m) = true) :
    year.all (c.fits m) = true ↔ ¬c.EndedBefore m year := by
  cases year with
  | some y => exact fits_iff hyear hend h
  | none =>
    refine iff_of_true rfl ?_
    rintro ⟨-, first, last, y, -, -, hsome, -⟩
    cases hsome

end Candidate

/-- The title and the year that are stored of a result. -/
theorem NewTitle.of_ofResult? {found : SearchResult} {title : String} {year : Option Int}
    {n : NewTitle} (h : ofResult? found title year = some n) :
    n.title = found.title.getD title ∧ n.year = found.year.or year := by
  obtain ⟨id, -, rfl⟩ := Option.map_eq_some_iff.mp h
  exact ⟨rfl, rfl⟩

namespace MediaTable

variable {t : MediaTable} {n : NewTitle} {m : MediaType} {found : SearchResult} {title₀ : String}
  {year₀ : Option Int} {similarity₀ : Nat} {release₀ : Option String}

/-- A result that was accepted for a release gets a row, which is read back. Wherever the title that
is read is accepted for a later release, the result is accepted as well, exactly unless it is a
series that was over before the year of that release. -/
theorem accepts_stored_iff
    (haccepts : found.candidate.accepts title₀ year₀ m similarity₀ release₀ = true)
    (hn : NewTitle.ofResult? found title₀ year₀ = some n) (hnew : t.find? n.externalId = none)
    (hyear : YearFits found.year) (hyear₀ : YearFits year₀) :
    ∃ row ∈ (t.getOrCreate n m).2.rows, ∃ stored : CatalogTitle,
      row.externalId = some n.externalId ∧ row.read = .ok stored ∧
      (t.getOrCreate n m).1 = .ok (some stored) ∧
      ∀ title year similarity release,
        stored.candidate.accepts title year m similarity release = true →
          (found.candidate.accepts title year m similarity release = true ↔
            ¬found.candidate.EndedBefore m year) := by
  obtain ⟨⟨t₀, ht₀⟩, hadult, hkind, -⟩ := Candidate.of_accepts haccepts
  obtain ⟨htitle, hfirst⟩ := NewTitle.of_ofResult? hn
  have hread := read_newRow (hfirst ▸ hyear.or hyear₀) (t.lastId + 1) m
  refine ⟨_, ?_, _, rfl, hread, ?_, fun title year similarity release hstored => ?_⟩
  · rw [getOrCreate_eq, rows_addUnlessKnown_of_new hnew]
    exact List.mem_append_right _ List.mem_cons_self
  · rw [getOrCreate_eq, hnew, Option.getD_none, hread]
    rfl
  · -- the result is accepted by its title as well, which leaves the years
    have hsame : found.candidate.title = (n.asRead (t.lastId + 1) m).candidate.title := by
      have hfound : found.title = some t₀ := ht₀
      rw [ht₀]
      exact congrArg some (by rw [NewTitle.asRead, htitle, hfound, Option.getD_some])
    have hyears : ∀ first, found.candidate.year = some first →
        (n.asRead (t.lastId + 1) m).candidate.year = some first := by
      intro first hsome
      have hfound : found.year = some first := hsome
      exact hfirst.trans (by rw [hfound, Option.some_or])
    obtain ⟨-, -, -, hfits⟩ := Candidate.of_accepts hstored
    rw [Candidate.accepts_eq_of_accepts hsame hadult hkind hstored]
    exact Candidate.all_fits_iff hyears rfl hfits

end MediaTable

/-! ### A small example -/

/-- A result: a series that ran for six years. -/
def SearchResult.lost : SearchResult where
  id := some "tt1"
  title := some "Lost"
  year := some 2004
  endYear := some 2010
  mediaType := some .series

/-- What is stored of it. -/
def NewTitle.lost : NewTitle where
  externalId := "tt1"
  title := "Lost"
  year := some 2004
  poster := none
  background := none
  description := none
  genres := []
  imdbId := none
  tmdbId := none
  tvdbId := none

namespace MediaTable

/-- Stored for a release of its fifth year, the series is accepted for a release that came out after
its end, for which the result is not. -/
theorem accepted_after_end :
    SearchResult.lost.candidate.accepts "Lost" (some 2008) .series 87 none = true ∧
    NewTitle.ofResult? .lost "Lost" (some 2008) = some .lost ∧
    (getOrCreate {} .lost .series).1 = .ok (some (NewTitle.lost.asRead 1 .series)) ∧
    (NewTitle.lost.asRead 1 .series).candidate.accepts "Lost" (some 2015) .series 87 none = true ∧
    SearchResult.lost.candidate.accepts "Lost" (some 2015) .series 87 none = false := by
  decide +kernel

theorem accepts_stored_lost_iff :
    SearchResult.lost.candidate.accepts "Lost" (some 2008) .series 87 none = true ∧
    NewTitle.ofResult? .lost "Lost" (some 2008) = some .lost ∧ find? {} "tt1" = none ∧
    YearFits SearchResult.lost.year ∧ YearFits (some 2008) ∧
    ∃ row ∈ (getOrCreate {} .lost .series).2.rows, ∃ stored : CatalogTitle,
      row.externalId = some "tt1" ∧ row.read = .ok stored ∧
      (getOrCreate {} .lost .series).1 = .ok (some stored) ∧
      ∀ title year similarity release,
        stored.candidate.accepts title year .series similarity release = true →
          (SearchResult.lost.candidate.accepts title year .series similarity release = true ↔
            ¬SearchResult.lost.candidate.EndedBefore .series year) := by
  have haccepts :
      SearchResult.lost.candidate.accepts "Lost" (some 2008) .series 87 none = true := by
    decide +kernel
  have hn : NewTitle.ofResult? .lost "Lost" (some 2008) = some .lost := by decide
  have hyear : YearFits SearchResult.lost.year := by
    intro y hy
    cases hy
    decide
  have hyear₀ : YearFits (some 2008) := by
    intro y hy
    cases hy
    decide
  exact ⟨haccepts, hn, rfl, hyear, hyear₀, accepts_stored_iff haccepts hn rfl hyear hyear₀⟩

end MediaTable

end Harvest
