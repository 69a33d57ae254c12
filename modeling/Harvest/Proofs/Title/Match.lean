import Harvest.Title.Match

/-!
# Accepted candidates

A candidate is accepted for a release if it resembles the release and no year of it speaks against
that. There is one year that is known and not looked at: the last year of a series whose first year
is unknown. Such a series is accepted for any year, also for years after its end.

## Main definitions

* `Candidate.Resembles` — what is asked of a candidate apart from the years
* `Candidate.Respects` — no year of the candidate speaks against the year of a release
* `Candidate.EndedUndated` — only the end of the series is known, and it was before that year

## Main results

* `Candidate.fits_iff_respects` — which years a candidate allows
* `Candidate.accepts_iff_respects` — which candidates are accepted
* `Candidate.ended_accepted` — a series is accepted that was over
-/

namespace Harvest

namespace Candidate

variable {c : Candidate} {m : MediaType} {y : Int}

/-- What is asked of a candidate apart from the years. -/
structure Resembles (c : Candidate) (title : String) (m : MediaType) (minSimilarity : Nat)
    (releaseName : Option String) : Prop where
  /-- It has a title, and one that is similar enough. -/
  similar : ∃ t, c.title = some t ∧ t ≠ "" ∧
    minSimilarity ≤ Title.bestSimilarity title.toList t.toList
  notAdult : c.adult = false
  /-- It is of no other kind, as far as that is known. -/
  kind : ∀ k, c.mediaType = some k → k = m
  /-- A broadcast of sports is not a movie. -/
  notSports : m = .movie → ∀ name, releaseName = some name → Release.isSportsBroadcast name = false

/-- Every year of the candidate that is known allows the year of a release. A movie is of that year;
a series runs in it. -/
def Respects (c : Candidate) (y : Int) : MediaType → Prop
  | .movie => ∀ year, c.year = some year → year = y
  | .series => (∀ first, c.year = some first → first ≤ y) ∧ ∀ last, c.endYear = some last → y ≤ last

/-- The candidate is a series of which only the last year is known, and that is before the year of a
release. -/
def EndedUndated (c : Candidate) (y : Int) (m : MediaType) : Prop :=
  m = .series ∧ c.year = none ∧ ∃ last, c.endYear = some last ∧ last < y

/-- A series that was over is one with a year that speaks against the release. -/
theorem EndedUndated.not_respects (h : c.EndedUndated y m) : ¬c.Respects y m := by
  obtain ⟨rfl, -, last, hlast, hlt⟩ := h
  exact fun hrespects => absurd (hrespects.2 last hlast) (Int.not_le.mpr hlt)

/-- A candidate allows the years that it respects, and those after the end of a series whose first
year is unknown. -/
theorem fits_iff_respects : c.fits m y = true ↔ c.Respects y m ∨ c.EndedUndated y m := by
  cases hyear : c.year with
  | none =>
    -- without a first year everything fits, so the last year has to be looked at here
    have hfits : c.fits m y = true := by simp [fits, hyear]
    refine iff_of_true hfits ?_
    cases m with
    | movie => exact .inl fun year h => (nomatch hyear.symm.trans h)
    | series =>
      by_cases hended : ∃ last, c.endYear = some last ∧ last < y
      · exact .inr ⟨rfl, hyear, hended⟩
      · refine .inl ⟨fun first h => (nomatch hyear.symm.trans h), fun last hlast => ?_⟩
        exact Int.not_lt.mp fun hlt => hended ⟨last, hlast, hlt⟩
  | some first =>
    have hdated : ¬c.EndedUndated y m := fun h => nomatch hyear.symm.trans h.2.1
    rw [or_iff_left hdated]
    cases m with
    | movie => simp [fits, Respects, hyear]
    | series => cases hlast : c.endYear <;> simp [fits, Respects, hyear, hlast]

/-- A candidate is accepted if it resembles the release and allows its year. -/
theorem accepts_iff_resembles {title : String} {year : Option Int} {minSimilarity : Nat}
    {releaseName : Option String} :
    c.accepts title year m minSimilarity releaseName = true ↔
      c.Resembles title m minSimilarity releaseName ∧ ∀ y, year = some y → c.fits m y = true := by
  unfold accepts
  cases ht : c.title with
  | none =>
    refine iff_of_false (by simp) fun h => ?_
    obtain ⟨t, hsome, -⟩ := h.1.similar
    exact nomatch ht.symm.trans hsome
  | some t =>
    simp only [Bool.and_eq_true, Bool.not_eq_true', Option.all_eq_true, beq_iff_eq,
      decide_eq_true_iff, Bool.and_eq_false_imp, Option.any_eq_false, String.isEmpty_eq_false_iff]
    constructor
    · rintro ⟨⟨⟨⟨⟨hempty, hadult⟩, hsports⟩, hkind⟩, hsimilar⟩, hfits⟩
      exact ⟨⟨⟨t, ht, hempty, hsimilar⟩, hadult, hkind, hsports⟩, hfits⟩
    · rintro ⟨⟨⟨t', ht', hempty, hsimilar⟩, hadult, hkind, hsports⟩, hfits⟩
      cases ht.symm.trans ht'
      exact ⟨⟨⟨⟨⟨hempty, hadult⟩, hsports⟩, hkind⟩, hsimilar⟩, hfits⟩

/-- The accepted candidates are those that resemble the release, and of which no year that is known
speaks against that of the release, except series of which only the end is known, and is over. -/
theorem accepts_iff_respects (c : Candidate) (title : String) (year : Option Int) (m : MediaType)
    (minSimilarity : Nat) (releaseName : Option String) :
    (c.accepts title year m minSimilarity releaseName = true ↔
      c.Resembles title m minSimilarity releaseName ∧
        ∀ y, year = some y → c.Respects y m ∨ c.EndedUndated y m) ∧
    ∀ y, c.EndedUndated y m → ¬c.Respects y m := by
  refine ⟨?_, fun y h => h.not_respects⟩
  rw [accepts_iff_resembles]
  simp only [fits_iff_respects]

/-- A series that has ended in 2010. -/
def undated : Candidate := { title := "Lost", endYear := some 2010, mediaType := some .series }

/-- A series is accepted for a release that is younger than its end. -/
theorem ended_accepted :
    undated.accepts "Lost" (some 2015) .series defaultMinSimilarity none = true ∧
      undated.endYear = some 2010 ∧ ¬undated.Respects 2015 .series := by
  refine ⟨by decide +kernel, rfl, EndedUndated.not_respects ⟨rfl, rfl, 2010, rfl, by decide⟩⟩

end Candidate

end Harvest
