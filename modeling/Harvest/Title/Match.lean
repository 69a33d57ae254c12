import Harvest.Media
import Harvest.Release.Keywords
import Harvest.Title.Similarity

/-!
# Matching releases with titles

Whether a title from a catalog or a search is a believable identity for a release.

## Main definitions

* `Candidate` — what is known about a title that may match
* `Candidate.fits` — whether the years of a candidate allow the year of a release
* `Candidate.accepts` — whether a candidate is accepted for a release
-/

namespace Harvest

/-- The similarity in percent that is asked for unless configured otherwise. -/
def defaultMinSimilarity : Nat := 87

/-- What is known about a title that may match a release. -/
structure Candidate where
  /-- The title. -/
  title : Option String := none
  /-- The year of a movie, or the first year of a series. -/
  year : Option Int := none
  /-- The last year of a series. -/
  endYear : Option Int := none
  /-- The kind of the title. -/
  mediaType : Option MediaType := none
  /-- Whether the title is for adults only. -/
  adult : Bool := false
  deriving DecidableEq, Repr

namespace Candidate

/-- Whether the years of a candidate allow the year of a release. A movie has to be of that year; a
series has to run in that year, where a last year counts only together with a first one. -/
def fits (c : Candidate) (m : MediaType) (year : Int) : Bool :=
  match m, c.year, c.endYear with
  | _, none, _ => true
  | .movie, some y, _ => y == year
  | .series, some first, some last => first ≤ year && year ≤ last
  | .series, some first, none => first ≤ year

/-- Whether a candidate is accepted for a release with the given title, year and kind. The release
name, if given, keeps broadcasts of sports from passing as movies. -/
def accepts (c : Candidate) (title : String) (year : Option Int) (m : MediaType)
    (minSimilarity : Nat) (releaseName : Option String) : Bool :=
  match c.title with
  | none => false
  | some t =>
    !t.isEmpty && !c.adult &&
    !(m == .movie && releaseName.any Release.isSportsBroadcast) &&
    c.mediaType.all (· == m) &&
    minSimilarity ≤ Title.bestSimilarity title.toList t.toList &&
    year.all (c.fits m)

end Candidate

end Harvest
