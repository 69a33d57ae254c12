import Harvest.Text.LowerCase

/-!
# Kinds of media

A title is a movie or a series.

## Main definitions

* `MediaType` — the two kinds, with `MediaType.name` and `MediaType.ofName?`

## Main results

* `MediaType.ofName?_name` — a kind is read back from its name
-/

namespace Harvest

/-- The kind of a title. -/
inductive MediaType where
  | movie
  | series
  deriving DecidableEq, Repr

namespace MediaType

/-- The name of a kind. -/
def name : MediaType → String
  | movie => "movie"
  | series => "series"

/-- The kind with a name, in any ASCII case. -/
def ofName? (s : String) : Option MediaType :=
  if Text.asciiLowerString s = "movie" then some movie
  else if Text.asciiLowerString s = "series" then some series
  else none

/-- What is reported for a name that is not one of a kind. -/
def unknownMessage (s : String) : String := "unknown media type: " ++ Text.asciiLowerString s

theorem ofName?_name (m : MediaType) : ofName? m.name = some m := by
  cases m <;> decide

end MediaType

end Harvest
