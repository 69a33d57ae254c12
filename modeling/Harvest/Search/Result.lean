import Harvest.Json.Decode
import Harvest.Number.Binary
import Harvest.Title.Match

/-!
# Results of the external search

What the external search knows about a title, how it is read from a JSON text, and what is kept of
it when it is accepted. Years and kinds are read leniently: whatever stands there, the rest of the
answer is used.

## Main definitions

* `SearchQuery` — what is asked of the external search
* `SearchAnswer` — what becomes of a query
* `SearchResult` — one title of an answer, with `SearchResult.externalId?`
* `SearchResult.listOfJson?` — an answer from its JSON text
* `NewTitle` — what the catalog stores of an accepted result, with `NewTitle.ofResult?`
-/

namespace Harvest

/-- What is asked of the external search. -/
structure SearchQuery where
  /-- The title that is looked for. -/
  title : String
  /-- The year, if it is known. -/
  year : Option Int
  /-- The kind of the title. -/
  mediaType : MediaType
  /-- How many results are wanted. -/
  limit : Nat
  /-- The similarity in percent that is asked for. -/
  minSimilarity : Nat
  /-- Whether Japanese animation is to be searched as well. -/
  includeAnime : Bool
  deriving DecidableEq, Repr

/-- One title of an answer of the external search. -/
structure SearchResult where
  /-- The id that the search itself uses. -/
  id : Option String := none
  title : Option String := none
  year : Option Int := none
  endYear : Option Int := none
  mediaType : Option MediaType := none
  adult : Bool := false
  poster : Option String := none
  background : Option String := none
  description : Option String := none
  genres : List String := []
  imdbId : Option String := none
  tmdbId : Option String := none
  tvdbId : Option String := none
  deriving DecidableEq, Repr

/-- What becomes of a query. -/
inductive SearchAnswer where
  /-- The search has answered. -/
  | found (results : List SearchResult)
  /-- The search has failed. -/
  | failed
  /-- The search has not answered in time. -/
  | timedOut
  deriving DecidableEq

namespace SearchResult

/-- What counts when the result is matched with a release. -/
def candidate (r : SearchResult) : Candidate :=
  ⟨r.title, r.year, r.endYear, r.mediaType, r.adult⟩

/-- The id under which the title is known outside: the first one if there is one, else that of the
search. -/
def externalId? (r : SearchResult) : Option String :=
  (r.imdbId.filter (!·.isEmpty)).or (r.id.filter (!·.isEmpty))

/-- The names of the fields, in order. -/
def fieldNames : List String :=
  ["id", "title", "year", "end_year", "type", "adult", "poster", "background", "description",
    "genres", "imdb_id", "tmdb_id", "tvdb_id"]

/-- A whole number of 64 bits, cut to its lowest 32 bits with a sign. -/
def yearOfNumber (n : Int) : Option Int :=
  if n < Bits.count 63 then some (n.bmod (Bits.count 32)) else none

/-- The year that the first four characters of a text stand for. -/
def yearOfText (s : String) : Option Int :=
  let four := s.toList.take 4
  let number? (r : List Char) : Option Int :=
    if !r.isEmpty && r.all Char.isDigit then some (Json.ofDigits (r.map Json.digitValue)) else none
  if four.length < 4 then none
  else
    match four with
    | '-' :: r => (number? r).map (-·)
    | '+' :: r => number? r
    | r => number? r

/-- The year that a JSON value stands for, if any. -/
def yearOfValue : Json.Value → Option Int
  | .number (.int n) => yearOfNumber n
  | .string s => yearOfText s
  | _ => none

/-- How deep a value inside a result may be nested: two levels less than a whole text, one for the
list and one for the result. -/
def fieldDepth : Nat := Json.maxDepth - 2

/-- A year of a result: any value that can be read at all. -/
def year? (w : Json.Written) : Option (Option Int) := (w.value? fieldDepth).map yearOfValue

/-- The kind of a result: any text or `null`. -/
def kind? (w : Json.Written) : Option (Option MediaType) :=
  w.optionalString?.map fun s => s.bind MediaType.ofName?

/-- A result from its JSON text. -/
def ofWritten? (w : Json.Written) : Option SearchResult := do
  let f ← w.fields? fieldNames 0
  return {
    id := ← f.optionalString? "id"
    title := ← f.optionalString? "title"
    year := ← f.read? "year" none year?
    endYear := ← f.read? "end_year" none year?
    mediaType := ← f.read? "type" none kind?
    adult := ← f.flag? "adult"
    poster := ← f.optionalString? "poster"
    background := ← f.optionalString? "background"
    description := ← f.optionalString? "description"
    genres := ← f.list? "genres" Json.Written.string?
    imdbId := ← f.optionalString? "imdb_id"
    tmdbId := ← f.optionalString? "tmdb_id"
    tvdbId := ← f.optionalString? "tvdb_id" }

/-- The results of an answer from its JSON text. -/
def listOfJson? (text : String) : Option (List SearchResult) :=
  (Json.Written.parse? text).bind (Json.Written.list? ofWritten?)

end SearchResult

/-- What the catalog stores of an accepted result. -/
structure NewTitle where
  /-- The id under which the title is known outside. -/
  externalId : String
  title : String
  year : Option Int
  poster : Option String
  background : Option String
  description : Option String
  genres : List String
  imdbId : Option String
  tmdbId : Option String
  tvdbId : Option String
  deriving DecidableEq, Repr

/-- What is stored of a result; the title and the year of the release stand in for missing ones.
A result without an id cannot be stored. -/
def NewTitle.ofResult? (r : SearchResult) (title : String) (year : Option Int) :
    Option NewTitle :=
  r.externalId?.map fun id => {
    externalId := id
    title := r.title.getD title
    year := r.year.or year
    poster := r.poster
    background := r.background
    description := r.description
    genres := r.genres
    imdbId := r.imdbId
    tmdbId := r.tmdbId
    tvdbId := r.tvdbId }

end Harvest
