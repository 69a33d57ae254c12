import Harvest.Json.Printer
import Harvest.Number.Binary
import Harvest.Search.Result
import Harvest.Store.Error
import Harvest.Text.Category
import Harvest.Text.Substring

/-!
# The catalog of titles

The catalog is a table of titles with ids that are given out once and for all. A search narrows the
table to titles that contain the longest word that is looked for, where only ASCII letters have
case, ranks the first of those by similarity, and returns the best.

## Main definitions

* `MediaRow`, `MediaTable` — the table
* `CatalogTitle` — a title as it is read from the table
* `MediaTable.insert` — a new row
* `MediaTable.getOrCreate` — the row with an external id, created if need be
* `MediaTable.search` — the best titles of one kind
* `MediaTable.externalIdOf` — the external id of a row

## Main results

* `MediaTable.rows_addUnlessKnown` — creating a title leaves all earlier rows in place
-/

namespace Harvest

/-- A row of the catalog. -/
structure MediaRow where
  /-- The number of the row. -/
  id : Nat
  /-- The id under which the title is known outside. -/
  externalId : Option String
  title : String
  year : Option Int
  endYear : Option Int
  /-- The kind of the title, as it is stored. -/
  kind : String
  adult : Bool
  poster : Option String := none
  description : Option String := none
  /-- The genres as a JSON text. -/
  genres : String := "[]"
  imdbId : Option String := none
  tmdbId : Option String := none
  tvdbId : Option String := none
  deriving DecidableEq, Repr

/-- The rows of the catalog in the order of their numbers, and the last number given out. -/
structure MediaTable where
  rows : List MediaRow := []
  lastId : Nat := 0
  deriving DecidableEq, Repr

/-- A title as it is read from the catalog. -/
structure CatalogTitle where
  id : Nat
  externalId : Option String
  title : String
  year : Option Int
  endYear : Option Int
  mediaType : MediaType
  adult : Bool
  deriving DecidableEq, Repr

/-- What counts when a title of the catalog is matched with a release. -/
def CatalogTitle.candidate (t : CatalogTitle) : Candidate :=
  ⟨some t.title, t.year, t.endYear, some t.mediaType, t.adult⟩

/-- A number that has to fit 32 bits with a sign. -/
def narrowYear (column : Nat) : Option Int → Except StoreError (Option Int)
  | none => .ok none
  | some n =>
    if Bits.holdsSigned 32 n then .ok (some n) else .error (.outOfRange n column)

/-- A row as it is read; an unknown kind counts as a movie. -/
def MediaRow.read (r : MediaRow) : Except StoreError CatalogTitle := do
  let year ← narrowYear 3 r.year
  let endYear ← narrowYear 4 r.endYear
  return ⟨r.id, r.externalId, r.title, year, endYear, (MediaType.ofName? r.kind).getD .movie,
    r.adult⟩

namespace Catalog

/-- The runs of letters and numbers of a title; at every other character one run ends and the next
one begins, so runs may be empty. -/
def searchWords (title : List Char) : List (List Char) :=
  title.splitOnP fun c => !Text.isAlphanumeric c

/-- The longest of some words, of several the last. -/
def longest (ws : List (List Char)) : List Char :=
  ws.foldl (fun best w => if best.length ≤ w.length then w else best) []

/-- The word by which the table is narrowed. -/
def searchToken (title : List Char) : List Char := Text.lower (longest (searchWords title))

/-- The largest size of a search pattern in bytes. -/
def maxPatternBytes : Nat := 50000

/-- Whether a word is too long to be searched for with a wildcard on either side. -/
def isTooLong (token : List Char) : Bool :=
  maxPatternBytes < (String.ofList token).utf8ByteSize + 2

/-- Whether a title contains a word, where only ASCII letters have case. A title is looked at up to
its first NUL character. -/
def containsToken (title token : List Char) : Bool :=
  let visible := title.takeWhile fun c => c.toNat != 0
  Text.holds (Text.asciiLower token) (Text.asciiLower visible)

/-- How many rows are ranked at most. -/
def scanLimit : Nat := 200

end Catalog

namespace MediaTable

/-- The row with an external id. -/
def find? (t : MediaTable) (externalId : String) : Option MediaRow :=
  t.rows.find? fun r => r.externalId == some externalId

/-- The table with one more row, under the next number. External ids are unique. -/
def insert (t : MediaTable) (r : MediaRow) : Except StoreError (Nat × MediaTable) :=
  let id := t.lastId + 1
  if (r.externalId.bind t.find?).isSome then .error (.notUnique "media.external_id")
  else .ok (id, ⟨t.rows ++ [{ r with id := id }], id⟩)

/-- The row of a new title. -/
def newRow (id : Nat) (n : NewTitle) (m : MediaType) : MediaRow where
  id := id
  externalId := some n.externalId
  title := n.title
  year := n.year
  endYear := none
  kind := m.name
  adult := false
  poster := n.poster
  description := n.description
  genres := Json.quoteList n.genres
  imdbId := n.imdbId
  tmdbId := n.tmdbId
  tvdbId := n.tvdbId

/-- The table after a title has been offered. A title whose external id is known is not added, but
uses up a number all the same. -/
def addUnlessKnown (t : MediaTable) (n : NewTitle) (m : MediaType) : MediaTable :=
  let id := t.lastId + 1
  if (t.find? n.externalId).isSome then { t with lastId := id }
  else ⟨t.rows ++ [newRow id n m], id⟩

/-- The row with an external id as it is read, if there is one. -/
def readByExternalId (t : MediaTable) (externalId : String) :
    Except StoreError (Option CatalogTitle) :=
  match t.find? externalId with
  | some r => r.read.map some
  | none => .ok none

/-- Offers a title, and reads the row that has its external id afterwards. -/
def getOrCreate (t : MediaTable) (n : NewTitle) (m : MediaType) :
    Except StoreError (Option CatalogTitle) × MediaTable :=
  let t := t.addUnlessKnown n m
  (t.readByExternalId n.externalId, t)

/-- The rows of one kind that contain a word, up to the scan limit. -/
def scan (t : MediaTable) (m : MediaType) (token : List Char) : List MediaRow :=
  (t.rows.filter fun r =>
    r.kind == m.name && Catalog.containsToken r.title.toList token).take Catalog.scanLimit

/-- Whether one ranked title comes before another: by similarity, then by number. -/
def ranksBefore (x y : Nat × CatalogTitle) : Bool :=
  y.1 < x.1 || (x.1 == y.1 && x.2.id ≤ y.2.id)

/-- The titles by similarity to a title, the most similar first. -/
def rank (title : String) (ts : List CatalogTitle) : List CatalogTitle :=
  ((ts.map fun t => (Title.bestSimilarity title.toList t.title.toList, t)).mergeSort
    ranksBefore).map (·.2)

/-- The titles of one kind that are most similar to a title. -/
def search (t : MediaTable) (title : String) (m : MediaType) (limit : Nat) :
    Except StoreError (List CatalogTitle) := do
  let token := Catalog.searchToken title.toList
  if Catalog.isTooLong token && t.rows.any (·.kind == m.name) then throw .patternTooLong
  let found ← (t.scan m token).mapM MediaRow.read
  return (rank title found).take limit

/-- The external id of the row with a number. -/
def externalIdOf (t : MediaTable) (id : Int) : Option String :=
  (t.rows.find? fun r => (r.id : Int) == id).bind (·.externalId)

/-- Creating a title leaves all earlier rows in place. -/
theorem rows_addUnlessKnown (t : MediaTable) (n : NewTitle) (m : MediaType) :
    t.rows <+: (t.addUnlessKnown n m).rows := by
  unfold addUnlessKnown
  dsimp only
  split
  · exact List.prefix_refl _
  · exact List.prefix_append ..

end MediaTable

end Harvest
