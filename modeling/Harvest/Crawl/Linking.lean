import Harvest.Crawl.Step
import Harvest.Distinct
import Harvest.Release.Keywords

/-!
# Linking names to titles

A name is linked to the first acceptable title of the catalog. Only if there is none, the external
search is asked, and the first acceptable result enters the catalog. Trouble with either search
counts as no result.

## Main definitions

* `ResolutionRequest` — a name to be linked
* `Crawler.resolveInCatalog`, `Crawler.resolveBySearch`, `Crawler.resolve` — links one name
* `Crawler.resolveAll` — links all names for which nothing is remembered
-/

namespace Harvest

/-- A name to be linked to a title. -/
structure ResolutionRequest where
  /-- What has to agree for two names to be linked alike. -/
  key : ResolutionKey
  /-- The title as it is written in the name. -/
  title : String
  /-- The release name in which the key was found first. -/
  releaseName : String
  deriving DecidableEq, Repr

/-- The request for a title that was found in a release name. -/
def ResolutionRequest.ofTitle (title : String) (year : Option Int) (m : MediaType)
    (releaseName : String) : ResolutionRequest :=
  ⟨.ofTitle title year m, title, releaseName⟩

namespace Crawler

variable (c : Crawler)

/-- Whether a candidate is accepted for a request. -/
def accepts (r : ResolutionRequest) (candidate : Candidate) : Bool :=
  candidate.accepts r.title r.key.year r.key.mediaType c.settings.minSimilarity
    (some r.releaseName)

/-! ### The catalog -/

/-- Whether a title of the catalog is accepted for a request. It needs an external id. -/
def acceptsTitle (r : ResolutionRequest) (t : CatalogTitle) : Bool :=
  t.externalId.isSome && c.accepts r t.candidate

/-- The titles of the catalog that are considered for a request; none if the search fails. -/
def considered (r : ResolutionRequest) (db : Database) : List CatalogTitle :=
  match db.searchMedia r.title r.key.mediaType c.settings.localLimit with
  | .ok ts => ts
  | .error _ => []

/-- The external id as it stands in the catalog. -/
def canonicalId (id : Nat) : CrawlStep (Option String) :=
  .query .catalog (·.externalIdOf id)

/-- Links a name to a title of the catalog. -/
def resolveInCatalog (r : ResolutionRequest) : CrawlStep (Option String) := do
  let ts ← .query .catalog fun db => .ok (c.considered r db)
  match ts.find? (c.acceptsTitle r) with
  | some t => canonicalId t.id
  | none => pure none

/-! ### The external search -/

/-- What is asked of the external search for a request. -/
def queryOf (r : ResolutionRequest) : SearchQuery where
  title := r.title
  year := r.key.year
  mediaType := r.key.mediaType
  limit := c.settings.externalLimit
  minSimilarity := c.settings.minSimilarity
  includeAnime := Release.isAnime r.releaseName (some r.key.mediaType)

/-- What the catalog would store of a result, if the result is accepted for a request and has an
id. -/
def acceptedTitle? (r : ResolutionRequest) (found : SearchResult) : Option NewTitle :=
  if c.accepts r found.candidate then NewTitle.ofResult? found r.title r.key.year else none

/-- Offers titles to the catalog until one of them can be read back, and links to that one. -/
def linkFirst (m : MediaType) : List NewTitle → CrawlStep (Option String)
  | [] => pure none
  | n :: ns => do
    match ← .perform .catalog (·.getOrCreateMedia n m) with
    | some t => canonicalId t.id
    | none => linkFirst m ns

/-- Links a name to a result of the external search. -/
def resolveBySearch (r : ResolutionRequest) : CrawlStep (Option String) := do
  match ← c.ask (c.queryOf r) with
  | .found results => linkFirst r.key.mediaType (results.filterMap (c.acceptedTitle? r))
  | .failed | .timedOut => pure none

/-! ### Both -/

/-- Links one name, whatever is remembered. -/
def resolve (r : ResolutionRequest) : CrawlStep (Option String) := do
  match ← c.resolveInCatalog r with
  | some id => pure (some id)
  | none => c.resolveBySearch r

/-- Links names in order and remembers the links. An error does not keep later names from being
linked; of several errors the first counts. All names are under way at the same time, and searches
that have to wait may overlap; that one name follows the other is the course that things take if
every search answers at once. -/
def resolveEach : List ResolutionRequest → CrawlStep Unit
  | [] => pure ()
  | r :: rs => do
    match ← (c.resolve r).attempt with
    | .ok id => do
      .remember r.key id
      resolveEach rs
    | .error e => do
      let _ ← (resolveEach rs).attempt
      throw e

/-- The names for which nothing is remembered, one for every key. -/
def pending (cache : ResolutionCache) (rs : List ResolutionRequest) : List ResolutionRequest :=
  firstOfEach ResolutionRequest.key (rs.filter fun r => !cache.contains r.key)

/-- Links all names for which nothing is remembered. -/
def resolveAll (rs : List ResolutionRequest) : CrawlStep Unit := do
  c.resolveEach (pending (← .cache) rs)

end Crawler

end Harvest
