import Harvest.Http.Exchange
import Harvest.Search.Result

/-!
# The external search over the web

## Main definitions

* `SearchFailure` — why a search fails, with `SearchFailure.message`
* `SearchClient`, `SearchClient.make?` — a client with valid settings
* `SearchClient.query` — the results for a query
* `SearchClient.answer` — the same as an answer to a crawl
-/

namespace Harvest

open Http

/-- Why a search fails. -/
inductive SearchFailure where
  /-- The request cannot be made, or its reply cannot be read. -/
  | request (cause : String)
  /-- The reply has a status that tells of a failure. -/
  | status (code : Nat)
  deriving DecidableEq, Repr

/-- The wording of a failure. -/
def SearchFailure.message : SearchFailure → String
  | request cause => "Request error: " ++ cause
  | status code => "Search service returned HTTP " ++ toString code

/-- A client for the external search. -/
structure SearchClient where
  /-- The address of the search; without one, nothing is ever found. -/
  endpoint : Option String
  userAgent : String
  transport : Transport

namespace SearchClient

/-- A client, if the settings can stand in the head of a request. An empty address counts as none. -/
def make? (endpoint : Option String) (userAgent : String) (transport : Transport) :
    Except SearchFailure SearchClient :=
  if isHeaderValue userAgent then .ok ⟨endpoint.filter (!·.isEmpty), userAgent, transport⟩
  else .error (.request "builder error")

/-- The names and values of a query. -/
def parameters (q : SearchQuery) : List (String × String) :=
  [("title", q.title), ("type", q.mediaType.name), ("limit", toString q.limit),
    ("min_similarity", toString q.minSimilarity),
    ("include_anime", if q.includeAnime then "true" else "false")] ++
    q.year.toList.map fun y => ("year", toString y)

/-- A failure of a request as a failure of the search. -/
def failureOf : FetchError → SearchFailure
  | .status _ code => .status code
  | .request cause | .invalid cause => .request cause

/-- The results for a query. -/
def query (c : SearchClient) (q : SearchQuery) : Except SearchFailure (List SearchResult) :=
  match c.endpoint with
  | none => .ok []
  | some url => do
    let r ← (get c.transport url (parameters q) fun a => {
      address := a
      accept := "*/*"
      authorization := none
      userAgent := c.userAgent }).mapError failureOf
    if 200 ≤ r.status ∧ r.status < 300 then
      (r.read (Json.Written.list? SearchResult.ofWritten?)).mapError failureOf
    else throw (.status r.status)

/-- The answer to a query of a crawl. -/
def answer (c : SearchClient) (q : SearchQuery) : SearchAnswer :=
  match c.query q with
  | .ok results => .found results
  | .error _ => .failed

end SearchClient

end Harvest
