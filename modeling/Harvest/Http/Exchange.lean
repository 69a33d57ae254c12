import Harvest.Crawl.Remote
import Harvest.Http.Address
import Harvest.Json.Decode

/-!
# Requests and replies

## Main definitions

* `Http.Request`, `Http.Reply` — what is sent and what comes back
* `Http.Transport` — what becomes of requests
* `Http.isHeaderValue` — the texts that may stand in the head of a request
* `Http.get` — the reply to a request for an address
-/

namespace Harvest.Http

/-- A request. -/
structure Request where
  address : Address
  /-- The kinds of contents that are accepted. -/
  accept : String
  /-- What entitles to the request. -/
  authorization : Option String
  /-- The program that makes the request. -/
  userAgent : String
  deriving DecidableEq, Repr

/-- A reply. -/
structure Reply where
  status : Nat
  body : String
  deriving DecidableEq, Repr

/-- What becomes of requests: a reply, or the reason why there is none. -/
abbrev Transport := Request → Except String Reply

/-- No request is replied to. -/
def unreachable : Transport := fun _ => .error "error sending request"

/-- Whether a text may stand in the head of a request: it has no control characters but tabs. -/
def isHeaderValue (s : String) : Bool :=
  s.toList.all fun c => c == '\t' || (0x20 ≤ c.toNat && c.toNat != 0x7f)

/-- The reply to a request for an address. -/
def get (transport : Transport) (url : String) (query : List (String × String))
    (request : Address → Request) : Except FetchError Reply :=
  match Address.ofString? url with
  | none => .error (.request "builder error")
  | some a => (transport (request (a.withQuery query))).mapError .request

/-- A value read from the body of a reply. -/
def Reply.read {α : Type} (r : Reply) (read : Json.Written → Option α) : Except FetchError α :=
  match (Json.Written.parse? r.body).bind read with
  | some a => .ok a
  | none => .error (.request "error decoding response body")

end Harvest.Http
