import Harvest.Packed.Unpack
import Harvest.Pattern.Search
import Harvest.Snapshot.Entry

/-!
# Fragments of snapshots

A snapshot is a page whose only content of interest is a frame that shows a list viewer. The list
itself stands packed in the fragment of the link. It unpacks to a JSON text: an array of rows, or an
object with such an array under a certain key.

## Main definitions

* `Snapshot.defaultHost` — the host of the viewer unless configured otherwise
* `Snapshot.frame` — the pattern of a frame that shows the viewer of a host
* `Snapshot.fragment?` — the fragment of the first such frame
* `PayloadError` — why a list cannot be read, and whether reading it again can help
* `Snapshot.entriesOfJson` — the entries of an unpacked list
* `Snapshot.entriesOfPayload` — the entries of a packed list
-/

namespace Harvest

/-! ### Frames -/

namespace Snapshot

open Pattern

/-- The host of the viewer unless configured otherwise. -/
def defaultHost : String := "debridmediamanager.com"

/-- A frame that shows the viewer of a host, its fragment being the first group. -/
def frame (host : String) : Pattern :=
  literal "<iframe" ++ run .blank 1 none ++ literal "src=\"https://" ++ literal host ++
    literal "/hashlist#" ++ group 1 (run (.outside ['"']) 1 none) ++ literal "\""

/-- The fragment of the first frame that shows the viewer of a host. -/
def fragment? (host page : String) : Option String :=
  ((frame host).find page.toList).map fun f => String.ofList (f.group 1)

end Snapshot

/-! ### Packed lists -/

/-- Why a text is no list. -/
inductive Malformation where
  /-- The text is not JSON. -/
  | notJson
  /-- The value under the key of the rows is not an array. -/
  | rowsNotArray
  /-- The value is neither an array nor an object. -/
  | notRows
  /-- The packed text refers to a sequence that is not in the dictionary. -/
  | badReference (code size : Nat)
  deriving DecidableEq, Repr

/-- The wording of a malformation. -/
def Malformation.message : Malformation → String
  | notJson => "invalid JSON"
  | rowsNotArray => "\"torrents\" is not an array"
  | notRows => "payload is neither an array nor an object"
  | badReference code size => (UnpackError.badReference code size).message

/-- Why a packed list cannot be read. -/
inductive PayloadError where
  /-- The list cannot be unpacked. -/
  | unreadable (e : UnpackError)
  /-- The list can be unpacked, at least in part, but is no list. -/
  | malformed (m : Malformation)
  deriving DecidableEq, Repr

namespace PayloadError

/-- Whether reading the same list again is pointless. -/
def isPermanent : PayloadError → Bool
  | unreadable _ => false
  | malformed _ => true

/-- A reference to nothing means that the list is damaged; other errors of unpacking may come from
the way the list was fetched. -/
def ofUnpackError : UnpackError → PayloadError
  | .badReference code size => malformed (.badReference code size)
  | e => unreadable e

/-- The wording of the cause. -/
def cause : PayloadError → String
  | unreadable e => e.message
  | malformed m => m.message

/-- The wording of an error. -/
def message : PayloadError → String
  | unreadable e => "Decode error: " ++ e.message
  | malformed m => "Malformed payload: " ++ m.message

end PayloadError

namespace Snapshot

/-- The rows of an unpacked list. -/
def rowsOfValue (v : Json.Value) : Except Malformation (List Json.Value) :=
  match v with
  | .array rows => .ok rows
  | .object members =>
    match Json.Value.lookup "torrents" members with
    | some (.array rows) => .ok rows
    | some _ => .error .rowsNotArray
    | none => .ok []
  | _ => .error .notRows

/-- The entries of an unpacked list; the empty text is an empty list. -/
def entriesOfJson (text : String) : Except Malformation (List Entry) :=
  if text.isEmpty then .ok []
  else
    match Json.Value.parse? text with
    | none => .error .notJson
    | some v => (rowsOfValue v).map entriesOfRows

/-- The entries of a packed list. -/
def entriesOfPayload (payload : String) : Except PayloadError (List Entry) :=
  match Packed.unpack payload with
  | .error e => .error (.ofUnpackError e)
  | .ok text => (entriesOfJson text).mapError .malformed

end Snapshot

end Harvest
