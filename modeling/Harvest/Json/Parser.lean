import Harvest.Json.Token

/-!
# Reading JSON texts

A machine takes the tokens of a JSON text one by one. It keeps the arrays and objects that are open,
innermost first, and what may come next.

## Main definitions

* `Json.Frame` — an open array or object
* `Json.Machine` — the open frames and what may come next, with `Json.Machine.step?`
* `Json.Written.parse?` — the JSON text of a string
-/

namespace Harvest.Json

/-- An array or object that is not closed yet, its contents latest first. -/
inductive Frame where
  /-- An array. -/
  | array (items : List Written)
  /-- An object between two members. -/
  | object (members : List (StringText × Written))
  /-- An object inside the member with the given key. -/
  | member (members : List (StringText × Written)) (key : StringText)

/-- What may come next. -/
inductive Expected where
  /-- A value, or the end of an array that is still empty. -/
  | item (closable : Bool)
  /-- A key, or the end of an object that is still empty. -/
  | key (closable : Bool)
  /-- The colon after a key. -/
  | colon
  /-- A comma or the end of the innermost frame. -/
  | separator
  /-- Nothing: the text is complete. -/
  | nothing (w : Written)

/-- The open frames, innermost first, and what may come next. -/
structure Machine where
  /-- The open frames. -/
  frames : List Frame
  /-- What may come next. -/
  expected : Expected

namespace Machine

/-- The machine before the first token. -/
def start : Machine := ⟨[], .item false⟩

/-- The machine after a complete value inside the given frames. -/
def complete? (w : Written) : List Frame → Option Machine
  | [] => some ⟨[], .nothing w⟩
  | .array items :: rest => some ⟨.array (w :: items) :: rest, .separator⟩
  | .member members key :: rest => some ⟨.object ((key, w) :: members) :: rest, .separator⟩
  | .object _ :: _ => none

/-- The machine after a token where a value may come. -/
def item? (frames : List Frame) (closable : Bool) : Token → Option Machine
  | .null => complete? .null frames
  | .bool b => complete? (.bool b) frames
  | .number t => complete? (.number t) frames
  | .string t => complete? (.string t) frames
  | .openArray => some ⟨.array [] :: frames, .item true⟩
  | .openObject => some ⟨.object [] :: frames, .key true⟩
  | .closeArray =>
    match closable, frames with
    | true, .array _ :: rest => complete? (.array []) rest
    | _, _ => none
  | _ => none

/-- The machine after a token where a key may come. -/
def key? (frames : List Frame) (closable : Bool) : Token → Option Machine
  | .string t =>
    match frames with
    | .object members :: rest => some ⟨.member members t :: rest, .colon⟩
    | _ => none
  | .closeObject =>
    match closable, frames with
    | true, .object _ :: rest => complete? (.object []) rest
    | _, _ => none
  | _ => none

/-- The machine after a token behind a complete item or member. -/
def separator? : List Frame → Token → Option Machine
  | .array items :: rest, .comma => some ⟨.array items :: rest, .item false⟩
  | .array items :: rest, .closeArray => complete? (.array items.reverse) rest
  | .object members :: rest, .comma => some ⟨.object members :: rest, .key false⟩
  | .object members :: rest, .closeObject => complete? (.object members.reverse) rest
  | _, _ => none

/-- The machine after one more token. -/
def step? (m : Machine) (t : Token) : Option Machine :=
  match m.expected with
  | .item closable => item? m.frames closable t
  | .key closable => key? m.frames closable t
  | .colon => if t = .colon then some ⟨m.frames, .item false⟩ else none
  | .separator => separator? m.frames t
  | .nothing _ => none

/-- The complete text, if the machine has read one. -/
def result? (m : Machine) : Option Written :=
  match m.expected with
  | .nothing w => some w
  | _ => none

end Machine

/-- The JSON text of a string, if it is one. -/
def Written.parse? (s : String) : Option Written := do
  let ts ← tokens? s.toList
  let m ← ts.foldlM Machine.step? Machine.start
  m.result?

end Harvest.Json
