import Harvest.Json.Parser

/-!
# JSON values

The value of a JSON text: its numbers and strings are read, and its arrays and objects may be
nested up to a limit. Of members with the same key the last one counts.

## Main definitions

* `Json.Value` — JSON values
* `Json.Written.value?` — the value of a text within a nesting limit
* `Json.Value.field?` — the member with a key
* `Json.Value.parse?` — the value of a string
-/

namespace Harvest.Json

/-- A JSON value. -/
inductive Value where
  | null
  | bool (b : Bool)
  | number (n : Number)
  | string (s : String)
  | array (items : List Value)
  /-- Members in the order of writing, repeated keys included. -/
  | object (members : List (String × Value))

mutual

/-- The value of a text whose arrays and objects are nested at most `depth` deep. -/
def Written.value? (depth : Nat) : Written → Option Value
  | .null => some .null
  | .bool b => some (.bool b)
  | .number t => t.value?.map .number
  | .string t => (StringText.value? t).map .string
  | .array items =>
    if depth = 0 then none else (itemValues? (depth - 1) items).map .array
  | .object members =>
    if depth = 0 then none else (memberValues? (depth - 1) members).map .object

/-- The values of the items of an array. -/
def Written.itemValues? (depth : Nat) : List Written → Option (List Value)
  | [] => some []
  | w :: rest => do
    let v ← w.value? depth
    let vs ← itemValues? depth rest
    return v :: vs

/-- The keys and values of the members of an object. -/
def Written.memberValues? (depth : Nat) :
    List (StringText × Written) → Option (List (String × Value))
  | [] => some []
  | m :: rest => do
    let v ← memberValue? depth m
    let vs ← memberValues? depth rest
    return v :: vs

/-- The key and value of one member of an object. -/
def Written.memberValue? (depth : Nat) : StringText × Written → Option (String × Value)
  | (key, w) => do
    let k ← StringText.value? key
    let v ← w.value? depth
    return (k, v)

end

/-- How deep arrays and objects of a text may be nested. -/
def maxDepth : Nat := 127

namespace Value

/-- The value of a string that holds a JSON text. -/
def parse? (s : String) : Option Value := (Written.parse? s).bind (Written.value? maxDepth)

/-- The last of the members with a key. -/
def lookup (key : String) (members : List (String × Value)) : Option Value :=
  (members.reverse.find? fun m => m.1 == key).map (·.2)

/-- The member of an object with a key. -/
def field? (v : Value) (key : String) : Option Value :=
  match v with
  | object members => lookup key members
  | _ => none

end Value

end Harvest.Json
