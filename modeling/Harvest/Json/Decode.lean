import Harvest.Json.Value

/-!
# Records from JSON texts

A record with named fields is read from an object, or from an array that lists the fields in order.
In an object, members that are no fields are skipped unread, and a field may not occur twice. In an
array, fields may be missing at the end, though not those that a record asks for, and there may be
nothing after the last one. What a missing field means is decided field by field.

## Main definitions

* `Json.Fields` — the fields of a record as they are written
* `Json.Written.fields?` — the fields with the given names
* `Json.Written.string?`, `Json.Written.bool?`, `Json.Written.list?` — readings of plain values
* `Json.Fields.get?` — a field by name
* `Json.Fields.optionalString?`, `Json.Fields.list?`, `Json.Fields.flag?` — readings of fields
-/

namespace Harvest.Json

/-- The fields of a record that are present, by name. -/
abbrev Fields := List (String × Written)

/-- Fields from the members of an object: known names at most once, other members skipped. -/
def fieldsOfMembers? (names : List String) :
    Fields → List (StringText × Written) → Option Fields
  | found, [] => some found
  | found, (key, w) :: rest => do
    let k ← StringText.value? key
    if names.contains k then
      if (found.lookup k).isSome then none else fieldsOfMembers? names ((k, w) :: found) rest
    else fieldsOfMembers? names found rest

namespace Written

/-- The fields of a record whose names are given in order; an array has to list so many of the first
ones. -/
def fields? (names : List String) (listed : Nat) : Written → Option Fields
  | object members => fieldsOfMembers? names [] members
  | array items =>
    if listed ≤ items.length ∧ items.length ≤ names.length then some (names.zip items) else none
  | _ => none

/-- A string. -/
def string? : Written → Option String
  | string t => StringText.value? t
  | _ => none

/-- A string, or nothing for `null`. -/
def optionalString? : Written → Option (Option String)
  | null => some none
  | w => w.string?.map some

/-- One of the words `true` and `false`. -/
def bool? : Written → Option Bool
  | bool b => some b
  | _ => none

/-- A list whose items are all read in the same way. -/
def list? {α : Type} (read : Written → Option α) : Written → Option (List α)
  | array items => items.mapM read
  | _ => none

end Written

namespace Fields

/-- A field by name. -/
def get? (f : Fields) (name : String) : Option Written := f.lookup name

/-- A field read in some way, with a value for a missing one. -/
def read? {α : Type} (f : Fields) (name : String) (missing : α) (read : Written → Option α) :
    Option α :=
  match f.get? name with
  | some w => read w
  | none => some missing

/-- A string that may be missing or `null`. -/
def optionalString? (f : Fields) (name : String) : Option (Option String) :=
  f.read? name none Written.optionalString?

/-- A truth value that is false if missing. -/
def flag? (f : Fields) (name : String) : Option Bool := f.read? name false Written.bool?

/-- A list that is empty if missing. -/
def list? {α : Type} (f : Fields) (name : String) (read : Written → Option α) :
    Option (List α) :=
  f.read? name [] (Written.list? read)

end Fields

end Harvest.Json
