import Harvest.Json.Number
import Harvest.Text.Units

/-!
# JSON texts as written

A JSON text is read in two stages. The first keeps numbers and strings as they are written, so a
part that nobody asks for is only held to the grammar. The second gives values to the parts that
are asked for.

## Main definitions

* `Json.Piece`, `Json.StringText` — a string as it is written, with `Json.StringText.value?`
* `Json.Written` — a JSON text as it is written
-/

namespace Harvest.Json

/-- One element of a string as it is written. -/
inductive Piece where
  /-- A character, written out or by a short escape. -/
  | char (c : Char)
  /-- A 16-bit unit given by its number. -/
  | unit (u : Nat)
  deriving DecidableEq

/-- A string as it is written. -/
abbrev StringText := List Piece

/-- The characters of a string. Units that are surrogates have to come in pairs. -/
def StringText.chars? : StringText → Option (List Char)
  | [] => some []
  | .char c :: rest => (chars? rest).map (c :: ·)
  | .unit u :: .unit v :: rest =>
    if Text.isLeading u then
      if Text.isTrailing v then (chars? rest).map (Text.joinSurrogates u v :: ·) else none
    else if Text.isTrailing u then none
    else (chars? (.unit v :: rest)).map (Char.ofNat u :: ·)
  | .unit u :: rest =>
    if Text.isLeading u || Text.isTrailing u then none
    else (chars? rest).map (Char.ofNat u :: ·)

/-- The value of a string. -/
def StringText.value? (s : StringText) : Option String := (chars? s).map String.ofList

/-- A JSON text as it is written. -/
inductive Written where
  /-- The word `null`. -/
  | null
  /-- One of the words `true` and `false`. -/
  | bool (b : Bool)
  /-- A number. -/
  | number (t : NumberText)
  /-- A string. -/
  | string (t : StringText)
  /-- A list of texts. -/
  | array (items : List Written)
  /-- A list of members, in the order of writing. -/
  | object (members : List (StringText × Written))

end Harvest.Json
