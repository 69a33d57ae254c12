/-!
# Text as 16-bit units

Characters beyond the basic plane are carried by two 16-bit units, a leading and a trailing
surrogate. Reading a sequence of units back replaces every surrogate that has no partner by the
replacement character.

## Main definitions

* `Text.isLeading`, `Text.isTrailing` — the two kinds of surrogate
* `Text.joinSurrogates` — the character carried by a pair
* `Text.ofUnits` — the characters of a sequence of units

## Main results

* `Text.ofUnits_singleton_of_plain` — a unit outside the surrogates is its own character
-/

namespace Harvest.Text

/-- Whether a unit is the first half of a pair. -/
def isLeading (u : Nat) : Bool := 0xD800 ≤ u && u < 0xDC00

/-- Whether a unit is the second half of a pair. -/
def isTrailing (u : Nat) : Bool := 0xDC00 ≤ u && u < 0xE000

/-- The character that a leading and a trailing surrogate carry together. -/
def joinSurrogates (hi lo : Nat) : Char :=
  Char.ofNat (0x10000 + (hi - 0xD800) * 0x400 + (lo - 0xDC00))

/-- The character that stands for a surrogate without a partner. -/
def replacement : Char := Char.ofNat 0xFFFD

/-- The character of a unit that is not the first half of a complete pair. -/
def loneUnit (u : Nat) : Char := if isLeading u || isTrailing u then replacement else Char.ofNat u

/-- The characters of a sequence of 16-bit units. -/
def ofUnits : List Nat → List Char
  | [] => []
  | [u] => [loneUnit u]
  | u :: v :: rest =>
    if isLeading u && isTrailing v then joinSurrogates u v :: ofUnits rest
    else loneUnit u :: ofUnits (v :: rest)

@[simp] theorem ofUnits_nil : ofUnits [] = [] := rfl

theorem ofUnits_singleton_of_plain {u : Nat} (h : isLeading u = false) (h' : isTrailing u = false) :
    ofUnits [u] = [Char.ofNat u] := by
  simp [ofUnits, loneUnit, h, h']

theorem ofUnits_pair {u v : Nat} (rest : List Nat) (h : isLeading u = true)
    (h' : isTrailing v = true) : ofUnits (u :: v :: rest) = joinSurrogates u v :: ofUnits rest := by
  simp [ofUnits, h, h']

end Harvest.Text
