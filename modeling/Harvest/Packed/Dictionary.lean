import Harvest.Number.Binary

/-!
# The dictionary of packed text

While packed text is read, every code that has been given a meaning stands in a dictionary of
sequences of 16-bit units. The first three codes are reserved. The width of a code grows by one bit
whenever all codes of the present width have been given out.

## Main definitions

* `Dictionary` — the sequences by code, with `Dictionary.push` and `Dictionary.get?`
* `CodeWidth` — the width of the next code, with `CodeWidth.next`

## Main results

* `Dictionary.size_push`, `Dictionary.get?_push` — what a new entry changes
-/

namespace Harvest

/-- Sequences of units by code; codes 0 to 2 are reserved and stand for nothing. -/
structure Dictionary where
  /-- The entries in the order of their codes. -/
  entries : Array (List Nat)
  deriving DecidableEq

namespace Dictionary

/-- The dictionary with nothing but the reserved codes. -/
def start : Dictionary := ⟨#[[], [], []]⟩

/-- How many codes have been given out, reserved ones included. -/
def size (d : Dictionary) : Nat := d.entries.size

/-- The dictionary with one more entry, under the next code. -/
def push (d : Dictionary) (entry : List Nat) : Dictionary := ⟨d.entries.push entry⟩

/-- The entry under a code. -/
def get? (d : Dictionary) (code : Nat) : Option (List Nat) := d.entries[code]?

@[simp] theorem size_start : start.size = 3 := rfl

@[simp] theorem size_push (d : Dictionary) (e : List Nat) : (d.push e).size = d.size + 1 := by
  simp [push, size]

theorem get?_push (d : Dictionary) (e : List Nat) (code : Nat) :
    (d.push e).get? code = if code = d.size then some e else d.get? code := by
  simp only [push, get?, size, Array.getElem?_push]
  rfl

theorem get?_eq_none_iff (d : Dictionary) (code : Nat) : d.get? code = none ↔ d.size ≤ code := by
  simp [get?, size]

end Dictionary

/-- The width of the next code. -/
structure CodeWidth where
  /-- The number of bits of the next code. -/
  bits : Nat
  /-- How many codes are still to be given out before the width grows. -/
  left : Nat
  /-- A code takes at least one bit. -/
  bits_pos : 0 < bits := by decide
  deriving DecidableEq

namespace CodeWidth

/-- The width before the second code of a packed text. -/
def start : CodeWidth where
  bits := 3
  left := 4

/-- The width after one more code has been given out. -/
def next (w : CodeWidth) : CodeWidth :=
  if w.left - 1 = 0 then ⟨w.bits + 1, Bits.count w.bits, Nat.succ_pos _⟩
  else ⟨w.bits, w.left - 1, w.bits_pos⟩

end CodeWidth

end Harvest
