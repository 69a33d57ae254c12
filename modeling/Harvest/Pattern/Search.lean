import Harvest.Pattern.Basic

/-!
# Searching with patterns

The first place of a text where a pattern matches, all places one after the other without overlap,
and replacement of the first match.

## Main definitions

* `Found` — a match and where it begins
* `Pattern.find` — the leftmost match
* `Pattern.findAll` — the leftmost match, then the leftmost after it, and so on
* `Pattern.occursIn` — whether there is a match at all
* `Pattern.eraseFirst` — the text without its leftmost match

## Main results

* `Pattern.occursIn_iff` — a pattern occurs when it matches at some position
-/

namespace Harvest

/-- A match: where it begins and the way in which it was made. -/
structure Found where
  /-- Where the match begins. -/
  start : Cursor
  /-- Where it ends, and its groups. -/
  way : Way
  deriving DecidableEq

namespace Found

/-- The number of characters before the match. -/
def offset (f : Found) : Nat := f.start.offset

/-- The matched text. -/
def text (f : Found) : List Char := f.way.cursor.since f.start

/-- The text of a group, if the match went through it. -/
def group? (f : Found) (n : Nat) : Option (List Char) := f.way.groups.lookup n

/-- The text of a group, empty if the match did not go through it. -/
def group (f : Found) (n : Nat) : List Char := (f.group? n).getD []

end Found

namespace Pattern

/-- The leftmost match at or after the position `⟨seen, rest⟩`. -/
def findFrom (p : Pattern) (seen : List Char) : List Char → Option Found
  | [] => (p.first ⟨seen, []⟩).map fun w => ⟨⟨seen, []⟩, w⟩
  | c :: rest =>
    match p.first ⟨seen, c :: rest⟩ with
    | some w => some ⟨⟨seen, c :: rest⟩, w⟩
    | none => findFrom p (c :: seen) rest

/-- The leftmost match in a text. -/
def find (p : Pattern) (s : List Char) : Option Found := p.findFrom [] s

/-- Whether the pattern matches somewhere in a text. -/
def occursIn (p : Pattern) (s : List Char) : Bool := (p.find s).isSome

/-- All matches that do not overlap, from left to right, at or after the position
`⟨seen, rest⟩`, where the next `skip` characters belong to the match before. -/
def findAllFrom (p : Pattern) (seen : List Char) : Nat → List Char → List Found
  | 0, [] => ((p.first ⟨seen, []⟩).map fun w => ⟨⟨seen, []⟩, w⟩).toList
  | _ + 1, [] => []
  | 0, c :: rest =>
    match p.first ⟨seen, c :: rest⟩ with
    | some w =>
      ⟨⟨seen, c :: rest⟩, w⟩ ::
        findAllFrom p (c :: seen) (w.cursor.offset - seen.length - 1) rest
    | none => findAllFrom p (c :: seen) 0 rest
  | skip + 1, c :: rest => findAllFrom p (c :: seen) skip rest

/-- All matches in a text that do not overlap, from left to right. -/
def findAll (p : Pattern) (s : List Char) : List Found := p.findAllFrom [] 0 s

/-- The text without its leftmost match. -/
def eraseFirst (p : Pattern) (s : List Char) : List Char :=
  match p.find s with
  | some f => f.start.seen.reverse ++ f.way.cursor.rest
  | none => s

theorem isSome_findFrom_iff (p : Pattern) (seen s : List Char) :
    (p.findFrom seen s).isSome = true ↔
      ∃ a b, s = a ++ b ∧ (p.first ⟨a.reverse ++ seen, b⟩).isSome = true := by
  induction s generalizing seen with
  | nil =>
    simp only [findFrom, Option.isSome_map]
    constructor
    · exact fun h => ⟨[], [], rfl, h⟩
    · rintro ⟨a, b, h, hb⟩
      obtain ⟨rfl, rfl⟩ := List.append_eq_nil_iff.mp h.symm
      exact hb
  | cons c rest ih =>
    rw [findFrom]
    cases hw : p.first ⟨seen, c :: rest⟩ with
    | some w => exact ⟨fun _ => ⟨[], c :: rest, rfl, by simp [hw]⟩, fun _ => rfl⟩
    | none =>
      rw [ih]
      constructor
      · rintro ⟨a, b, h, hb⟩
        exact ⟨c :: a, b, by simp [h], by simpa using hb⟩
      · rintro ⟨a, b, h, hb⟩
        cases a with
        | nil =>
          obtain rfl : c :: rest = b := by simpa using h
          simp [hw] at hb
        | cons d a =>
          obtain ⟨rfl, rfl⟩ : c = d ∧ rest = a ++ b := by simpa using h
          exact ⟨a, b, rfl, by simpa using hb⟩

/-- A pattern occurs in a text exactly when it matches at some position of it. -/
theorem occursIn_iff (p : Pattern) (s : List Char) :
    p.occursIn s = true ↔ ∃ a b, s = a ++ b ∧ (p.first ⟨a.reverse, b⟩).isSome = true := by
  simpa [occursIn, find] using isSome_findFrom_iff p [] s

end Pattern

end Harvest
