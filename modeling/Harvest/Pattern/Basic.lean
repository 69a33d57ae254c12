import Harvest.Text.Category

/-!
# Patterns

Patterns over a text with a preference among the ways to match: an earlier alternative is
preferred to a later one, and a longer run to a shorter one. The meaning of a pattern at a position
is the list of all ways in which it matches there, the preferred way first.

For one character a pattern asks by a class of them. A letter that is asked for without regard to
case stands for all characters with the same simple case folding: its two cases and, for `s` and
`k`, the long s and the Kelvin sign.

## Main definitions

* `CharClass`, `CharClass.contains` — the sets of characters that can be asked for
* `Cursor` — a position in a text, with what stands before it and what follows
* `Pattern` — characters, runs, sequences, alternatives, groups and assertions
* `Pattern.ways` — all ways to match at a position, in order of preference
* `Pattern.first` — the preferred way

## Main results

* `Cursor.since_append` — the text between two positions
* `Pattern.ways_seq`, `Pattern.ways_either` — how ways compose
-/

namespace Harvest

/-! ### Classes of characters -/

/-- A set of characters that a pattern can ask for at one position. -/
inductive CharClass where
  /-- One character and no other. -/
  | only (c : Char)
  /-- A lower-case ASCII letter in any case; any other character stands for itself. -/
  | caseless (c : Char)
  /-- The decimal digits of all scripts. -/
  | digit
  /-- Everything but decimal digits. -/
  | nonDigit
  /-- White space. -/
  | blank
  /-- ASCII letters and digits. -/
  | plainAlphanumeric
  /-- The listed characters. -/
  | among (cs : List Char)
  /-- Everything but the listed characters. -/
  | outside (cs : List Char)

namespace CharClass

/-- Whether `x` is the lower-case letter `c` up to case. -/
def sameLetter (c x : Char) : Bool :=
  x == c || x == c.toUpper || (c == 's' && x == 'ſ') || (c == 'k' && x.toNat == 0x212A)

/-- Whether the class holds a character. -/
def contains : CharClass → Char → Bool
  | only c, x => x == c
  | caseless c, x => sameLetter c x
  | digit, x => Text.isDecimalDigit x
  | nonDigit, x => !Text.isDecimalDigit x
  | blank, x => Text.isBlank x
  | plainAlphanumeric, x => x.isAlphanum
  | among cs, x => cs.contains x
  | outside cs, x => !cs.contains x

theorem contains_among {cs : List Char} {x : Char} : (among cs).contains x = true ↔ x ∈ cs := by
  simp [contains]

theorem contains_outside {cs : List Char} {x : Char} :
    (outside cs).contains x = true ↔ x ∉ cs := by
  simp [contains]

end CharClass

/-! ### Positions -/

/-- A position in a text. -/
structure Cursor where
  /-- What stands before the position, nearest character first. -/
  seen : List Char
  /-- What follows the position. -/
  rest : List Char
  deriving DecidableEq

namespace Cursor

/-- The beginning of a text. -/
def ofList (s : List Char) : Cursor := ⟨[], s⟩

/-- The number of characters before the position. -/
def offset (p : Cursor) : Nat := p.seen.length

/-- The whole text. -/
def text (p : Cursor) : List Char := p.seen.reverse ++ p.rest

/-- The text from an earlier position `q` of the same text up to `p`. -/
def since (p q : Cursor) : List Char := (p.seen.take (p.offset - q.offset)).reverse

/-- Whether a word begins or ends at the position. -/
def atWordEdge (p : Cursor) : Bool :=
  p.seen.head?.any Text.isWordChar != p.rest.head?.any Text.isWordChar

theorem since_append (seen w rest rest' : List Char) :
    since ⟨w.reverse ++ seen, rest⟩ ⟨seen, rest'⟩ = w := by
  have h : (w.reverse ++ seen).length - seen.length = w.reverse.length := by
    simp only [List.length_append]; omega
  simp only [since, offset, h, List.take_left, List.reverse_reverse]

/-- The positions that follow `⟨seen, rest⟩` after some more characters of the class `k`, the
farthest first, in front of the positions `found` already known. At least `least` and at most
`most` further characters are taken. -/
def runs (k : CharClass) : Nat → Option Nat → List Char → List Char → List Cursor → List Cursor
  | least, _, seen, [], found => if least = 0 then ⟨seen, []⟩ :: found else found
  | least, most, seen, c :: rest, found =>
    let here := if least = 0 then ⟨seen, c :: rest⟩ :: found else found
    if most = some 0 then here
    else if k.contains c then
      runs k (least - 1) (most.map (· - 1)) (c :: seen) rest here
    else here

end Cursor

/-- A pattern over texts. -/
inductive Pattern where
  /-- The empty text. -/
  | empty
  /-- One character of a class. -/
  | one (k : CharClass)
  /-- A run of characters of a class, as long as possible, of at least `least` and at most `most`
  characters. -/
  | run (k : CharClass) (least : Nat) (most : Option Nat)
  /-- One pattern and then another. -/
  | seq (p q : Pattern)
  /-- One pattern or else another. -/
  | either (p q : Pattern)
  /-- A pattern whose text is remembered under a number. -/
  | group (n : Nat) (p : Pattern)
  /-- The beginning or the end of a word. -/
  | wordEdge
  /-- The beginning of the text. -/
  | start
  /-- The end of the text. -/
  | stop

/-- A way in which a pattern has matched so far. -/
structure Way where
  /-- Where the match has got to. -/
  cursor : Cursor
  /-- The texts of the groups, latest first. -/
  groups : List (Nat × List Char)
  deriving DecidableEq

namespace Pattern

instance : Append Pattern := ⟨seq⟩

/-- All ways in which a pattern matches after the way `w`, the preferred way first. -/
def ways : Pattern → Way → List Way
  | empty, w => [w]
  | one k, w =>
    match w.cursor.rest with
    | [] => []
    | c :: rest => if k.contains c then [{ w with cursor := ⟨c :: w.cursor.seen, rest⟩ }] else []
  | run k least most, w =>
    (Cursor.runs k least most w.cursor.seen w.cursor.rest []).map fun p => { w with cursor := p }
  | seq p q, w => (p.ways w).flatMap q.ways
  | either p q, w => p.ways w ++ q.ways w
  | group n p, w =>
    (p.ways w).map fun v => { v with groups := (n, v.cursor.since w.cursor) :: v.groups }
  | wordEdge, w => if w.cursor.atWordEdge then [w] else []
  | start, w => if w.cursor.seen.isEmpty then [w] else []
  | stop, w => if w.cursor.rest.isEmpty then [w] else []

/-- The preferred way to match a pattern at a position. -/
def first (p : Pattern) (c : Cursor) : Option Way := (p.ways ⟨c, []⟩).head?

@[simp] theorem ways_empty (w : Way) : empty.ways w = [w] := rfl

@[simp] theorem ways_seq (p q : Pattern) (w : Way) :
    (p ++ q).ways w = (p.ways w).flatMap q.ways := rfl

@[simp] theorem ways_either (p q : Pattern) (w : Way) :
    (either p q).ways w = p.ways w ++ q.ways w := rfl

/-- The pattern or nothing, the pattern being preferred. -/
def optional (p : Pattern) : Pattern := either p empty

/-- The first of the listed patterns that can be used; with no pattern to choose from, the empty
text. -/
def oneOf : List Pattern → Pattern
  | [] => empty
  | [p] => p
  | p :: ps => either p (oneOf ps)

/-- The patterns one after the other. -/
def chain : List Pattern → Pattern
  | [] => empty
  | [p] => p
  | p :: ps => seq p (chain ps)

/-- A text given in lower case, in any case. -/
def caseless (s : String) : Pattern := chain (s.toList.map fun c => one (.caseless c))

/-- A text exactly as given. -/
def literal (s : String) : Pattern := chain (s.toList.map fun c => one (.only c))

/-- White space, if there is any. -/
def blanks : Pattern := run .blank 0 none

/-- One decimal digit. -/
def digit : Pattern := one .digit

/-- A run of at least `least` and at most `most` decimal digits. -/
def digits (least most : Nat) : Pattern := run .digit least (some most)

/-- A pattern between two word edges. -/
def word (p : Pattern) : Pattern := wordEdge ++ p ++ wordEdge

/-- One of the given texts in any case, between two word edges. -/
def anyWord (ws : List String) : Pattern := word (oneOf (ws.map caseless))

end Pattern

end Harvest
