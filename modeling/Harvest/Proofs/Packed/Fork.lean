import Harvest.Proofs.Packed.Guards

/-!
# Texts that begin alike

Readers of two texts that begin alike read the same bits until one of them has to load a character
that the other one does not have. This happens as early as the last bit of the last common
character is taken, since the next character is loaded at that moment.

## Main definitions

* `BitReader.Forks` — two readers that have the same bits to come, up to where their texts part
* `BitReader.Alike` — two such readers have read the same
* `Token.ofCode` — what is read after a code
* `Decoder.onto` — a decoder that goes on with another text
* `Packed.entriesFrom` — the entries of a text, given its reader

## Main results

* `BitReader.Forks.readBit_cases` — the next bit is read alike, or it is the last one in common
* `BitReader.forks_of_ofChars` — the readers of two texts with the same first character
* `Decoder.accept_onto` — what a token does has nothing to do with the text that follows
* `Decoder.finish_onto` — decoding goes on in another text after a token that both have
-/

namespace Harvest

open Packed

namespace BitReader

/-- Two readers with the same bits to come, up to the place where one text goes on with `x` and the
other one with `x'`. -/
inductive Forks (x x' : List Char) : BitReader → BitReader → Prop
  | mk (present bit : Nat) (common : List Char) (offset : Nat) :
    Forks x x' ⟨present, bit, common ++ x, offset, false⟩ ⟨present, bit, common ++ x', offset, false⟩

/-- Two readers fail alike, or read the same and have the same bits to come afterwards. -/
inductive Alike (x x' : List Char) {α : Type} :
    Except UnpackError (α × BitReader) → Except UnpackError (α × BitReader) → Prop
  | failed (e : UnpackError) : Alike x x' (.error e) (.error e)
  | taken (a : α) {r r' : BitReader} (h : Forks x x' r r') : Alike x x' (.ok (a, r)) (.ok (a, r'))

variable {x x' : List Char} {r r' : BitReader} {α : Type}
  {res' : Except UnpackError (α × BitReader)}

theorem Forks.exhausted (h : Forks x x' r r') : r.exhausted = false ∧ r'.exhausted = false := by
  cases h
  exact ⟨rfl, rfl⟩

theorem Alike.eq_error {e : UnpackError} (h : Alike x x' (.error e) res') : res' = .error e := by
  cases h
  rfl

theorem Alike.exists_of_ok {a : α} (h : Alike x x' (.ok (a, r)) res') :
    ∃ r', res' = .ok (a, r') ∧ Forks x x' r r' := by
  cases h with
  | taken _ h => exact ⟨_, rfl, h⟩

/-- The next bit is read alike, unless it is the last one before the texts part. -/
theorem Forks.readBit_cases (h : Forks x x' r r') : Alike x x' r.readBit r'.readBit ∨
    ∃ present offset, r = ⟨present, 0, x, offset, false⟩ ∧ r' = ⟨present, 0, x', offset, false⟩ := by
  obtain ⟨present, bit, common, offset⟩ := h
  cases bit with
  | succ bit => exact .inl (.taken _ (.mk present bit common offset))
  | zero =>
    cases common with
    | nil => exact .inr ⟨present, offset, rfl, rfl⟩
    | cons c common =>
      -- both readers load the same character, which may be a bad one
      left
      simp only [readBit, advance, if_true, List.cons_append]
      cases load c offset with
      | error e => exact .failed e
      | ok n => exact .taken _ (.mk n 5 common (offset + 1))

/-- The readers of two texts with the same first character. -/
theorem forks_of_ofChars {c : Char} {common : List Char} (h : ofChars (c :: common ++ x) = .ok r)
    (x' : List Char) :
    ∃ r', ofChars (c :: common ++ x') = .ok r' ∧ Forks x x' r r' := by
  simp only [List.cons_append, ofChars] at h ⊢
  cases hload : load c 0 with
  | error e => rw [hload] at h; cases h
  | ok n =>
    rw [hload] at h
    cases h
    exact ⟨_, rfl, .mk n 5 common 1⟩

end BitReader

namespace Token

/-- What stands after a code: the unit that it announces, if it does. -/
def ofCode (code : Nat) (r : BitReader) : Except UnpackError (Token × BitReader) :=
  match code with
  | 0 => do
    let (u, r) ← r.readBits 8
    return (byte u, r)
  | 1 => do
    let (u, r) ← r.readBits 16
    return (wide u, r)
  | 2 => return (stop, r)
  | code => return (reference code, r)

/-- A token is read by its code. -/
theorem read_eq (width : Nat) (r : BitReader) :
    read width r = (r.readBits width).bind fun p => ofCode p.1 p.2 := rfl

/-- The first token is a token whose code is two bits wide, but no reference. -/
theorem readFirst_eq_ok_iff {r r' : BitReader} {t : Token} : readFirst r = .ok (t, r') ↔
    read 2 r = .ok (t, r') ∧ ∀ code, t ≠ reference code := by
  unfold readFirst
  cases read 2 r with
  | error e => exact iff_of_false (fun h => by cases h) fun h => by cases h.1
  | ok p =>
    obtain ⟨t', r₁⟩ := p
    cases t' with
    | byte u | wide u | stop =>
      refine ⟨fun h => ?_, fun h => h.1⟩
      cases h
      exact ⟨rfl, fun _ => Token.noConfusion⟩
    | reference code =>
      refine iff_of_false (fun h => by cases h) fun h => ?_
      cases h.1
      exact h.2 code rfl

end Token

namespace Decoder

/-- The decoder that knows the same but goes on with another text. -/
def onto (d : Decoder) (r : BitReader) : Decoder := { d with reader := r }

/-- What a token does has nothing to do with the text that follows. -/
theorem accept_onto (d : Decoder) (r : BitReader) (t : Token) :
    (d.onto r).accept t = (d.accept t).map (Option.map (·.onto r)) := by
  cases t with
  | byte u | wide u | stop => rfl
  | reference code =>
    have hentry : (d.onto r).entry code = d.entry code := rfl
    simp only [accept, hentry]
    cases d.entry code <;> rfl

/-- A token has the same effect in another text, and decoding goes on there. -/
theorem finish_onto {d : Decoder} {t : Token} {r' r₁' : BitReader} (hmore : r'.exhausted = false)
    (hread : Token.read d.width.bits r' = .ok (t, r₁')) (r : BitReader) :
    (d.onto r').finish = match (d.onto r).accept t with
      | .error e => .error e
      | .ok none => .ok d.entries
      | .ok (some d') => (d'.onto r₁').finish := by
  have hsame : accept { d.onto r' with reader := r₁' } t =
      ((d.onto r).accept t).map (Option.map (·.onto r₁')) := accept_onto (d.onto r) r₁' t
  rw [finish_eq (d := d.onto r') hmore hread, hsame]
  cases (d.onto r).accept t with
  | error e => rfl
  | ok next => cases next <;> rfl

end Decoder

namespace Packed

/-- The entries of a packed text that is not empty, given its reader. -/
def entriesFrom (r : BitReader) : Except UnpackError (List (List Nat)) := do
  let (t, r) ← Token.readFirst r
  match t with
  | .byte u | .wide u =>
    let entries ← (Decoder.first r u).finish
    return entries.reverse
  | _ => return []

theorem unpackEntries_cons (c : Char) (s : List Char) :
    unpackEntries (c :: s) = (BitReader.ofChars (restorePlus (c :: s))).bind entriesFrom := rfl

theorem unpackEntries_of_restored {s t : List Char} {c : Char} (h : restorePlus s = c :: t) :
    unpackEntries s = (BitReader.ofChars (c :: t)).bind entriesFrom := by
  cases s with
  | nil => cases h
  | cons c' s => rw [unpackEntries_cons, h]

theorem unpack_eq (s : String) : unpack s =
    (unpackEntries s.toList).map fun es => String.ofList (Text.ofUnits es.flatten) := by
  unfold unpack
  cases unpackEntries s.toList <;> rfl

end Packed

end Harvest
