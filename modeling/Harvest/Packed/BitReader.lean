import Harvest.Text.Printable

/-!
# Reading packed text bit by bit

Packed text is written with sixty-five characters that are safe in links. Each carries six bits;
the last one is a filler and carries six zero bits. The bits of packed text are those of its
characters, the high bit of each character first, and zeros without end after the last character. A
number is read with its lowest bit first. The reader holds one character at a time and loads the
next one as soon as the last bit of the present one is taken, so a character outside the alphabet is
found at that moment.

## Main definitions

* `UnpackError` — why packed text cannot be read, with `UnpackError.message`
* `Packed.alphabet`, `Packed.number?` — the characters in the order of their numbers
* `BitReader.ofChars` — a reader on the first character
* `BitReader.readBit`, `BitReader.readBits` — the next bit, and a number of several bits
* `BitReader.exhausted` — whether the reader has gone past the last character
* `BitReader.bitsLeft` — how many bits can be read before that

## Main results

* `BitReader.bitsLeft_readBit` — reading a bit leaves one bit less
* `BitReader.bitsLeft_readBits` — reading a number of `n` bits leaves `n` bits less
-/

namespace Harvest

/-! ### The alphabet -/

/-- Why packed text cannot be read. -/
inductive UnpackError where
  /-- A character outside the alphabet, at an offset counted in characters. -/
  | badCharacter (c : Char) (offset : Nat)
  /-- The first code has no meaning. -/
  | badFirstCode (code : Nat)
  /-- A code above the size that the dictionary has when the code is read. -/
  | badReference (code size : Nat)
  deriving DecidableEq, Repr

/-- The wording of an error. -/
def UnpackError.message : UnpackError → String
  | badCharacter c offset =>
    "Character " ++ Text.quotedChar c ++ " at offset " ++ toString offset ++
      " is outside the URI-safe alphabet"
  | badFirstCode code => "Invalid initial op-code " ++ toString code
  | badReference code size =>
    "Back-reference " ++ toString code ++ " is beyond dictionary size " ++ toString size

namespace Packed

/-- The characters of packed text, in the order of their numbers. -/
def alphabet : List Char :=
  "ABCDEFGHIJKLMNOPQRSTUVWXYZabcdefghijklmnopqrstuvwxyz0123456789+-$".toList

/-- The number of a character of the alphabet. -/
def number? (c : Char) : Option Nat := alphabet.idxOf? c

end Packed

/-! ### Readers -/

/-- A reader of the bits of packed text. -/
structure BitReader where
  /-- The number of the present character. -/
  present : Nat
  /-- How many bits of the present character are left after the next one. -/
  bit : Nat
  /-- The characters that are not loaded yet. -/
  rest : List Char
  /-- The offset of the next character to load. -/
  offset : Nat
  /-- Whether the reader has gone past the last character. -/
  exhausted : Bool
  deriving DecidableEq

namespace BitReader

/-- The number of the character at an offset. -/
def load (c : Char) (offset : Nat) : Except UnpackError Nat :=
  match Packed.number? c with
  | some n => .ok n
  | none => .error (.badCharacter c offset)

/-- A reader on the first character. -/
def ofChars : List Char → Except UnpackError BitReader
  | [] => .ok ⟨0, 5, [], 1, true⟩
  | c :: rest => do
    let n ← load c 0
    return ⟨n, 5, rest, 1, false⟩

/-- The reader after the last bit of the present character. -/
def advance (r : BitReader) : Except UnpackError BitReader :=
  match r.rest with
  | [] => .ok ⟨0, 5, [], r.offset + 1, true⟩
  | c :: rest => do
    let n ← load c r.offset
    return ⟨n, 5, rest, r.offset + 1, r.exhausted⟩

/-- The next bit. -/
def readBit (r : BitReader) : Except UnpackError (Bool × BitReader) :=
  let b := r.present.testBit r.bit
  if r.bit = 0 then do
    -- the next character is loaded now, and not when its first bit is asked for
    let r' ← r.advance
    return (b, r')
  else .ok (b, { r with bit := r.bit - 1 })

/-- The number made of the next `n` bits, the lowest first. -/
def readBits : Nat → BitReader → Except UnpackError (Nat × BitReader)
  | 0, r => .ok (0, r)
  | n + 1, r => do
    let (b, r) ← r.readBit
    let (high, r) ← readBits n r
    return (b.toNat + 2 * high, r)

/-- How many bits can be read before the reader is exhausted. -/
def bitsLeft (r : BitReader) : Nat :=
  if r.exhausted then 0 else 6 * r.rest.length + r.bit + 1

theorem bitsLeft_eq_zero_iff (r : BitReader) : r.bitsLeft = 0 ↔ r.exhausted = true := by
  unfold bitsLeft
  cases r.exhausted <;> simp

/-- Reading a bit leaves one bit less. -/
theorem bitsLeft_readBit {r r' : BitReader} {b : Bool} (h : r.readBit = .ok (b, r')) :
    r'.bitsLeft = r.bitsLeft - 1 := by
  obtain ⟨present, bit, rest, offset, exhausted⟩ := r
  unfold readBit at h
  by_cases hb : bit = 0
  · -- the next character, if there is one, brings six new bits
    subst hb
    cases rest with
    | nil =>
      simp only [advance, if_true, bind, Except.bind, pure, Except.pure, Except.ok.injEq,
        Prod.mk.injEq] at h
      obtain ⟨-, rfl⟩ := h
      cases exhausted <;> simp [bitsLeft]
    | cons c rest =>
      cases hn : load c offset with
      | error e => simp [advance, hn, bind, Except.bind] at h
      | ok n =>
        simp only [advance, hn, if_true, bind, Except.bind, pure, Except.pure, Except.ok.injEq,
          Prod.mk.injEq] at h
        obtain ⟨-, rfl⟩ := h
        cases exhausted with
        | true => simp [bitsLeft]
        | false =>
          simp [bitsLeft]
          omega
  · simp only [hb, if_false, Except.ok.injEq, Prod.mk.injEq] at h
    obtain ⟨-, rfl⟩ := h
    cases exhausted with
    | true => simp [bitsLeft]
    | false =>
      simp [bitsLeft]
      omega

/-- Reading a number of `n` bits leaves `n` bits less. -/
theorem bitsLeft_readBits {n m : Nat} {r r' : BitReader} (h : readBits n r = .ok (m, r')) :
    r'.bitsLeft = r.bitsLeft - n := by
  induction n generalizing r m with
  | zero =>
    simp only [readBits, Except.ok.injEq, Prod.mk.injEq] at h
    rw [← h.2, Nat.sub_zero]
  | succ n ih =>
    unfold readBits at h
    cases h₁ : r.readBit with
    | error e => simp [h₁, bind, Except.bind] at h
    | ok p =>
      obtain ⟨b, r₁⟩ := p
      cases h₂ : readBits n r₁ with
      | error e => simp [h₁, h₂, bind, Except.bind] at h
      | ok q =>
        obtain ⟨high, r₂⟩ := q
        simp only [h₁, h₂, bind, Except.bind, pure, Except.pure, Except.ok.injEq,
          Prod.mk.injEq] at h
        obtain ⟨-, rfl⟩ := h
        rw [ih h₂, bitsLeft_readBit h₁]
        omega

end BitReader

end Harvest
