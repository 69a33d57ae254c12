import Harvest.Packed.BitReader
import Harvest.Packed.Dictionary
import Harvest.Text.Units

/-!
# Unpacking text

Packed text is a sequence of tokens: a unit written out, a reference to an earlier sequence, or the
mark that ends the text. Each token stands for a sequence of units, its entry; the text is the
concatenation of the entries. Every token after the first also adds to the dictionary the entry
before it, lengthened by the first unit of its own, and a unit written out adds itself before that.
A reference may name the code that is about to be given out: it stands for the entry before it,
lengthened by its own first unit.

## Main definitions

* `Token` — the tokens, with `Token.read` and `Token.readFirst`
* `Decoder` — what is known while packed text is read, with `Decoder.accept`
* `Decoder.finish` — all entries up to the end of the text
* `Packed.unpackEntries`, `Packed.unpack` — the entries and the text

## Main results

* `Token.bitsLeft_read` — a token takes at least as many bits as its code is wide
-/

namespace Harvest

/-- One token of packed text. -/
inductive Token where
  /-- A unit below 256, written out in eight bits. -/
  | byte (u : Nat)
  /-- A unit written out in sixteen bits. -/
  | wide (u : Nat)
  /-- The entry under a code. -/
  | reference (code : Nat)
  /-- The end of the text. -/
  | stop
  deriving DecidableEq, Repr

namespace Token

/-- The next token, when codes are `width` bits wide. -/
def read (width : Nat) (r : BitReader) : Except UnpackError (Token × BitReader) := do
  let (code, r) ← r.readBits width
  match code with
  | 0 =>
    let (u, r) ← r.readBits 8
    return (byte u, r)
  | 1 =>
    let (u, r) ← r.readBits 16
    return (wide u, r)
  | 2 => return (stop, r)
  | code => return (reference code, r)

/-- The first token, whose code is two bits wide and cannot be a reference. -/
def readFirst (r : BitReader) : Except UnpackError (Token × BitReader) := do
  let (token, r) ← read 2 r
  match token with
  | reference code => throw (.badFirstCode code)
  | token => return (token, r)

/-- A token takes at least as many bits as its code is wide. -/
theorem bitsLeft_read {width : Nat} {r r' : BitReader} {t : Token}
    (h : read width r = .ok (t, r')) : r'.bitsLeft ≤ r.bitsLeft - width := by
  unfold read at h
  cases h₁ : r.readBits width with
  | error e => simp [h₁, bind, Except.bind] at h
  | ok p =>
    obtain ⟨code, r₁⟩ := p
    rw [← BitReader.bitsLeft_readBits h₁]
    have taken : ∀ {n u : Nat} {r₂ : BitReader}, r₁.readBits n = .ok (u, r₂) →
        r₂.bitsLeft ≤ r₁.bitsLeft := fun h₂ =>
      BitReader.bitsLeft_readBits h₂ ▸ Nat.sub_le ..
    simp only [h₁, bind, Except.bind] at h
    split at h
    · cases h₂ : r₁.readBits 8 with
      | error e => simp [h₂] at h
      | ok q =>
        simp only [h₂, pure, Except.pure, Except.ok.injEq, Prod.mk.injEq] at h
        exact h.2 ▸ taken h₂
    · cases h₂ : r₁.readBits 16 with
      | error e => simp [h₂] at h
      | ok q =>
        simp only [h₂, pure, Except.pure, Except.ok.injEq, Prod.mk.injEq] at h
        exact h.2 ▸ taken h₂
    · simp only [pure, Except.pure, Except.ok.injEq, Prod.mk.injEq] at h
      exact h.2 ▸ Nat.le_refl _
    · simp only [pure, Except.pure, Except.ok.injEq, Prod.mk.injEq] at h
      exact h.2 ▸ Nat.le_refl _

end Token

/-- What is known while packed text is read. -/
structure Decoder where
  /-- The bits to come. -/
  reader : BitReader
  /-- The codes given out so far. -/
  dictionary : Dictionary
  /-- The width of the next code. -/
  width : CodeWidth
  /-- The entry of the token before. -/
  previous : List Nat
  /-- The entries of all tokens so far, latest first. -/
  entries : List (List Nat)
  deriving DecidableEq

namespace Decoder

/-- The entry that a code stands for. -/
def entry (d : Decoder) (code : Nat) : Except UnpackError (List Nat) :=
  match d.dictionary.get? code with
  | some e => .ok e
  | none =>
    if code = d.dictionary.size then .ok (d.previous ++ d.previous.take 1)
    else .error (.badReference code d.dictionary.size)

/-- The decoder after a unit written out has been put into the dictionary. -/
def learn (d : Decoder) (u : Nat) : Decoder :=
  { d with dictionary := d.dictionary.push [u], width := d.width.next }

/-- The decoder after a token with the given entry. -/
def append (d : Decoder) (e : List Nat) : Decoder :=
  { d with
    dictionary := d.dictionary.push (d.previous ++ e.take 1)
    width := d.width.next
    previous := e
    entries := e :: d.entries }

/-- The decoder after a token, if the text does not end with it. -/
def accept (d : Decoder) : Token → Except UnpackError (Option Decoder)
  | .byte u | .wide u => .ok (some ((d.learn u).append [u]))
  | .reference code => do
    let e ← d.entry code
    return some (d.append e)
  | .stop => .ok none

theorem reader_of_accept {d d' : Decoder} {t : Token} (h : d.accept t = .ok (some d')) :
    d'.reader = d.reader := by
  cases t with
  | byte u => simp only [accept, Except.ok.injEq, Option.some.injEq] at h; rw [← h]; rfl
  | wide u => simp only [accept, Except.ok.injEq, Option.some.injEq] at h; rw [← h]; rfl
  | reference code =>
    cases he : d.entry code with
    | error e => simp [accept, he, bind, Except.bind] at h
    | ok e =>
      simp only [accept, he, bind, Except.bind, pure, Except.pure, Except.ok.injEq,
        Option.some.injEq] at h
      rw [← h]; rfl
  | stop => simp [accept] at h

/-- All entries of a packed text, latest first. Text that stops without an end mark ends where its
last character does. -/
def finish (d : Decoder) : Except UnpackError (List (List Nat)) :=
  if d.reader.exhausted then .ok d.entries
  else
    match _h : Token.read d.width.bits d.reader with
    | .error e => .error e
    | .ok (t, r) =>
      match _h' : accept { d with reader := r } t with
      | .error e => .error e
      | .ok none => .ok d.entries
      | .ok (some d') => finish d'
termination_by d.reader.bitsLeft
decreasing_by
  -- the reader has lost at least the bits of a code, and a code has some
  rename_i hne
  have hr : d'.reader = r := reader_of_accept _h'
  have hle := Token.bitsLeft_read _h
  have hpos : d.reader.bitsLeft ≠ 0 := by
    rw [ne_eq, BitReader.bitsLeft_eq_zero_iff]
    simp_all
  have hw := d.width.bits_pos
  rw [hr]
  omega

/-- The decoder after a first token that writes out the unit `u`. -/
def first (r : BitReader) (u : Nat) : Decoder :=
  ⟨r, Dictionary.start.push [u], CodeWidth.start, [u], [[u]]⟩

end Decoder

namespace Packed

/-- Spaces stand for plus signs, which some links turn into spaces. -/
def restorePlus (s : List Char) : List Char := s.map fun c => if c = ' ' then '+' else c

/-- The entries of a packed text, in order. -/
def unpackEntries (s : List Char) : Except UnpackError (List (List Nat)) :=
  if s.isEmpty then .ok []
  else do
    let r ← BitReader.ofChars (restorePlus s)
    let (t, r) ← Token.readFirst r
    match t with
    | .byte u | .wide u =>
      let entries ← (Decoder.first r u).finish
      return entries.reverse
    | _ => return []

/-- The text that a packed text stands for. -/
def unpack (s : String) : Except UnpackError String := do
  let entries ← unpackEntries s.toList
  return String.ofList (Text.ofUnits entries.flatten)

end Packed

end Harvest
