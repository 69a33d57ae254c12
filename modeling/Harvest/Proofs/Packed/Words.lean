import Harvest.Proofs.Packed.Guards
import Mathlib.Tactic.Ring

/-!
# Unpacking with words of 32 bits

The decoder counts with numbers of any size, and takes the first unit of an entry as if there always
were one. Here it is retold with words of 32 bits. A sum that takes more bits, a negative difference,
a shift by more than 31 places, a number that is cut, the first unit of an empty entry and a loop
that has not ended after so many rounds are crashes. For texts of at most 2 ^ 29 characters nothing
of the kind happens, and the text is the same.

What carries this is that the width of the codes goes with the size of the dictionary. It does so
whenever the next token is to be read, for hostile texts as well as for those that somebody has
packed: a unit that is written out gives out two codes and counts down twice, and a reference gives
out one and counts down once.

## Main definitions

* `UnpackFailure` — a crash, or a text that is refused
* `Packed.unpackInWords` — unpacking with words and a bounded number of rounds
* `Decoder.IsTight` — the width goes with the dictionary, and there is a unit wherever one is taken
* `Packed.Meets` — a text leads to a decoder that is about to read a token

## Main results

* `Decoder.Regular.acceptInWords_eq` — a token is accepted without a crash
* `Decoder.Paid.finishInWords_eq` — two rounds for a character are enough
* `Packed.unpackInWords_eq` — unpacking with words never crashes
-/

namespace Harvest

open Packed

/-- How unpacking with words ends if not with a text. -/
inductive UnpackFailure where
  /-- An operation has no result. -/
  | crash
  /-- The text is refused. -/
  | refused (e : UnpackError)
  deriving DecidableEq, Repr

/-- A sequence goes on alike with other errors if its second part does wherever the first one
leads. -/
theorem mapError_bind {ε ε' α β : Type} {f : ε → ε'} {x : Except ε α} {g : α → Except ε' β}
    {h : α → Except ε β} (hg : ∀ a, x = .ok a → g a = (h a).mapError f) :
    (x.mapError f >>= g) = (x >>= h).mapError f := by
  cases x with
  | error e => rfl
  | ok a => exact hg a rfl

/-! ### Words -/

namespace Word

/-- A number, if it is admissible. -/
def check (p : Prop) [Decidable p] (n : Nat) : Except UnpackFailure Nat :=
  if p then .ok n else .error .crash

/-- The sum of two words, if it is a word. -/
def add (a b : Nat) : Except UnpackFailure Nat := check (a + b < Bits.count 32) (a + b)

/-- The difference of two words, if it is not negative. -/
def sub (a b : Nat) : Except UnpackFailure Nat := check (b ≤ a) (a - b)

/-- One, shifted by less places than a word has. -/
def shiftOne (n : Nat) : Except UnpackFailure Nat := check (n < 32) (Bits.count n)

/-- A number cut to so many bits, if this does not change it. -/
def cut (bits n : Nat) : Except UnpackFailure Nat := check (n < Bits.count bits) n

/-- The first unit of an entry. -/
def first : List Nat → Except UnpackFailure Nat
  | [] => .error .crash
  | u :: _ => .ok u

variable {a b n : Nat}

theorem add_eq (h : a + b < Bits.count 32) : add a b = .ok (a + b) := if_pos h

theorem sub_eq (h : b ≤ a) : sub a b = .ok (a - b) := if_pos h

theorem shiftOne_eq (h : n < 32) : shiftOne n = .ok (Bits.count n) := if_pos h

theorem cut_eq {bits : Nat} (h : n < Bits.count bits) : cut bits n = .ok n := if_pos h

theorem exists_first {e : List Nat} (h : e ≠ []) : ∃ u, first e = .ok u ∧ e.take 1 = [u] := by
  cases e with
  | nil => exact absurd rfl h
  | cons u e => exact ⟨u, rfl, rfl⟩

end Word

/-! ### Numbers of several bits -/

namespace BitReader

/-- The number made of the next `n` bits, when the first of them counts `place`. -/
def readPlaces (place : Nat) : Nat → BitReader → Except UnpackFailure (Nat × BitReader)
  | 0, r => .ok (0, r)
  | n + 1, r => do
    let (b, r) ← r.readBit.mapError .refused
    -- the place after the last bit has to be a word as well: it ends the loop
    let next ← Word.add place place
    let (high, r) ← readPlaces next n r
    let total ← Word.add (b.toNat * place) high
    return (total, r)

/-- The number made of the next `n` bits, the lowest first. -/
def readWord (n : Nat) (r : BitReader) : Except UnpackFailure (Nat × BitReader) := do
  let _ ← Word.shiftOne n
  readPlaces 1 n r

/-- A number of `n` bits has at most `n` bits. -/
theorem lt_of_readBits {n x : Nat} {r r' : BitReader} (h : readBits n r = .ok (x, r')) :
    x < Bits.count n := by
  induction n generalizing r r' x with
  | zero =>
    cases h
    exact Nat.one_pos
  | succ n ih =>
    unfold readBits at h
    cases hbit : r.readBit with
    | error e => simp [hbit, bind, Except.bind] at h
    | ok p =>
      obtain ⟨b, r₁⟩ := p
      cases hrest : readBits n r₁ with
      | error e => simp [hbit, hrest, bind, Except.bind] at h
      | ok q =>
        obtain ⟨high, r₂⟩ := q
        simp only [hbit, hrest, bind, Except.bind, pure, Except.pure, Except.ok.injEq,
          Prod.mk.injEq] at h
        have hb := Bool.toNat_le b
        have hhigh := ih hrest
        rw [Bits.count_succ]
        omega

/-- As long as the last place is a word, reading by places is reading bits. -/
theorem readPlaces_eq {place n : Nat} (hplace : place * Bits.count n < Bits.count 32)
    (r : BitReader) : readPlaces place n r =
      ((r.readBits n).map fun p => (p.1 * place, p.2)).mapError .refused := by
  induction n generalizing place r with
  | zero => simp [readPlaces, readBits, Except.map, Except.mapError]
  | succ n ih =>
    rw [Bits.count_succ] at hplace
    have hnext : (place + place) * Bits.count n < Bits.count 32 := by
      rwa [← Nat.mul_two, Nat.mul_assoc]
    have hdouble : place + place < Bits.count 32 :=
      Nat.lt_of_le_of_lt (Nat.le_mul_of_pos_right _ (Bits.count_pos n)) hnext
    unfold readPlaces readBits
    cases hbit : r.readBit with
    | error e => rfl
    | ok p =>
      obtain ⟨b, r₁⟩ := p
      cases hrest : readBits n r₁ with
      | error e =>
        simp only [Except.mapError, Except.map, bind, Except.bind, Word.add_eq hdouble, ih hnext,
          hrest]
      | ok q =>
        obtain ⟨high, r₂⟩ := q
        have hvalue : b.toNat * place + high * (place + place) = (b.toNat + 2 * high) * place := by
          ring
        have htotal : b.toNat * place + high * (place + place) < Bits.count 32 := by
          have hb := Bool.toNat_le b
          have hhigh := lt_of_readBits hrest
          have hfactor : b.toNat + 2 * high ≤ 2 * Bits.count n := by omega
          calc b.toNat * place + high * (place + place)
              = (b.toNat + 2 * high) * place := hvalue
            _ ≤ 2 * Bits.count n * place := Nat.mul_le_mul_right _ hfactor
            _ = place * (2 * Bits.count n) := Nat.mul_comm _ _
            _ < Bits.count 32 := hplace
        simp only [Except.mapError, Except.map, bind, Except.bind, pure, Except.pure,
          Word.add_eq hdouble, ih hnext, hrest, Word.add_eq htotal, hvalue]

/-- A number of less than 32 bits is read without a crash. -/
theorem readWord_eq {n : Nat} (hn : n < 32) (r : BitReader) :
    r.readWord n = (r.readBits n).mapError .refused := by
  have hplace : 1 * Bits.count n < Bits.count 32 := by
    rw [Nat.one_mul]
    exact Nat.pow_lt_pow_right (by decide) hn
  rw [readWord, Word.shiftOne_eq hn]
  refine (readPlaces_eq hplace r).trans ?_
  cases r.readBits n with
  | error e => rfl
  | ok p => simp [Except.map, Except.mapError]

end BitReader

/-! ### Tokens -/

namespace Token

/-- The next token, when codes are `width` bits wide. A unit that is written out is cut to 16 bits. -/
def readInWords (width : Nat) (r : BitReader) : Except UnpackFailure (Token × BitReader) := do
  let (code, r) ← r.readWord width
  match code with
  | 0 =>
    let (u, r) ← r.readWord 8
    let u ← Word.cut 16 u
    return (byte u, r)
  | 1 =>
    let (u, r) ← r.readWord 16
    let u ← Word.cut 16 u
    return (wide u, r)
  | 2 => return (stop, r)
  | code => return (reference code, r)

/-- A token whose code has less than 32 bits is read without a crash. -/
theorem readInWords_eq {width : Nat} (hwidth : width < 32) (r : BitReader) :
    readInWords width r = (read width r).mapError .refused := by
  have literal : ∀ {n : Nat} (make : Nat → Token) (r : BitReader), n ≤ 16 →
      (do
        let (u, r) ← r.readWord n
        let u ← Word.cut 16 u
        return (make u, r) : Except UnpackFailure (Token × BitReader)) =
      (do
        let (u, r) ← r.readBits n
        return (make u, r)).mapError .refused := by
    intro n make r hn
    rw [BitReader.readWord_eq (by omega)]
    refine mapError_bind fun p hp => ?_
    obtain ⟨u, r'⟩ := p
    have hu : u < Bits.count 16 := Nat.lt_of_lt_of_le (BitReader.lt_of_readBits hp)
      (Nat.pow_le_pow_right (by decide) hn)
    simp only [Word.cut_eq hu]
    rfl
  unfold readInWords read
  rw [BitReader.readWord_eq hwidth]
  refine mapError_bind fun p _ => ?_
  obtain ⟨code, r'⟩ := p
  match code with
  | 0 => exact literal byte r' (by decide)
  | 1 => exact literal wide r' (by decide)
  | 2 => rfl
  | code + 3 => rfl

end Token

/-! ### The decoder -/

namespace CodeWidth

theorem succ_bits_pos (w : CodeWidth) : 0 < w.bits + 1 := Nat.succ_pos _

/-- The width after one more code has been given out. -/
def nextInWords (w : CodeWidth) : Except UnpackFailure CodeWidth := do
  let left ← Word.sub w.left 1
  if left = 0 then do
    let count ← Word.shiftOne w.bits
    let _ ← Word.add w.bits 1
    return ⟨w.bits + 1, count, w.succ_bits_pos⟩
  else return ⟨w.bits, left, w.bits_pos⟩

theorem nextInWords_eq {w : CodeWidth} (hleft : 0 < w.left) (hbits : w.bits < 32) :
    w.nextInWords = .ok w.next := by
  have hsum : w.bits + 1 < Bits.count 32 := Nat.lt_of_le_of_lt hbits (by decide)
  unfold nextInWords next
  simp only [Word.sub_eq hleft, Word.shiftOne_eq hbits, Word.add_eq hsum, bind, Except.bind, pure,
    Except.pure]
  split <;> rfl

end CodeWidth

namespace Decoder

/-- How many codes have been given out. -/
def sizeInWords (d : Decoder) : Except UnpackFailure Nat := Word.cut 32 d.dictionary.size

/-- The entry that a code stands for. -/
def entryInWords (d : Decoder) (code : Nat) : Except UnpackFailure (List Nat) :=
  match d.dictionary.get? code with
  | some e => .ok e
  | none => do
    let size ← d.sizeInWords
    if code = size then do
      let u ← Word.first d.previous
      return d.previous ++ [u]
    else throw (.refused (.badReference code size))

/-- The decoder after a unit written out has been put into the dictionary. -/
def learnInWords (d : Decoder) (u : Nat) : Except UnpackFailure Decoder := do
  let width ← d.width.nextInWords
  return { d with dictionary := d.dictionary.push [u], width := width }

/-- The decoder after a token with the given entry. -/
def appendInWords (d : Decoder) (e : List Nat) : Except UnpackFailure Decoder := do
  let u ← Word.first e
  let width ← d.width.nextInWords
  return { d with
    dictionary := d.dictionary.push (d.previous ++ [u])
    width := width
    previous := e
    entries := e :: d.entries }

/-- The decoder after a token, if the text does not end with it. A unit written out is looked up
under the last code once it has been put into the dictionary. -/
def acceptInWords (d : Decoder) : Token → Except UnpackFailure (Option Decoder)
  | .byte u | .wide u => do
    let d ← d.learnInWords u
    let size ← d.sizeInWords
    let code ← Word.sub size 1
    let e ← d.entryInWords code
    let d ← d.appendInWords e
    return some d
  | .reference code => do
    let e ← d.entryInWords code
    let d ← d.appendInWords e
    return some d
  | .stop => return none

/-- All entries of a packed text, latest first, if the text ends within so many rounds. -/
def finishInWords : Nat → Decoder → Except UnpackFailure (List (List Nat))
  | 0, _ => throw .crash
  | rounds + 1, d =>
    if d.reader.exhausted then return d.entries
    else do
      let (t, r) ← Token.readInWords d.width.bits d.reader
      match ← acceptInWords { d with reader := r } t with
      | none => return d.entries
      | some d => finishInWords rounds d

variable {d d' : Decoder} {t : Token} {r : BitReader} {n : Nat}

theorem IsSafe.entryInWords_eq (h : d.IsSafe) (code : Nat) :
    d.entryInWords code = (d.entry code).mapError .refused := by
  obtain ⟨u, hu, htake⟩ := Word.exists_first h.previous
  unfold entryInWords entry sizeInWords
  cases d.dictionary.get? code with
  | some e => rfl
  | none =>
    simp only [Word.cut_eq h.size, hu, htake, bind, Except.bind]
    split <;> rfl

theorem IsSafe.learnInWords_eq (h : d.IsSafe) (u : Nat) : d.learnInWords u = .ok (d.learn u) := by
  rw [learnInWords, CodeWidth.nextInWords_eq h.left h.bits]
  rfl

theorem IsSafe.appendInWords_eq {e : List Nat} (h : d.IsSafe) (he : e ≠ []) :
    d.appendInWords e = .ok (d.append e) := by
  obtain ⟨u, hu, htake⟩ := Word.exists_first he
  rw [appendInWords, hu, CodeWidth.nextInWords_eq h.left h.bits, append, htake]
  rfl

/-- A token is accepted without a crash, unless the dictionary gets too large. -/
theorem Regular.acceptInWords_eq (h : d.Regular) (ht : ∀ code, t = .reference code → 3 ≤ code)
    (hsize : d.dictionary.size + t.growth ≤ Bits.count 31) :
    d.acceptInWords t = (d.accept t).mapError .refused := by
  have hgrowth : 1 ≤ t.growth := Nat.le_add_left _ _
  have hsafe : d.IsSafe := h.isSafe (by omega)
  cases t with
  | byte u | wide u =>
    -- one code for the unit itself, and another one for the units before it with it
    have hlearned : (d.learn u).IsSafe := by
      refine (Regular.learn h u).isSafe ?_
      rw [size_learn]
      exact hsize
    have hcut : d.dictionary.size + 1 < Bits.count 32 := size_learn d u ▸ hlearned.size
    have hlast : (d.learn u).entry d.dictionary.size = .ok [u] := by
      rw [entry, Decoder.learn, Dictionary.get?_push, if_pos rfl]
    simp only [acceptInWords, hsafe.learnInWords_eq, sizeInWords, size_learn, Word.cut_eq hcut,
      Word.sub_eq (Nat.le_add_left 1 _), Nat.add_sub_cancel, bind, Except.bind,
      hlearned.entryInWords_eq, hlast, Except.mapError,
      hlearned.appendInWords_eq (List.cons_ne_nil u [])]
    rfl
  | reference code =>
    rw [acceptInWords, hsafe.entryInWords_eq]
    refine mapError_bind fun e he => ?_
    rw [hsafe.appendInWords_eq (h.entry_ne_nil (ht code rfl) he)]
    rfl
  | stop => rfl

/-! ### The loop -/

theorem Regular.three_le_bits (h : d.Regular) : 3 ≤ d.width.bits :=
  h.suits.bits ▸ three_le_codeWidth h.size

/-- A round takes at least three of the bits that are left, or all of them. -/
theorem Regular.bitsLeft_read (h : d.Regular)
    (hread : Token.read d.width.bits d.reader = .ok (t, r)) :
    r.bitsLeft ≤ d.reader.bitsLeft - 3 :=
  Nat.le_trans (Token.bitsLeft_read hread) (Nat.sub_le_sub_left h.three_le_bits _)

theorem Paid.isSafe (h : d.Paid n) (hn : n + 6 < 3 * Bits.count 31) : d.IsSafe := by
  have hbound := h.bound
  exact h.regular.isSafe (by omega)

/-- The loop ends without a crash, after a round for every three bits that are left. -/
theorem Paid.finishInWords_eq {rounds : Nat} (h : d.Paid n) (hn : n + 6 < 3 * Bits.count 31)
    (hrounds : d.reader.bitsLeft + 3 ≤ 3 * rounds) :
    d.finishInWords rounds = d.finish.mapError .refused := by
  induction rounds generalizing d with
  | zero => omega
  | succ rounds ih =>
    unfold finishInWords
    cases hmore : d.reader.exhausted with
    | true =>
      rw [finish, hmore]
      rfl
    | false =>
      rw [if_neg Bool.false_ne_true, finish_round hmore,
        Token.readInWords_eq (h.isSafe hn).bits]
      refine mapError_bind fun p hread => ?_
      obtain ⟨t, r⟩ := p
      have hcode : ∀ code, t = .reference code → 3 ≤ code := by
        rintro code rfl
        exact Token.three_le_of_read hread
      have hgrowth := h.growth_le hmore t
      dsimp only
      rw [(h.regular.withReader r).acceptInWords_eq hcode (by dsimp only; omega)]
      refine mapError_bind fun next haccept => ?_
      cases next with
      | none => rfl
      | some d' =>
        -- the next round finds a decoder that has been paid for, and three bits less
        have hleft : d'.reader.bitsLeft ≤ d.reader.bitsLeft - 3 := by
          rw [reader_of_accept haccept]
          exact h.regular.bitsLeft_read hread
        have hsome : d.reader.bitsLeft ≠ 0 := by
          rw [ne_eq, BitReader.bitsLeft_eq_zero_iff, hmore]
          exact Bool.false_ne_true
        exact ih (h.step hmore hread haccept) (by omega)

end Decoder

/-! ### Whole texts -/

namespace Packed

/-- The entries of a packed text, in order, if the loop ends within so many rounds. -/
def unpackEntriesInWords (rounds : Nat) (s : List Char) :
    Except UnpackFailure (List (List Nat)) :=
  if s.isEmpty then return []
  else do
    let r ← (BitReader.ofChars (restorePlus s)).mapError .refused
    let (t, r) ← Token.readInWords 2 r
    match t with
    | .byte u | .wide u => do
      let entries ← (Decoder.first r u).finishInWords rounds
      return entries.reverse
    | .reference code => throw (.refused (.badFirstCode code))
    | .stop => return []

/-- The text that a packed text stands for, if the loop ends within so many rounds. -/
def unpackInWords (rounds : Nat) (s : String) : Except UnpackFailure String := do
  let entries ← unpackEntriesInWords rounds s.toList
  return String.ofList (Text.ofUnits entries.flatten)

/-- While the text is read, the decoder is about to read a token. -/
def Meets (s : List Char) (d : Decoder) : Prop :=
  ∃ r t r' u, BitReader.ofChars (restorePlus s) = .ok r ∧ Token.readFirst r = .ok (t, r') ∧
    t.unit? = some u ∧ (Decoder.first r' u).Passes d

end Packed

/-- The width goes with the dictionary, and there is a unit wherever one is taken. -/
structure Decoder.IsTight (d : Decoder) : Prop where
  /-- The codes need all bits of the width. -/
  low : Bits.count (d.width.bits - 1) ≤ d.dictionary.size
  /-- The code that is about to be given out fits the width. -/
  high : d.dictionary.size < Bits.count d.width.bits
  /-- The width grows when its codes have been given out. -/
  left : d.width.left = Bits.count d.width.bits - d.dictionary.size
  left_pos : 1 ≤ d.width.left
  /-- No entry that can be referred to is empty. -/
  entries : ∀ code e, 3 ≤ code → d.dictionary.get? code = some e → e ≠ []
  previous : d.previous ≠ []

theorem Decoder.Regular.isTight {d : Decoder} (h : d.Regular) : d.IsTight := by
  have hbits : d.width.bits = d.dictionary.size.log2 + 1 := h.suits.bits
  have hhigh : d.dictionary.size < Bits.count d.width.bits :=
    h.suits.bits ▸ lt_count_codeWidth _
  have hleft := h.suits.left
  refine ⟨?_, hhigh, by omega, by omega, h.entries, h.previous⟩
  have hpos : d.dictionary.size ≠ 0 := by
    have hsize := h.size
    omega
  rw [hbits, Nat.add_sub_cancel]
  exact Nat.log2_self_le hpos

namespace Packed

variable {s : List Char} {d : Decoder}

theorem Meets.paid (h : Meets s d) : d.Paid (6 * s.length + 12) := by
  obtain ⟨r, t, r', u, hr, ht, -, hd⟩ := h
  exact paid_of_passes hr ht hd

/-- In a text of at most 2 ^ 29 characters, all entries that are paid for have codes of less than 32
bits: there are six bits to a character, and an entry takes three. -/
theorem bound_of_length (hlength : s.length ≤ Bits.count 29) :
    6 * s.length + 12 + 6 < 3 * Bits.count 31 := by
  have hcount : Bits.count 31 = 4 * Bits.count 29 := by decide
  have hsmall : Bits.count 29 = 536870912 := by decide
  omega

theorem readFirst_of_read {r r' : BitReader} {t : Token} {u : Nat} (ht : t.unit? = some u)
    (hread : Token.read 2 r = .ok (t, r')) : Token.readFirst r = .ok (t, r') := by
  rw [Token.readFirst, hread]
  cases t with
  | byte v | wide v => rfl
  | reference code | stop => cases ht

theorem unpackEntriesInWords_eq (hlength : s.length ≤ Bits.count 29) :
    unpackEntriesInWords (2 * s.length + 1) s = (unpackEntries s).mapError .refused := by
  unfold unpackEntriesInWords unpackEntries
  split
  · rfl
  refine mapError_bind fun r hr => ?_
  have finished : ∀ {t : Token} {r' : BitReader} {u : Nat}, Token.readFirst r = .ok (t, r') →
      (do
        let entries ← (Decoder.first r' u).finishInWords (2 * s.length + 1)
        return entries.reverse) =
      (do
        let entries ← (Decoder.first r' u).finish
        return entries.reverse : Except UnpackError _).mapError .refused := by
    intro t r' u hfirst
    have hpaid := paid_of_passes hr hfirst (u := u) .here
    have hbits := bitsLeft_of_readFirst hr hfirst
    rw [hpaid.finishInWords_eq (bound_of_length hlength) (by change r'.bitsLeft + 3 ≤ _; omega)]
    exact mapError_bind fun _ _ => rfl
  rw [Token.readInWords_eq (by decide)]
  cases hread : Token.read 2 r with
  | error e => simp only [Token.readFirst, hread]; rfl
  | ok p =>
    obtain ⟨t, r'⟩ := p
    cases t with
    | byte u | wide u =>
      have hfirst := readFirst_of_read rfl hread
      rw [hfirst]
      exact finished hfirst
    | reference code | stop => simp only [Token.readFirst, hread]; rfl

/-- Texts of at most 2 ^ 29 characters are unpacked without a crash, within two rounds for a
character. Whenever a token is to be read, the width goes with the dictionary, a code takes three
bits at least and less than 32, and reading the token takes three bits or all that are left. -/
theorem unpackInWords_eq {s : String} (hlength : s.length ≤ Bits.count 29) :
    unpackInWords (2 * s.length + 1) s = (unpack s).mapError .refused ∧
      ∀ d, Meets s.toList d → d.IsTight ∧ (3 ≤ d.width.bits ∧ d.width.bits < 32) ∧
        ∀ t r, d.reader.exhausted = false → Token.read d.width.bits d.reader = .ok (t, r) →
          r.bitsLeft < d.reader.bitsLeft ∧ r.bitsLeft ≤ d.reader.bitsLeft - 3 := by
  have hchars : s.toList.length ≤ Bits.count 29 := String.length_toList ▸ hlength
  refine ⟨?_, fun d hd => ?_⟩
  · rw [unpackInWords, unpack, ← String.length_toList, unpackEntriesInWords_eq hchars]
    exact mapError_bind fun _ _ => rfl
  · have hpaid := hd.paid
    refine ⟨hpaid.regular.isTight, ⟨hpaid.regular.three_le_bits,
      (hpaid.isSafe (bound_of_length hchars)).bits⟩, fun t r hmore hread => ?_⟩
    have hthree := hpaid.regular.bitsLeft_read hread
    have hsome : d.reader.bitsLeft ≠ 0 := by
      rw [ne_eq, BitReader.bitsLeft_eq_zero_iff, hmore]
      exact Bool.false_ne_true
    exact ⟨by omega, hthree⟩

/-- A text with a reference to a code that has not been given out: it is refused, and the decoder
has met the invariant up to there. -/
theorem unpackInWords_hostile : "IY8".length ≤ Bits.count 29 ∧
    unpackInWords 7 "IY8" = .error (.refused (.badReference 7 5)) ∧
    ∃ d, Meets "IY8".toList d ∧ d.IsTight ∧ (3 ≤ d.width.bits ∧ d.width.bits < 32) ∧
      ∀ t r, d.reader.exhausted = false → Token.read d.width.bits d.reader = .ok (t, r) →
        r.bitsLeft < d.reader.bitsLeft ∧ r.bitsLeft ≤ d.reader.bitsLeft - 3 := by
  have hlength : "IY8".length ≤ Bits.count 29 := by decide +kernel
  have hrefused : unpack "IY8" = .error (.badReference 7 5) := by decide +kernel
  obtain ⟨hsame, htight⟩ := unpackInWords_eq hlength
  obtain ⟨r, hr⟩ : ∃ r, BitReader.ofChars (restorePlus "IY8".toList) = .ok r := ⟨_, rfl⟩
  obtain ⟨t, r', u, hfirst, hu⟩ : ∃ t r' u, Token.readFirst r = .ok (t, r') ∧
      t.unit? = some u := by
    cases hr
    exact ⟨.byte 97, _, 97, rfl, rfl⟩
  refine ⟨hlength, hsame.trans (by rw [hrefused]; rfl), _, ⟨r, t, r', u, hr, hfirst, hu, .here⟩, ?_⟩
  exact htight _ ⟨r, t, r', u, hr, hfirst, hu, .here⟩

end Packed

end Harvest
