import Harvest.Number.Binary
import Harvest.Packed.BitReader
import Mathlib.Data.List.Basic

/-!
# Packed text as a list of bits

A reader is seen as the list of the bits that are still to come, and reading takes bits from the
front of it. Numbers are read with their lowest bit first, whereas a character stands for its six
bits with the highest first.

## Main definitions

* `Packed.lowBits`, `Packed.highBits` — the bits of a number in both orders
* `Packed.write` — the characters that stand for a list of bits
* `BitReader.pending` — the bits to come

## Main results

* `BitReader.readBits_of_pending` — reading a number takes its bits from the front
* `BitReader.exists_ofChars` — the bits of a text that has been written come first
-/

namespace Harvest

namespace Packed

/-- The lowest bits of a number, the lowest one first. -/
def lowBits : Nat → Nat → List Bool
  | 0, _ => []
  | n + 1, x => x.testBit 0 :: lowBits n (x / 2)

/-- The lowest bits of a number, the lowest one last. -/
def highBits : Nat → Nat → List Bool
  | 0, _ => []
  | n + 1, x => x.testBit n :: highBits n x

/-- The number with the given bits, the lowest one last. -/
def ofHighBits : List Bool → Nat
  | [] => 0
  | b :: bs => Bits.count bs.length * b.toNat + ofHighBits bs

@[simp] theorem length_lowBits (n x : Nat) : (lowBits n x).length = n := by
  induction n generalizing x with
  | zero => rfl
  | succ n ih => simp [lowBits, ih]

theorem ofHighBits_lt (bs : List Bool) : ofHighBits bs < Bits.count bs.length := by
  induction bs with
  | nil => exact Nat.one_pos
  | cons b bs ih =>
    have hb : b.toNat ≤ 1 := Bool.toNat_le b
    have hmul : Bits.count bs.length * b.toNat ≤ Bits.count bs.length * 1 :=
      Nat.mul_le_mul_left _ hb
    rw [ofHighBits, List.length_cons, Bits.count_succ]
    omega

/-- Below its highest bits, a number has the bits of the rest. -/
theorem testBit_count_mul_add {n x : Nat} (b : Bool) (hx : x < Bits.count n) (i : Nat) :
    (Bits.count n * b.toNat + x).testBit i =
      if i < n then x.testBit i else b.toNat.testBit (i - n) :=
  Nat.testBit_two_pow_mul_add b.toNat hx i

theorem highBits_congr {n x y : Nat} (h : ∀ i < n, x.testBit i = y.testBit i) :
    highBits n x = highBits n y := by
  induction n with
  | zero => rfl
  | succ n ih =>
    have htail : highBits n x = highBits n y := ih fun i hi => h i (Nat.lt_succ_of_lt hi)
    rw [highBits, highBits, h n (Nat.lt_succ_self n), htail]

/-- The bits of a number that is made of bits. -/
theorem highBits_ofHighBits (bs : List Bool) : highBits bs.length (ofHighBits bs) = bs := by
  induction bs with
  | nil => rfl
  | cons b bs ih =>
    have hlt := ofHighBits_lt bs
    -- the first bit is the highest one, and below it the number is that of the others
    have htop : (ofHighBits (b :: bs)).testBit bs.length = b := by
      rw [ofHighBits, testBit_count_mul_add b hlt, if_neg (Nat.lt_irrefl _)]
      cases b <;> simp
    have hlow : highBits bs.length (ofHighBits (b :: bs)) = highBits bs.length (ofHighBits bs) := by
      refine highBits_congr fun i hi => ?_
      rw [ofHighBits, testBit_count_mul_add b hlt, if_pos hi]
    rw [List.length_cons, highBits, htop, hlow, ih]

/-! ### Characters -/

/-- The character with a number. -/
def letter (n : Nat) : Char := alphabet.getD n '$'

theorem number?_letter {n : Nat} (h : n < 64) : number? (letter n) = some n := by
  have hall : ∀ n < 64, number? (letter n) = some n := by decide +kernel
  exact hall n h

/-- The bits that a character stands for. -/
def charBits (c : Char) : List Bool := highBits 6 ((number? c).getD 0)

/-- The characters that stand for a list of bits, six bits each; what does not fill a character is
left out. -/
def write : List Bool → List Char
  | a :: b :: c :: d :: e :: f :: bs => letter (ofHighBits [a, b, c, d, e, f]) :: write bs
  | _ => []

theorem charBits_letter {bs : List Bool} (h : bs.length = 6) :
    charBits (letter (ofHighBits bs)) = bs := by
  have hlt : ofHighBits bs < 64 := by
    have := ofHighBits_lt bs
    rwa [h] at this
  rw [charBits, number?_letter hlt, Option.getD_some]
  have hbits := highBits_ofHighBits bs
  rwa [h] at hbits

theorem length_lt_six {bs : List Bool}
    (h : ∀ a b c d e f rest, bs = a :: b :: c :: d :: e :: f :: rest → False) : bs.length < 6 := by
  match bs, h with
  | [], _ | [_], _ | [_, _], _ | [_, _, _], _ | [_, _, _, _], _ | [_, _, _, _, _], _ => simp
  | a :: b :: c :: d :: e :: f :: rest, h => exact (h a b c d e f rest rfl).elim

/-- A text that has been written stands for its bits, if they fill all its characters. -/
theorem flatMap_write {bs : List Bool} (h : 6 ∣ bs.length) : (write bs).flatMap charBits = bs := by
  induction bs using write.induct with
  | case1 a b c d e f bs ih =>
    have hlen : 6 ∣ bs.length := by
      simp only [List.length_cons] at h
      omega
    rw [write, List.flatMap_cons, charBits_letter rfl, ih hlen]
    rfl
  | case2 bs hshort =>
    have hlt := length_lt_six hshort
    obtain rfl : bs = [] := List.length_eq_zero_iff.mp (by omega)
    rfl

theorem length_write (bs : List Bool) : (write bs).length = bs.length / 6 := by
  induction bs using write.induct with
  | case1 a b c d e f bs ih =>
    rw [write, List.length_cons, ih]
    simp only [List.length_cons]
    omega
  | case2 bs hshort =>
    rw [write, Nat.div_eq_of_lt (length_lt_six hshort)]
    · rfl
    · exact hshort

theorem isSome_number?_of_mem_write {bs : List Bool} {c : Char} (h : c ∈ write bs) :
    (number? c).isSome := by
  induction bs using write.induct with
  | case1 a b c d e f bs ih =>
    rw [write, List.mem_cons] at h
    rcases h with rfl | h
    · rw [number?_letter (ofHighBits_lt _)]
      rfl
    · exact ih h
  | case2 bs hshort => simp [write] at h

end Packed

namespace BitReader

open Packed

variable {r : BitReader}

/-- The bits to come. -/
def pending (r : BitReader) : List Bool :=
  if r.exhausted then [] else highBits (r.bit + 1) r.present ++ r.rest.flatMap charBits

/-- All characters to come belong to the alphabet. -/
def Readable (r : BitReader) : Prop := ∀ c ∈ r.rest, (number? c).isSome

theorem exhausted_eq_false {bs : List Bool} (hr : r.pending = bs) (hbs : bs ≠ []) :
    r.exhausted = false := by
  cases he : r.exhausted with
  | false => rfl
  | true =>
    rw [pending, if_pos he] at hr
    exact absurd hr.symm hbs

/-- Moving on to the next character takes no bit. -/
theorem exists_advance (hreadable : r.Readable) (he : r.exhausted = false) :
    ∃ r', r.advance = .ok r' ∧ r'.pending = r.rest.flatMap charBits ∧ r'.Readable := by
  obtain ⟨present, bit, rest, offset, exhausted⟩ := r
  simp only at he
  subst he
  cases rest with
  | nil =>
    refine ⟨_, rfl, rfl, ?_⟩
    intro c hc
    cases hc
  | cons c rest =>
    obtain ⟨n, hn⟩ := Option.isSome_iff_exists.mp (hreadable c (List.mem_cons_self ..))
    refine ⟨⟨n, 5, rest, offset + 1, false⟩, ?_, ?_, fun c hc => hreadable c (List.mem_cons_of_mem _ hc)⟩
    · simp only [advance, load, hn, bind, Except.bind, pure, Except.pure]
    · simp [pending, charBits, hn]

/-- The next bit is the first one to come. -/
theorem readBit_of_pending {b : Bool} {bs : List Bool} (hreadable : r.Readable)
    (hr : r.pending = b :: bs) :
    ∃ r', r.readBit = .ok (b, r') ∧ r'.pending = bs ∧ r'.Readable := by
  have he := exhausted_eq_false hr (List.cons_ne_nil b bs)
  rw [pending, he, if_neg Bool.false_ne_true, highBits, List.cons_append, List.cons.injEq] at hr
  obtain ⟨hb, hbs⟩ := hr
  unfold readBit
  by_cases hbit : r.bit = 0
  · -- the last bit of a character: the next character is loaded at once
    obtain ⟨r', hadvance, hpending, hreadable'⟩ := exists_advance hreadable he
    refine ⟨r', ?_, ?_, hreadable'⟩
    · simp only [hbit, if_true, hadvance, bind, Except.bind, pure, Except.pure]
      rw [← hb, hbit]
    · rw [hpending, ← hbs, hbit]
      rfl
  · refine ⟨{ r with bit := r.bit - 1 }, ?_, ?_, hreadable⟩
    · rw [if_neg hbit, hb]
    · obtain ⟨k, hk⟩ := Nat.exists_eq_succ_of_ne_zero hbit
      rw [← hbs, pending]
      simp only [he, hk, Nat.succ_eq_add_one, Nat.add_sub_cancel]
      rfl

/-- A number whose bits come first is read, and its bits are taken. -/
theorem readBits_of_pending {n x : Nat} {bs : List Bool} (hreadable : r.Readable) (hx : x < Bits.count n)
    (hr : r.pending = lowBits n x ++ bs) :
    ∃ r', r.readBits n = .ok (x, r') ∧ r'.pending = bs ∧ r'.Readable := by
  induction n generalizing r x with
  | zero =>
    obtain rfl : x = 0 := Nat.lt_one_iff.mp hx
    exact ⟨r, rfl, hr, hreadable⟩
  | succ n ih =>
    rw [lowBits, List.cons_append] at hr
    obtain ⟨r₁, hbit, hr₁, hreadable₁⟩ := readBit_of_pending hreadable hr
    have hhalf : x / 2 < Bits.count n := by
      rw [Bits.count_succ] at hx
      omega
    obtain ⟨r₂, hrest, hr₂, hreadable₂⟩ := ih hreadable₁ hhalf hr₁
    refine ⟨r₂, ?_, hr₂, hreadable₂⟩
    -- the bit that is read first is the lowest, and the others are those of half the number
    have hsplit : (x.testBit 0).toNat + 2 * (x / 2) = x := by
      rw [Nat.testBit_zero]
      rcases Nat.mod_two_eq_zero_or_one x with h | h
      · simp [h]
        omega
      · simp [h]
        omega
    simp only [readBits, hbit, hrest, bind, Except.bind, pure, Except.pure, hsplit]

/-- A reader on a text whose characters belong to the alphabet has all bits of the text to come. -/
theorem exists_ofChars {s : List Char} (hs : s ≠ []) (h : ∀ c ∈ s, (number? c).isSome) :
    ∃ r, ofChars s = .ok r ∧ r.pending = s.flatMap charBits ∧ r.Readable := by
  cases s with
  | nil => exact absurd rfl hs
  | cons c rest =>
    obtain ⟨n, hn⟩ := Option.isSome_iff_exists.mp (h c (List.mem_cons_self ..))
    refine ⟨⟨n, 5, rest, 1, false⟩, ?_, ?_, fun c hc => h c (List.mem_cons_of_mem _ hc)⟩
    · simp only [ofChars, load, hn, bind, Except.bind, pure, Except.pure]
    · simp [pending, charBits, hn]

end BitReader

end Harvest
