import Harvest.Proofs.Packed.Faults
import Harvest.Proofs.Packed.Truncation
import Harvest.Proofs.Packed.Words

/-!
# Readers and the bits of a text

A text stands for the bits of its characters, and for zeros without end behind them. Whatever
numbers of bits are asked for, a reader gives these bits in order: what it gives next depends on how
many bits it has taken, and not on how they were asked for. It stops only at a character outside the
alphabet, and it does so with the last bit before that character.

## Main definitions

* `Packed.bitAt`, `Packed.numberAt`, `Packed.numbersAt` — the bits of a text, and the numbers that
  are made of them
* `BitReader.readAll` — one number after the other
* `BitReader.HasTaken` — a reader has taken so many bits of a text
* `BitReader.Yields` — a number is read, or a fault is met

## Main results

* `BitReader.HasTaken.readBits`, `BitReader.HasTaken.readAll` — what a reader gives next
* `BitReader.readBits_add` — bits may be asked for in portions
* `BitReader.readAll_spec` — readers give the bits of their text
-/

namespace Harvest

open Packed

/-! ### The bits of a text -/

namespace Packed

/-- A bit of a text. Behind the last character, there are zeros without end. -/
def bitAt (s : List Char) (k : Nat) : Bool := (s.flatMap charBits).getD k false

theorem bitAt_eq_headD (s : List Char) (k : Nat) :
    bitAt s k = ((s.flatMap charBits).drop k).headD false := by
  rw [bitAt, List.getD_eq_getElem?_getD, ← List.head?_drop, List.headD_eq_head?_getD]

/-- The number made of the `n` bits of a text behind the first `k` ones, the lowest first. -/
def numberAt (s : List Char) (k n : Nat) : Nat := Nat.ofBits fun i : Fin n => bitAt s (k + i)

/-- The numbers made of so many bits of a text, one after the other, behind the first `k` ones. -/
def numbersAt (s : List Char) : Nat → List Nat → List Nat
  | _, [] => []
  | k, n :: ns => numberAt s k n :: numbersAt s (k + n) ns

variable {s : List Char} {c c' : Char} {j j' k n : Nat}

/-- The first bit of a number is the lowest one. -/
theorem numberAt_succ (s : List Char) (k n : Nat) :
    numberAt s k (n + 1) = (bitAt s k).toNat + 2 * numberAt s (k + 1) n := by
  have hrest : (fun i : Fin (n + 1) => bitAt s (k + i)) ∘ Fin.succ =
      fun i : Fin n => bitAt s (k + 1 + i) := by
    funext i
    rw [Function.comp_apply, Fin.val_succ, Nat.add_right_comm, Nat.add_assoc]
  rw [numberAt, Nat.ofBits_succ, hrest, Nat.add_comm]
  rfl

example : charBits '$' = List.replicate 6 false := by decide

/-- A character outside the alphabet is none of those before the first fault. -/
theorem FirstFault.le_of_get (h : FirstFault s c j) (hget : s[k]? = some c') (hc' : c' ∉ alphabet) :
    j ≤ k := by
  by_contra hlt
  apply hc'
  apply h.before
  exact List.mem_of_getElem? ((List.getElem?_take_of_lt (Nat.lt_of_not_le hlt)).trans hget)

/-- There is only one first fault. -/
theorem FirstFault.unique (h : FirstFault s c j) (h' : FirstFault s c' j') : c = c' ∧ j = j' := by
  obtain rfl : j = j' :=
    Nat.le_antisymm (h.le_of_get h'.get h'.notMem) (h'.le_of_get h.get h.notMem)
  exact ⟨Option.some.inj (h.get.symm.trans h'.get), rfl⟩

end Packed

namespace BitReader

/-! ### Readers on their way -/

/-- The reader has taken `k` bits of the text. -/
structure HasTaken (s : List Char) (k : Nat) (r : BitReader) : Prop where
  isAt : r.IsAt s
  /-- The next character to load begins behind the bits of the present one. -/
  place : 6 * r.offset = k + r.bit + 1
  /-- The other bits of the text are to come. -/
  pending : r.pending = (s.flatMap charBits).drop k
  left : r.bitsLeft = 6 * s.length - k
  /-- Behind the last character, only zeros come. -/
  spent : r.exhausted = true → r.Spent

/-- How it ends when `n` bits are asked for behind the first `k` bits of a text. -/
inductive Yields (s : List Char) (k n : Nat) : Except UnpackError (Nat × BitReader) → Prop
  /-- The bits are those of the text. -/
  | taken {r : BitReader} (h : r.HasTaken s (k + n)) : Yields s k n (.ok (numberAt s k n, r))
  /-- The first fault comes right behind one of them. -/
  | refused {c : Char} {j : Nat} (hfault : FirstFault s c j) (hbefore : k < 6 * j)
      (hwithin : 6 * j ≤ k + n) : Yields s k n (.error (.badCharacter c j))

variable {s : List Char} {c : Char} {j k n m x : Nat} {b : Bool} {e : UnpackError}
  {ns xs : List Nat} {r r' : BitReader}

theorem HasTaken.exhausted_iff (h : r.HasTaken s k) : r.exhausted = true ↔ 6 * s.length ≤ k := by
  rw [← bitsLeft_eq_zero_iff, h.left, Nat.sub_eq_zero_iff_le]

/-- The fault is still to come. -/
theorem HasTaken.lt_of_firstFault (h : r.HasTaken s k) (hfault : FirstFault s c j) : k < 6 * j := by
  have hloaded : r.offset ≤ j := by
    by_contra hlt
    apply hfault.notMem
    apply h.isAt.loaded
    exact List.mem_of_getElem?
      ((List.getElem?_take_of_lt (Nat.lt_of_not_le hlt)).trans hfault.get)
  have hplace := h.place
  omega

/-! ### Bit by bit -/

theorem place_of_readBit (h : r.readBit = .ok (b, r')) :
    6 * r'.offset + r.bit = 6 * r.offset + r'.bit + 1 := by
  obtain ⟨present, bit, rest, offset, exhausted⟩ := r
  cases bit with
  | succ bit =>
    cases h
    rfl
  | zero =>
    cases rest with
    | nil =>
      cases h
      rfl
    | cons c rest =>
      simp only [readBit, advance, load, if_true] at h
      cases hn : number? c with
      | none => rw [hn] at h; cases h
      | some n =>
        rw [hn] at h
        cases h
        rfl

/-- The next bit is the first one to come. -/
theorem pending_of_readBit (hmore : r.exhausted = false) (h : r.readBit = .ok (b, r')) :
    r.pending = b :: r'.pending ∧ (r'.exhausted = true → r'.Spent) := by
  obtain ⟨present, bit, rest, offset, exhausted⟩ := r
  obtain rfl : exhausted = false := hmore
  cases bit with
  | succ bit =>
    cases h
    exact ⟨rfl, fun hspent => absurd hspent Bool.false_ne_true⟩
  | zero =>
    cases rest with
    | nil =>
      cases h
      exact ⟨rfl, fun _ => .mk 5 (offset + 1)⟩
    | cons c rest =>
      simp only [readBit, advance, load, if_true] at h
      cases hn : number? c with
      | none => rw [hn] at h; cases h
      | some n =>
        rw [hn] at h
        cases h
        refine ⟨?_, fun hspent => absurd hspent Bool.false_ne_true⟩
        simp only [pending, List.flatMap_cons, charBits, hn, Option.getD_some]
        rfl

/-- A reader refuses only the character that it loads. -/
theorem place_of_readBit_error (h : r.readBit = .error e) :
    r.bit = 0 ∧ ∃ c, e = .badCharacter c r.offset := by
  obtain ⟨present, bit, rest, offset, exhausted⟩ := r
  cases bit with
  | succ bit => cases h
  | zero =>
    cases rest with
    | nil => cases h
    | cons c rest =>
      simp only [readBit, advance, load, if_true] at h
      cases hn : number? c with
      | none =>
        rw [hn] at h
        cases h
        exact ⟨rfl, c, rfl⟩
      | some n => rw [hn] at h; cases h

/-- The bit that is read is the next one of the text. -/
theorem HasTaken.bit_of_readBit (h : r.HasTaken s k) (hread : r.readBit = .ok (b, r')) :
    b = bitAt s k ∧ r'.pending = (s.flatMap charBits).drop (k + 1) ∧
      (r'.exhausted = true → r'.Spent) := by
  rw [bitAt_eq_headD, ← List.tail_drop, ← h.pending]
  cases hmore : r.exhausted with
  | false =>
    obtain ⟨hpending, hspent⟩ := pending_of_readBit hmore hread
    rw [hpending]
    exact ⟨rfl, rfl, hspent⟩
  | true =>
    -- zeros come, and they are none of the bits to come
    obtain ⟨r₁, hzero, hspent⟩ := (h.spent hmore).readBit
    cases hread.symm.trans hzero
    rw [BitReader.pending, if_pos hmore, BitReader.pending, if_pos hspent.exhausted]
    exact ⟨rfl, rfl, fun _ => hspent⟩

/-- The next bit of the text is read, or the fault behind it is met. -/
theorem HasTaken.readBit (h : r.HasTaken s k) :
    (∃ r', r.readBit = .ok (bitAt s k, r') ∧ r'.HasTaken s (k + 1)) ∨
      ∃ c j, r.readBit = .error (.badCharacter c j) ∧ FirstFault s c j ∧ 6 * j = k + 1 := by
  have hlocates := h.isAt.readBit
  cases hread : r.readBit with
  | error e =>
    rw [hread] at hlocates
    obtain ⟨hbit, c, rfl⟩ := place_of_readBit_error hread
    obtain ⟨c', offset, heq, hfault⟩ := hlocates
    cases heq
    have hplace := h.place
    exact .inr ⟨c, r.offset, rfl, hfault, by omega⟩
  | ok p =>
    obtain ⟨b, r'⟩ := p
    rw [hread] at hlocates
    have hplace : 6 * r'.offset = k + 1 + r'.bit + 1 := by
      have hbefore := h.place
      have hstep := place_of_readBit hread
      omega
    have hleft : r'.bitsLeft = 6 * s.length - (k + 1) := by
      rw [bitsLeft_readBit hread, h.left, Nat.sub_sub]
    obtain ⟨rfl, hpending, hspent⟩ := h.bit_of_readBit hread
    exact .inl ⟨r', rfl, hlocates, hplace, hpending, hleft, hspent⟩

/-! ### Numbers -/

/-- The next bits of the text are read, or the fault behind one of them is met. -/
theorem HasTaken.readBits (h : r.HasTaken s k) (n : Nat) : Yields s k n (r.readBits n) := by
  induction n generalizing k r with
  | zero => exact .taken h
  | succ n ih =>
    rcases h.readBit with ⟨r₁, hbit, h₁⟩ | ⟨c, j, hbit, hfault, hplace⟩
    · -- the bit is the lowest one of the number, and the others make the rest of it
      have hsum : k + 1 + n = k + (n + 1) := by omega
      have hrest := ih h₁
      simp only [BitReader.readBits, hbit, bind, Except.bind]
      generalize r₁.readBits n = res at hrest
      cases hrest with
      | taken h₂ =>
        rw [hsum] at h₂
        have htaken := Yields.taken h₂
        rwa [numberAt_succ] at htaken
      | refused hfault hbefore hwithin =>
        apply Yields.refused hfault
        · exact Nat.lt_of_succ_lt hbefore
        · rwa [← hsum]
    · simp only [BitReader.readBits, hbit, bind, Except.bind]
      apply Yields.refused hfault
      · omega
      · omega

/-- Numbers are refused exactly if the first fault comes right behind one of their bits. -/
theorem HasTaken.readBits_eq_error_iff (h : r.HasTaken s k) (n : Nat) : r.readBits n = .error e ↔
    ∃ c j, FirstFault s c j ∧ 6 * j ≤ k + n ∧ e = .badCharacter c j := by
  have hyields := h.readBits n
  generalize r.readBits n = res at hyields
  cases hyields with
  | taken h' =>
    constructor
    · exact nofun
    · rintro ⟨c, j, hfault, hwithin, -⟩
      exact absurd (h'.lt_of_firstFault hfault) (Nat.not_lt_of_le hwithin)
  | @refused c j hfault hbefore hwithin =>
    constructor
    · intro heq
      cases heq
      exact ⟨c, j, hfault, hwithin, rfl⟩
    · rintro ⟨c', j', hfault', -, rfl⟩
      obtain ⟨rfl, rfl⟩ := hfault.unique hfault'
      rfl

/-- The numbers of so many bits each that come one after the other. -/
def readAll : List Nat → BitReader → Except UnpackError (List Nat × BitReader)
  | [], r => .ok ([], r)
  | n :: ns, r => do
    let (x, r) ← r.readBits n
    let (xs, r) ← readAll ns r
    return (x :: xs, r)

theorem readAll_cons_ok (h : r.readAll (n :: ns) = .ok (xs, r')) :
    ∃ x r₁ xs', r.readBits n = .ok (x, r₁) ∧ r₁.readAll ns = .ok (xs', r') ∧ xs = x :: xs' := by
  unfold readAll at h
  cases hfirst : r.readBits n with
  | error e => rw [hfirst] at h; cases h
  | ok p =>
    obtain ⟨x, r₁⟩ := p
    rw [hfirst] at h
    cases hrest : r₁.readAll ns with
    | error e => simp only [bind, Except.bind, hrest] at h; cases h
    | ok q =>
      obtain ⟨xs', r₂⟩ := q
      simp only [bind, Except.bind, hrest] at h
      cases h
      exact ⟨x, r₁, xs', rfl, hrest, rfl⟩

/-- As long as no number is refused, the numbers are those of the text. -/
theorem HasTaken.readAll (h : r.HasTaken s k) (hread : r.readAll ns = .ok (xs, r')) :
    xs = numbersAt s k ns ∧ r'.HasTaken s (k + ns.sum) := by
  induction ns generalizing k r xs with
  | nil =>
    cases hread
    exact ⟨rfl, h⟩
  | cons n ns ih =>
    obtain ⟨x, r₁, xs', hfirst, hrest, rfl⟩ := readAll_cons_ok hread
    have hyields := h.readBits n
    rw [hfirst] at hyields
    cases hyields with
    | taken h₁ =>
      obtain ⟨rfl, h'⟩ := ih h₁ hrest
      rw [List.sum_cons, ← Nat.add_assoc]
      exact ⟨rfl, h'⟩

/-! ### Whole texts -/

/-- There is a reader exactly if the first character is not a fault. -/
theorem ofChars_cons_cases (c : Char) (s : List Char) :
    (∃ n, number? c = some n ∧ ofChars (c :: s) = .ok ⟨n, 5, s, 1, false⟩) ∨
      (c ∉ alphabet ∧ ofChars (c :: s) = .error (.badCharacter c 0)) := by
  cases hn : number? c with
  | some n =>
    refine .inl ⟨n, rfl, ?_⟩
    simp only [ofChars, load, hn]
    rfl
  | none =>
    refine .inr ⟨number?_eq_none_iff.mp hn, ?_⟩
    simp only [ofChars, load, hn]
    rfl

/-- A reader on the first character has taken nothing. -/
theorem hasTaken_of_ofChars (h : ofChars s = .ok r) : r.HasTaken s 0 := by
  have hplace := locates_ofChars s
  rw [h] at hplace
  cases s with
  | nil =>
    cases h
    exact ⟨hplace, rfl, rfl, rfl, fun _ => .mk 5 1⟩
  | cons c s =>
    rcases ofChars_cons_cases c s with ⟨n, hn, hr⟩ | ⟨-, hfault⟩
    · cases hr.symm.trans h
      have hpending : pending ⟨n, 5, s, 1, false⟩ = ((c :: s).flatMap charBits).drop 0 := by
        simp only [pending, List.drop_zero, List.flatMap_cons, charBits, hn, Option.getD_some]
        rfl
      have hleft : bitsLeft ⟨n, 5, s, 1, false⟩ = 6 * (c :: s).length - 0 := by
        rw [bitsLeft, if_neg Bool.false_ne_true, List.length_cons]
        rfl
      exact ⟨hplace, rfl, hpending, hleft, fun hspent => absurd hspent Bool.false_ne_true⟩
    · cases hfault.symm.trans h

/-- There is no reader exactly if the first character is a fault. -/
theorem ofChars_eq_error_iff :
    ofChars s = .error e ↔ ∃ c, FirstFault s c 0 ∧ e = .badCharacter c 0 := by
  cases s with
  | nil =>
    constructor
    · exact nofun
    · rintro ⟨c, hfault, -⟩
      cases hfault.get
  | cons c s =>
    rcases ofChars_cons_cases c s with ⟨n, hn, hr⟩ | ⟨hc, hr⟩
    · rw [hr]
      constructor
      · exact nofun
      · rintro ⟨c', hfault, -⟩
        cases hfault.get
        exact absurd (exists_number?_iff.mp ⟨n, hn⟩) hfault.notMem
    · rw [hr]
      constructor
      · intro heq
        cases heq
        exact ⟨c, ⟨rfl, hc, nofun⟩, rfl⟩
      · rintro ⟨c', hfault, rfl⟩
        cases hfault.get
        rfl

/-- Bits may be asked for in portions. -/
theorem readBits_add (r : BitReader) (n m : Nat) : r.readBits (n + m) = (do
    let (x, r) ← r.readBits n
    let (y, r) ← r.readBits m
    return (x + Bits.count n * y, r)) := by
  induction n generalizing r with
  | zero =>
    rw [Nat.zero_add]
    simp only [readBits, bind, Except.bind, pure, Except.pure, Bits.count]
    cases r.readBits m with
    | error e => rfl
    | ok p => simp
  | succ n ih =>
    rw [Nat.succ_add]
    simp only [readBits, bind, Except.bind, pure, Except.pure]
    cases r.readBit with
    | error e => rfl
    | ok p =>
      simp only [ih, bind, Except.bind, pure, Except.pure]
      cases p.2.readBits n with
      | error e => rfl
      | ok q =>
        simp only
        cases q.2.readBits m with
        | error e => rfl
        | ok u =>
          have hvalue : p.1.toNat + 2 * (q.1 + Bits.count n * u.1) =
              p.1.toNat + 2 * q.1 + Bits.count (n + 1) * u.1 := by
            rw [Bits.count_succ]
            ring
          simp only [hvalue]

/-- Readers give the bits of their text. There is a reader unless the first character is a fault. As
long as nothing is refused, the numbers that are read are made of the bits of the text in order, and
the reader is exhausted once the bits of all characters have been read. A number is refused exactly
if it reaches the last bit before the first fault; words of 32 bits suffice for less than 32 bits.
Numbers may be read in portions. -/
theorem readAll_spec (s : List Char) :
    (∀ e, ofChars s = .error e ↔ ∃ c, FirstFault s c 0 ∧ e = .badCharacter c 0) ∧
    (∀ r₀ ns xs r, ofChars s = .ok r₀ → r₀.readAll ns = .ok (xs, r) →
      xs = numbersAt s 0 ns ∧ (r.exhausted = true ↔ 6 * s.length ≤ ns.sum) ∧
      ∀ n, (∀ e, r.readBits n = .error e ↔
          ∃ c j, FirstFault s c j ∧ 6 * j ≤ ns.sum + n ∧ e = .badCharacter c j) ∧
        (n < 32 → r.readWord n = (r.readBits n).mapError .refused)) ∧
    ∀ (r : BitReader) n m, r.readBits (n + m) = (do
      let (x, r) ← r.readBits n
      let (y, r) ← r.readBits m
      return (x + Bits.count n * y, r)) := by
  refine ⟨fun e => ofChars_eq_error_iff, ?_, readBits_add⟩
  intro r₀ ns xs r hr₀ hread
  obtain ⟨rfl, htaken⟩ := (hasTaken_of_ofChars hr₀).readAll hread
  rw [Nat.zero_add] at htaken
  refine ⟨rfl, htaken.exhausted_iff, ?_⟩
  intro n
  exact ⟨fun e => htaken.readBits_eq_error_iff n, fun hn => readWord_eq hn r⟩

/-- The first ten bits of a text with a fault behind twelve bits, and the two bits before the fault,
with which it is met. -/
theorem readAll_spec_faulty : ∃ r₀ r,
    ofChars "Aa!".toList = .ok r₀ ∧ r₀.readAll [7, 3] = .ok ([0, 3], r) ∧
      [0, 3] = numbersAt "Aa!".toList 0 [7, 3] ∧ r.exhausted = false ∧
      r.readBits 2 = .error (.badCharacter '!' 2) ∧ ∃ r', r.readBits 1 = .ok (1, r') := by
  have hfault : FirstFault "Aa!".toList '!' 2 := by
    refine ⟨rfl, by decide, fun c hc => ?_⟩
    obtain rfl | rfl : c = 'A' ∨ c = 'a' := by simpa using hc
    · decide
    · decide
  refine ⟨_, _, rfl, rfl, ?_, rfl, ?_, _, rfl⟩
  · exact ((readAll_spec "Aa!".toList).2.1 _ [7, 3] _ _ rfl rfl).1
  · exact (((readAll_spec "Aa!".toList).2.1 _ [7, 3] _ _ rfl rfl).2.2 2).1 _ |>.mpr
      ⟨'!', 2, hfault, by decide, rfl⟩

end BitReader

end Harvest
