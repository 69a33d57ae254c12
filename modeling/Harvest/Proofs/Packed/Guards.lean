import Harvest.Proofs.Packed.Unpack

/-!
# What unpacking relies on

The decoder makes numbers of as many bits as a code is wide, counts down the codes that are left
before codes get wider, and takes the first unit of an entry. All this presupposes something: that a
code takes less than 32 bits, that some code is left, and that entries are not empty. Nothing else is
ever done, whatever the text is, unless it is very long: every entry of the dictionary has cost three
bits of the text.

## Main definitions

* `Decoder.IsSafe` — what is presupposed of a decoder
* `Decoder.Passes` — the states through which a decoder passes
* `Decoder.Regular`, `Decoder.Paid` — what these states have in common
* `Packed.IsHarmless` — nothing that is presupposed fails while a text is read

## Main results

* `Decoder.Passes.finish_eq` — a decoder finishes by passing through its states
* `Decoder.Paid.step` — a token pays for the entries that it adds
* `Packed.paid_of_passes` — so all dictionaries on the way are paid for
* `Packed.isHarmless` — texts of less than 2 ^ 29 characters are harmless
-/

namespace Harvest

open Packed

/-! ### What a token takes -/

namespace Token

variable {width : Nat} {r r' : BitReader} {t : Token}

/-- A token is read in one of four ways. -/
theorem read_cases (h : read width r = .ok (t, r')) :
    ∃ code r₁, r.readBits width = .ok (code, r₁) ∧
      ((∃ u, t = .byte u ∧ r₁.readBits 8 = .ok (u, r')) ∨
        (∃ u, t = .wide u ∧ r₁.readBits 16 = .ok (u, r')) ∨
        (t = .stop ∧ r' = r₁) ∨ (3 ≤ code ∧ t = .reference code ∧ r' = r₁)) := by
  unfold read at h
  cases hcode : r.readBits width with
  | error e => simp [hcode, bind, Except.bind] at h
  | ok p =>
    obtain ⟨code, r₁⟩ := p
    refine ⟨code, r₁, rfl, ?_⟩
    simp only [hcode, bind, Except.bind] at h
    split at h
    · cases hunit : r₁.readBits 8 with
      | error e => simp [hunit] at h
      | ok q =>
        rw [hunit] at h
        cases h
        exact .inl ⟨_, rfl, rfl⟩
    · cases hunit : r₁.readBits 16 with
      | error e => simp [hunit] at h
      | ok q =>
        rw [hunit] at h
        cases h
        exact .inr (.inl ⟨_, rfl, rfl⟩)
    · cases h
      exact .inr (.inr (.inl ⟨rfl, rfl⟩))
    next h0 h1 h2 =>
      cases h
      have hcode : 3 ≤ code := by
        rcases code with _ | _ | _ | code
        · exact absurd rfl h0
        · exact absurd rfl h1
        · exact absurd rfl h2
        · omega
      exact .inr (.inr (.inr ⟨hcode, rfl, rfl⟩))

/-- A token takes its bits, as far as there are so many. -/
theorem bitsLeft_read_eq (h : read width r = .ok (t, r')) :
    r'.bitsLeft = r.bitsLeft - (t.bits width).length := by
  obtain ⟨code, r₁, hcode, hcases⟩ := read_cases h
  have hfirst := BitReader.bitsLeft_readBits hcode
  rcases hcases with ⟨u, rfl, hunit⟩ | ⟨u, rfl, hunit⟩ | ⟨rfl, rfl⟩ | ⟨-, rfl, rfl⟩
  · rw [BitReader.bitsLeft_readBits hunit, hfirst, Nat.sub_sub]
    simp [bits]
  · rw [BitReader.bitsLeft_readBits hunit, hfirst, Nat.sub_sub]
    simp [bits]
  · simp [hfirst, bits]
  · simp [hfirst, bits]

/-- A reference that is read names no reserved code. -/
theorem three_le_of_read {code : Nat} (h : read width r = .ok (.reference code, r')) :
    3 ≤ code := by
  obtain ⟨code', r₁, -, hcases⟩ := read_cases h
  rcases hcases with ⟨u, ht, -⟩ | ⟨u, ht, -⟩ | ⟨ht, -⟩ | ⟨hcode, ht, -⟩
  · cases ht
  · cases ht
  · cases ht
  · cases ht
    exact hcode

/-- The first token takes some bits as well. -/
theorem bitsLeft_readFirst_le (h : readFirst r = .ok (t, r')) : r'.bitsLeft ≤ r.bitsLeft := by
  unfold readFirst at h
  cases hread : read 2 r with
  | error e => simp [hread, bind, Except.bind] at h
  | ok p =>
    obtain ⟨t', r₁⟩ := p
    have hle := Nat.le_trans (bitsLeft_read hread) (Nat.sub_le _ _)
    cases t' with
    | reference code => simp [hread, bind, Except.bind, throw, throwThe, MonadExceptOf.throw] at h
    | byte u | wide u | stop =>
      simp only [hread, bind, Except.bind, pure, Except.pure, Except.ok.injEq, Prod.mk.injEq] at h
      rw [← h.2]
      exact hle

end Token

theorem BitReader.bitsLeft_ofChars {s : List Char} {r : BitReader} (h : ofChars s = .ok r) :
    r.bitsLeft = 6 * s.length := by
  cases s with
  | nil =>
    cases h
    rfl
  | cons ch s =>
    cases hload : load ch 0 with
    | error e => simp [ofChars, hload, bind, Except.bind] at h
    | ok n =>
      simp only [ofChars, hload, bind, Except.bind, pure, Except.pure, Except.ok.injEq] at h
      rw [← h]
      simp [bitsLeft]
      omega

/-! ### The states of a decoder -/

namespace Decoder

/-- What is presupposed of a decoder. -/
structure IsSafe (d : Decoder) : Prop where
  /-- A code takes less than 32 bits. -/
  bits : d.width.bits < 32
  /-- Some code is left before codes get wider. -/
  left : 0 < d.width.left
  /-- The number of entries has 32 bits. -/
  size : d.dictionary.size < Bits.count 32
  /-- The entry of the token before has a first unit. -/
  previous : d.previous ≠ []
  /-- So has every entry that can be referred to. -/
  entries : ∀ code e, 3 ≤ code → d.dictionary.get? code = some e → e ≠ []

/-- The states through which a decoder passes on its way to the end of the text. -/
inductive Passes (d : Decoder) : Decoder → Prop
  | here : Passes d d
  | token {d₁ d₂ : Decoder} {t : Token} {r : BitReader} (h : Passes d d₁)
      (hmore : d₁.reader.exhausted = false)
      (hread : Token.read d₁.width.bits d₁.reader = .ok (t, r))
      (haccept : accept { d₁ with reader := r } t = .ok (some d₂)) : Passes d d₂

variable {d d' : Decoder} {t : Token} {r : BitReader} {n : Nat}

/-- A decoder finishes by passing through its states. -/
theorem Passes.finish_eq (h : d.Passes d') : d.finish = d'.finish := by
  induction h with
  | here => rfl
  | token _ hmore hread haccept ih => rw [ih, Decoder.finish_eq hmore hread, haccept]

/-- The width goes with the dictionary, and no entry is empty. -/
structure Regular (d : Decoder) : Prop where
  suits : d.width.Suits d.dictionary.size
  size : 4 ≤ d.dictionary.size
  previous : d.previous ≠ []
  entries : ∀ code e, 3 ≤ code → d.dictionary.get? code = some e → e ≠ []

theorem regular_first (r : BitReader) (u : Nat) : (first r u).Regular where
  suits := CodeWidth.suits_start
  size := Nat.le_refl 4
  previous := List.cons_ne_nil _ _
  entries code e hcode he := by
    rw [first, Dictionary.get?_push] at he
    split at he
    · cases he
      exact List.cons_ne_nil _ _
    · -- no other code is given out yet
      have hlt : ¬ Dictionary.start.size ≤ code :=
        fun hle => by rw [(Dictionary.get?_eq_none_iff _ _).mpr hle] at he; cases he
      exact absurd hcode hlt

/-- A decoder with a dictionary that is not too large is safe. -/
theorem Regular.isSafe (h : d.Regular) (hsize : d.dictionary.size < Bits.count 31) :
    d.IsSafe where
  bits := by
    have hlog : d.dictionary.size.log2 < 31 :=
      (Nat.log2_lt (by have := h.size; omega)).mpr hsize
    rw [h.suits.bits, codeWidth]
    omega
  left := by
    have hlt : d.dictionary.size < Bits.count d.width.bits :=
      h.suits.bits ▸ lt_count_codeWidth _
    have hsum := h.suits.left
    omega
  size := Nat.lt_trans hsize (by decide)
  previous := h.previous
  entries := h.entries

/-- The dictionary may get another entry that is not empty. -/
theorem Regular.push {e : List Nat} (h : d.Regular) (he : e ≠ []) :
    Regular { d with dictionary := d.dictionary.push e, width := d.width.next } where
  suits := by
    rw [Dictionary.size_push]
    exact h.suits.next (by have := h.size; omega)
  size := by
    rw [Dictionary.size_push]
    exact Nat.le_succ_of_le h.size
  previous := h.previous
  entries code e' hcode he' := by
    rw [Dictionary.get?_push] at he'
    split at he'
    · cases he'
      exact he
    · exact h.entries code e' hcode he'

theorem size_learn (d : Decoder) (u : Nat) :
    (d.learn u).dictionary.size = d.dictionary.size + 1 :=
  Dictionary.size_push _ _

theorem size_append (d : Decoder) (e : List Nat) :
    (d.append e).dictionary.size = d.dictionary.size + 1 :=
  Dictionary.size_push _ _

theorem Regular.learn (h : d.Regular) (u : Nat) : (d.learn u).Regular :=
  h.push (List.cons_ne_nil _ _)

theorem Regular.append {e : List Nat} (h : d.Regular) (he : e ≠ []) : (d.append e).Regular :=
  { h.push (List.append_ne_nil_of_left_ne_nil h.previous (e.take 1)) with previous := he }

/-- A code stands for an entry that is not empty. -/
theorem Regular.entry_ne_nil {code : Nat} {e : List Nat} (h : d.Regular) (hcode : 3 ≤ code)
    (he : d.entry code = .ok e) : e ≠ [] := by
  unfold entry at he
  split at he
  next e' hget =>
    cases he
    exact h.entries code e hcode hget
  next =>
    split at he
    · cases he
      exact List.append_ne_nil_of_left_ne_nil h.previous _
    · cases he

theorem Regular.withReader (h : d.Regular) (r : BitReader) : Regular { d with reader := r } :=
  ⟨h.suits, h.size, h.previous, h.entries⟩

/-- A token keeps the decoder regular, and adds to the dictionary what it demands. -/
theorem Regular.accept (h : d.Regular) (ht : ∀ code, t = .reference code → 3 ≤ code)
    (haccept : d.accept t = .ok (some d')) :
    d'.Regular ∧ d'.dictionary.size = d.dictionary.size + t.growth := by
  cases t with
  | byte u | wide u =>
    cases haccept
    refine ⟨(h.learn u).append (List.cons_ne_nil _ _), ?_⟩
    simp [size_append, size_learn, Token.growth, Token.learned, Token.unit?]
  | reference code =>
    cases he : d.entry code with
    | error e => simp [Decoder.accept, he, bind, Except.bind] at haccept
    | ok e =>
      simp only [Decoder.accept, he, bind, Except.bind, pure, Except.pure, Except.ok.injEq,
        Option.some.injEq] at haccept
      subst haccept
      refine ⟨h.append (h.entry_ne_nil (ht code rfl) he), ?_⟩
      simp [size_append, Token.growth, Token.learned, Token.unit?]
  | stop => cases haccept

/-- The entries of the dictionary have cost three bits each, out of `n` bits. Only after the last bit
has been read may two of them not have been paid for. -/
structure Paid (n : Nat) (d : Decoder) : Prop where
  regular : d.Regular
  bound : 3 * d.dictionary.size ≤ n + 6
  rest : d.reader.exhausted = false → 3 * d.dictionary.size + d.reader.bitsLeft ≤ n

/-- As long as bits are left, what the next token adds to the dictionary is within the bound. -/
theorem Paid.growth_le (h : d.Paid n) (hmore : d.reader.exhausted = false) (t : Token) :
    3 * (d.dictionary.size + t.growth) ≤ n + 6 := by
  have hleft : d.reader.bitsLeft ≠ 0 := by
    rw [ne_eq, BitReader.bitsLeft_eq_zero_iff, hmore]
    exact Bool.false_ne_true
  have hrest := h.rest hmore
  have hgrowth : t.growth ≤ 2 := by
    cases t <;> simp [Token.growth, Token.learned, Token.unit?]
  omega

/-- A token pays for the entries that it adds. -/
theorem Paid.step (h : d.Paid n) (hmore : d.reader.exhausted = false)
    (hread : Token.read d.width.bits d.reader = .ok (t, r))
    (haccept : accept { d with reader := r } t = .ok (some d')) : d'.Paid n := by
  have hcode : ∀ code, t = .reference code → 3 ≤ code := by
    rintro code rfl
    exact Token.three_le_of_read hread
  obtain ⟨hregular, hsize⟩ := (h.regular.withReader r).accept hcode haccept
  have hreader : d'.reader = r := reader_of_accept haccept
  refine ⟨hregular, hsize ▸ h.growth_le hmore t, fun hmore' => ?_⟩
  have hwidth : 3 ≤ d.width.bits := h.regular.suits.bits ▸ three_le_codeWidth h.regular.size
  have hcost := growth_le_length_bits t hwidth
  have hleft := Token.bitsLeft_read_eq hread
  -- bits are left afterwards, so the token has taken all the bits that it has
  have hsome : r.bitsLeft ≠ 0 := by
    rw [ne_eq, BitReader.bitsLeft_eq_zero_iff, ← hreader, hmore']
    exact Bool.false_ne_true
  have hrest := h.rest hmore
  dsimp only at hsize
  rw [hreader]
  omega

theorem Paid.passes (h : d.Paid n) (hd : d.Passes d') : d'.Paid n := by
  induction hd with
  | here => exact h
  | token _ hmore hread haccept ih => exact ih.step hmore hread haccept

end Decoder

/-! ### Whole texts -/

namespace Packed

/-- Nothing that is presupposed fails while the text is read, neither before a token nor when a unit
that is written out has been put into the dictionary. -/
def IsHarmless (s : List Char) : Prop :=
  ∀ r t r' u d, BitReader.ofChars (restorePlus s) = .ok r → Token.readFirst r = .ok (t, r') →
    (Decoder.first r' u).Passes d → d.IsSafe ∧
      ∀ t' r'' u', d.reader.exhausted = false →
        Token.read d.width.bits d.reader = .ok (t', r'') → t'.unit? = some u' →
          (Decoder.learn { d with reader := r'' } u').IsSafe

section

variable {s : List Char} {r r' : BitReader} {t : Token} {u : Nat} {d : Decoder}

/-- After the first token there are no more bits than those of the text. -/
theorem bitsLeft_of_readFirst (hr : BitReader.ofChars (restorePlus s) = .ok r)
    (ht : Token.readFirst r = .ok (t, r')) : r'.bitsLeft ≤ 6 * s.length := by
  have hall := BitReader.bitsLeft_ofChars hr
  rw [restorePlus, List.length_map] at hall
  exact hall ▸ Token.bitsLeft_readFirst_le ht

/-- The entries of every dictionary on the way have been paid for by the bits of the text, but for the
four codes that are there from the beginning. -/
theorem paid_of_passes (hr : BitReader.ofChars (restorePlus s) = .ok r)
    (ht : Token.readFirst r = .ok (t, r')) (hd : (Decoder.first r' u).Passes d) :
    d.Paid (6 * s.length + 12) := by
  have hbits := bitsLeft_of_readFirst hr ht
  have hfirst : (Decoder.first r' u).Paid (6 * s.length + 12) := by
    refine ⟨Decoder.regular_first r' u, ?_, fun _ => ?_⟩
    · change 3 * 4 ≤ _
      omega
    · change 3 * 4 + r'.bitsLeft ≤ _
      omega
  exact hfirst.passes hd

end

/-- Texts of less than 2 ^ 29 characters are harmless. -/
theorem isHarmless {s : List Char} (hlength : s.length < Bits.count 29) : IsHarmless s := by
  intro r t r' u d hr ht hd
  have hpaid := paid_of_passes hr ht hd
  -- three bits for an entry and six for a character: two entries for a character, far from 2 ^ 31
  have hcount : Bits.count 31 = 4 * Bits.count 29 := by decide
  have hsmall : Bits.count 29 = 536870912 := by decide
  refine ⟨hpaid.regular.isSafe ?_, fun t' r'' u' hmore hread hunit => ?_⟩
  · have hbound := hpaid.bound
    omega
  · refine ((hpaid.regular.withReader r'').learn u').isSafe ?_
    -- the unit that is written out is the first of the two entries that its token adds
    have hbound := hpaid.growth_le hmore t'
    have hgrowth : 1 ≤ t'.growth := Nat.le_add_left _ _
    change (d.dictionary.push [u']).size < _
    rw [Dictionary.size_push]
    omega

end Packed

end Harvest
