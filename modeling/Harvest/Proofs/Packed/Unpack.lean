import Harvest.Proofs.Packed.Stream

/-!
# Unpacking what has been written

The decoder keeps what somebody who writes a stream keeps as well: the dictionary, and with it the
width of the next code. As long as both agree, the next token of the stream is the one that is read,
whatever comes after its bits, and they agree again afterwards.

## Main definitions

* `CodeWidth.Suits` — a width is the one that goes with the size of a dictionary
* `Decoder.Agrees` — a decoder agrees with a dictionary about a stream

## Main results

* `Decoder.finish_of_agrees` — the decoder finds the entries of all tokens up to the end mark
* `TokenStream.unpack_chars` — unpacking the characters of a stream yields its units
-/

namespace Harvest

open Packed

/-! ### The width of a code -/

namespace CodeWidth

/-- The width is the one that goes with the size of a dictionary, and grows in time. -/
structure Suits (w : CodeWidth) (size : Nat) : Prop where
  bits : w.bits = codeWidth size
  left : w.left + size = Bits.count w.bits

theorem suits_start : start.Suits 4 := ⟨by decide, rfl⟩

/-- Giving out a code keeps the width suitable. -/
theorem Suits.next {w : CodeWidth} {size : Nat} (h : w.Suits size) (hsize : size ≠ 0) :
    w.next.Suits (size + 1) := by
  have hbits : w.bits = size.log2 + 1 := h.bits
  have hlow : Bits.count size.log2 ≤ size := Nat.log2_self_le hsize
  have hhigh : size < Bits.count w.bits := hbits ▸ Nat.lt_log2_self
  have hleft := h.left
  unfold CodeWidth.next
  by_cases hgrow : w.left - 1 = 0
  · -- the last code of this width has been given out
    have hfull : size + 1 = Bits.count w.bits := by omega
    rw [if_pos hgrow]
    refine ⟨?_, ?_⟩
    · rw [codeWidth, hfull]
      exact congrArg (· + 1) Nat.log2_two_pow.symm
    · rw [hfull, Bits.count_succ, Nat.two_mul]
  · rw [if_neg hgrow]
    refine ⟨?_, ?_⟩
    · have hnext : size + 1 < Bits.count (size.log2 + 1) := by
        rw [← hbits]
        omega
      have hlog : (size + 1).log2 = size.log2 :=
        (Nat.log2_eq_iff (Nat.succ_ne_zero size)).mpr ⟨Nat.le_succ_of_le hlow, hnext⟩
      rw [codeWidth, hlog]
      exact hbits
    · change w.left - 1 + (size + 1) = Bits.count w.bits
      omega

end CodeWidth

/-! ### Reading a token -/

theorem Packed.lt_count_codeWidth (size : Nat) : size < Bits.count (codeWidth size) :=
  Nat.lt_log2_self

namespace Token

variable {r : BitReader} {t : Token} {size width : Nat} {bs : List Bool}

/-- A token whose bits come first is read, and its bits are taken. -/
theorem read_of_pending (hreadable : r.Readable) (hwidth : 2 < Bits.count width)
    (hsize : size < Bits.count width)
    (ht : t.Fits size ∨ t = stop) (hr : r.pending = t.bits width ++ bs) :
    ∃ r', read width r = .ok (t, r') ∧ r'.pending = bs ∧ r'.Readable := by
  cases t with
  | byte u =>
    have hu : u < Bits.count 8 := ht.resolve_right Token.noConfusion
    rw [bits, List.append_assoc] at hr
    obtain ⟨r₁, hcode, hr₁, hreadable₁⟩ := BitReader.readBits_of_pending hreadable (by omega) hr
    obtain ⟨r₂, hunit, hr₂, hreadable₂⟩ := BitReader.readBits_of_pending hreadable₁ hu hr₁
    refine ⟨r₂, ?_, hr₂, hreadable₂⟩
    simp only [read, hcode, hunit, bind, Except.bind, pure, Except.pure]
  | wide u =>
    have hu : u < Bits.count 16 := ht.resolve_right Token.noConfusion
    rw [bits, List.append_assoc] at hr
    obtain ⟨r₁, hcode, hr₁, hreadable₁⟩ := BitReader.readBits_of_pending hreadable (by omega) hr
    obtain ⟨r₂, hunit, hr₂, hreadable₂⟩ := BitReader.readBits_of_pending hreadable₁ hu hr₁
    refine ⟨r₂, ?_, hr₂, hreadable₂⟩
    simp only [read, hcode, hunit, bind, Except.bind, pure, Except.pure]
  | reference code =>
    obtain ⟨hlow, hhigh⟩ := ht.resolve_right Token.noConfusion
    obtain ⟨r₁, hcode, hr₁, hreadable₁⟩ := BitReader.readBits_of_pending hreadable (by omega) hr
    refine ⟨r₁, ?_, hr₁, hreadable₁⟩
    obtain ⟨k, rfl⟩ : ∃ k, code = k + 3 := ⟨code - 3, by omega⟩
    simp only [read, hcode, bind, Except.bind, pure, Except.pure]
  | stop =>
    obtain ⟨r₁, hcode, hr₁, hreadable₁⟩ := BitReader.readBits_of_pending hreadable hwidth hr
    refine ⟨r₁, ?_, hr₁, hreadable₁⟩
    simp only [read, hcode, bind, Except.bind, pure, Except.pure]

end Token

/-! ### Decoding -/

namespace Decoder

variable {d d' : Decoder} {t : Token} {ts : List Token} {dictionary : List (List Nat)}
  {bs more : List Bool}

/-- The decoder has the given dictionary and the width that goes with it, and the given bits are still
to come. -/
structure Agrees (d : Decoder) (dictionary : List (List Nat)) (bs : List Bool) : Prop where
  entries : d.dictionary.entries.toList = dictionary
  width : d.width.Suits dictionary.length
  pending : d.reader.pending = bs
  readable : d.reader.Readable

theorem Agrees.size_eq (h : d.Agrees dictionary bs) : d.dictionary.size = dictionary.length := by
  rw [← h.entries]
  rfl

theorem Agrees.get?_eq (h : d.Agrees dictionary bs) (code : Nat) :
    d.dictionary.get? code = dictionary[code]? := by
  rw [← h.entries, Array.getElem?_toList]
  rfl

/-- Every code up to the size of the dictionary stands for an entry. -/
theorem Agrees.entry_eq {code : Nat} (h : d.Agrees dictionary bs)
    (hcode : code ≤ dictionary.length) :
    d.entry code = .ok (dictionary.getD code (d.previous ++ d.previous.take 1)) := by
  unfold entry
  rw [h.get?_eq, h.size_eq, List.getD_eq_getElem?_getD]
  -- the code that is about to be given out is the only one that may be used before it has an entry
  rcases Nat.lt_or_eq_of_le hcode with hlt | rfl
  · rw [List.getElem?_eq_getElem hlt]
    rfl
  · rw [List.getElem?_eq_none (Nat.le_refl _)]
    simp

theorem Agrees.learn {u : Nat} (h : d.Agrees dictionary bs) (hpos : dictionary ≠ []) :
    (d.learn u).Agrees (dictionary ++ [[u]]) bs where
  entries := by
    rw [← h.entries]
    exact Array.toList_push
  width := by
    rw [List.length_append]
    exact h.width.next (mt List.length_eq_zero_iff.mp hpos)
  pending := h.pending
  readable := h.readable

theorem Agrees.append {e : List Nat} (h : d.Agrees dictionary bs) (hpos : dictionary ≠ []) :
    (d.append e).Agrees (dictionary ++ [d.previous ++ e.take 1]) bs where
  entries := by
    rw [← h.entries]
    exact Array.toList_push
  width := by
    rw [List.length_append]
    exact h.width.next (mt List.length_eq_zero_iff.mp hpos)
  pending := h.pending
  readable := h.readable

/-- A token of a stream is accepted: its expansion becomes the latest entry, and the dictionary grows as
the token demands. -/
theorem Agrees.accept (h : d.Agrees dictionary bs) (hpos : dictionary ≠ [])
    (ht : t.Fits dictionary.length) :
    let e := t.expansion dictionary d.previous
    ∃ d', d.accept t = .ok (some d') ∧ d'.previous = e ∧ d'.entries = e :: d.entries ∧
      d'.Agrees (dictionary ++ t.learned ++ [d.previous ++ e.take 1]) bs := by
  intro e
  cases t with
  | byte u | wide u =>
    -- a unit written out takes two codes: one for itself, one for the units before it with it
    refine ⟨(d.learn u).append [u], rfl, rfl, rfl, ?_⟩
    exact (h.learn hpos).append (List.append_ne_nil_of_left_ne_nil hpos _)
  | reference code =>
    refine ⟨d.append e, ?_, rfl, rfl, ?_⟩
    · simp only [Decoder.accept, h.entry_eq ht.2, bind, Except.bind, pure, Except.pure]
      rfl
    · have hnone : (Token.reference code).learned = [] := rfl
      rw [hnone, List.append_nil]
      exact h.append hpos
  | stop => exact ht.elim

/-- The next token decides how decoding goes on, unless no bit is left. -/
theorem finish_eq {r : BitReader} (he : d.reader.exhausted = false)
    (hread : Token.read d.width.bits d.reader = .ok (t, r)) :
    d.finish = match Decoder.accept { d with reader := r } t with
      | .error e => .error e
      | .ok none => .ok d.entries
      | .ok (some d') => d'.finish := by
  rw [finish, he, if_neg Bool.false_ne_true]
  split
  next e h => rw [hread] at h; cases h
  next t' r' h =>
    rw [hread] at h
    cases h
    split <;> simp_all

/-- As long as bits are left, a round reads a token and accepts it. -/
theorem finish_round (hmore : d.reader.exhausted = false) :
    d.finish = (do
      let (t, r) ← Token.read d.width.bits d.reader
      match ← Decoder.accept { d with reader := r } t with
      | none => return d.entries
      | some d => d.finish) := by
  cases hread : Token.read d.width.bits d.reader with
  | error e =>
    rw [finish, hmore, if_neg Bool.false_ne_true]
    split <;> simp_all [bind, Except.bind]
  | ok p =>
    obtain ⟨t, r⟩ := p
    rw [finish_eq hmore hread]
    simp only [bind, Except.bind]
    cases Decoder.accept { d with reader := r } t with
    | error e => rfl
    | ok next => cases next <;> rfl

theorem length_learned (t : Token) (e : List Nat) :
    (dictionary ++ t.learned ++ [e]).length = dictionary.length + t.growth := by
  simp [Token.growth]

/-- A token whose bits come first is read, and the decoder agrees about the bits after it. -/
theorem Agrees.read (h : d.Agrees dictionary (t.bits (codeWidth dictionary.length) ++ bs))
    (hsize : 4 ≤ dictionary.length) (ht : t.Fits dictionary.length ∨ t = .stop) :
    d.reader.exhausted = false ∧ ∃ r, Token.read d.width.bits d.reader = .ok (t, r) ∧
      Agrees { d with reader := r } dictionary bs := by
  have hcode : d.width.bits = codeWidth dictionary.length := h.width.bits
  have hfits : dictionary.length < Bits.count d.width.bits := hcode ▸ lt_count_codeWidth _
  have hr : d.reader.pending = t.bits d.width.bits ++ bs := hcode ▸ h.pending
  have hsome : t.bits d.width.bits ++ bs ≠ [] := by
    refine List.append_ne_nil_of_left_ne_nil (List.ne_nil_of_length_pos ?_) _
    exact Nat.lt_of_lt_of_le d.width.bits_pos (t.le_length_bits d.width.bits)
  obtain ⟨r, hread, hpending, hreadable⟩ :=
    Token.read_of_pending h.readable (by omega) hfits ht hr
  exact ⟨BitReader.exhausted_eq_false hr hsome, r, hread, h.entries, h.width, hpending, hreadable⟩

/-- The bits of tokens that come next are decoded up to the end mark, whatever comes after it. -/
theorem finish_of_agrees (h : d.Agrees dictionary (followingBits dictionary.length ts ++ more))
    (hsize : 4 ≤ dictionary.length) (hts : Following dictionary.length ts) :
    d.finish = .ok ((expansions dictionary d.previous ts).reverse ++ d.entries) := by
  -- by induction on the tokens: reading one keeps the agreement, with the dictionary it has grown
  induction ts generalizing d dictionary with
  | nil =>
    obtain ⟨he, r, hread, -⟩ := h.read hsize (.inr rfl)
    rw [finish_eq he hread]
    rfl
  | cons t ts ih =>
    obtain ⟨ht, hts⟩ : t.Fits dictionary.length ∧ Following (dictionary.length + t.growth) ts := by
      cases hts with
      | cons ht hts => exact ⟨ht, hts⟩
    rw [followingBits, List.append_assoc] at h
    obtain ⟨he, r, hread, hagrees⟩ := h.read hsize (.inl ht)
    have hpos : dictionary ≠ [] := List.ne_nil_of_length_pos (by omega)
    obtain ⟨d', haccept, hprevious, hentries, hagrees'⟩ := hagrees.accept hpos ht
    rw [← length_learned t (d.previous ++ (t.expansion dictionary d.previous).take 1)] at hagrees' hts
    have hrest := ih hagrees' (by rw [length_learned]; omega) hts
    rw [finish_eq he hread, haccept]
    simp only [hrest, hprevious, hentries, expansions, List.reverse_cons, List.append_assoc,
      List.singleton_append]

end Decoder

/-! ### The text of a stream -/

namespace TokenStream

variable {s : TokenStream} {fill : List Bool} {more : List Char}

theorem flatMap_chars (hfill : 6 ∣ (s.bits ++ fill).length) (more : List Char) :
    (s.chars fill more).flatMap charBits = s.bits ++ (fill ++ more.flatMap charBits) := by
  rw [chars, List.flatMap_append, flatMap_write hfill, List.append_assoc]

theorem isSome_number?_of_mem_chars (hmore : ∀ c ∈ more, c ∈ alphabet) {c : Char}
    (hc : c ∈ s.chars fill more) : (number? c).isSome := by
  rw [chars, List.mem_append] at hc
  rcases hc with hc | hc
  · exact isSome_number?_of_mem_write hc
  · rw [number?, List.isSome_idxOf?]
    exact hmore c hc

/-- There are no spaces among the characters of a stream. -/
theorem restorePlus_chars (hmore : ∀ c ∈ more, c ∈ alphabet) :
    restorePlus (s.chars fill more) = s.chars fill more := by
  have hsame : ∀ c ∈ s.chars fill more, (if c = ' ' then '+' else c) = id c := by
    intro c hc
    refine if_neg ?_
    -- the blank does not belong to the alphabet
    rintro rfl
    have hsome := isSome_number?_of_mem_chars hmore hc
    have hnone : number? ' ' = none := by decide
    rw [hnone] at hsome
    cases hsome
  rw [restorePlus, List.map_congr_left hsame, List.map_id]

/-- The first token of a stream is read, and the rest of its bits are to come. -/
theorem exists_readFirst {r : BitReader} {bs : List Bool} (hreadable : r.Readable)
    (hr : r.pending = s.bits ++ bs) :
    ∃ r' u, Token.readFirst r = .ok (s.first, r') ∧ s.first.unit? = some u ∧
      (Decoder.first r' u).Agrees [[], [], [], [u]] (followingBits 4 s.rest ++ bs) := by
  rw [bits, List.append_assoc] at hr
  obtain ⟨r', hread, hpending, hreadable'⟩ :=
    Token.read_of_pending hreadable (by decide) (show 3 < Bits.count 2 by decide) (.inl s.fits) hr
  obtain ⟨u, hu⟩ := Option.isSome_iff_exists.mp s.literal
  refine ⟨r', u, ?_, hu, rfl, CodeWidth.suits_start, hpending, hreadable'⟩
  cases hfirst : s.first with
  | byte u | wide u => simp only [Token.readFirst, hread, hfirst, bind, Except.bind, pure, Except.pure]
  | reference code | stop => rw [hfirst] at hu; cases hu

/-- Unpacking the characters of a stream finds the expansions of its tokens. -/
theorem unpackEntries_chars (hfill : 6 ∣ (s.bits ++ fill).length)
    (hmore : ∀ c ∈ more, c ∈ alphabet) :
    ∃ entries, unpackEntries (s.chars fill more) = .ok entries ∧ entries.flatten = s.units := by
  have hbits := flatMap_chars hfill more
  have hsome : s.chars fill more ≠ [] := by
    intro hnil
    have hlen := s.first.le_length_bits 2
    rw [hnil, List.flatMap_nil, bits] at hbits
    have hzero := congrArg List.length hbits
    simp only [List.length_nil, List.length_append] at hzero
    omega
  obtain ⟨r, hr, hpending, hreadable⟩ :=
    BitReader.exists_ofChars hsome fun c => isSome_number?_of_mem_chars hmore
  obtain ⟨r', u, hfirst, hu, hagrees⟩ := exists_readFirst hreadable (hpending.trans hbits)
  have hfinish := Decoder.finish_of_agrees hagrees (Nat.le_refl 4) s.following
  refine ⟨[u] :: expansions [[], [], [], [u]] [u] s.rest, ?_, ?_⟩
  · rw [unpackEntries, if_neg (by simpa using hsome), restorePlus_chars hmore, hr]
    cases hcase : s.first with
    | byte v | wide v =>
      rw [hcase] at hfirst hu
      cases hu
      simp only [bind, Except.bind, hfirst, hfinish, pure, Except.pure]
      simp [Decoder.first]
    | reference code | stop => rw [hcase] at hu; cases hu
  · have hexpansion : s.first.expansion [] [] = [u] := by
      cases hcase : s.first with
      | byte v | wide v => rw [hcase] at hu; cases hu; rfl
      | reference code | stop => rw [hcase] at hu; cases hu
    rw [units, hexpansion]

/-- Unpacking the characters of a stream yields the text of its units. -/
theorem unpack_chars (s : TokenStream) {fill : List Bool} {more : List Char}
    (hfill : 6 ∣ (s.bits ++ fill).length) (hmore : ∀ c ∈ more, c ∈ alphabet) :
    unpack (String.ofList (s.chars fill more)) = .ok (String.ofList (Text.ofUnits s.units)) := by
  obtain ⟨entries, hentries, hunits⟩ := unpackEntries_chars hfill hmore
  rw [unpack, String.toList_ofList, hentries]
  simp only [bind, Except.bind, pure, Except.pure, hunits]

/-- A stream of a unit, a reference to the code that is about to be given out, a unit of sixteen bits
and another reference. -/
def small : TokenStream where
  first := .byte 97
  rest := [.reference 4, .wide 26481, .reference 4]
  literal := rfl
  fits := show 97 < 256 by decide
  following := .cons ⟨by decide, by decide⟩ (.cons (show 26481 < 65536 by decide)
    (.cons ⟨by decide, by decide⟩ .nil))

theorem unpack_chars_small : 6 ∣ (small.bits ++ [true, false, true]).length ∧
    (∀ c ∈ ['$'], c ∈ alphabet) ∧
    unpack (String.ofList (small.chars [true, false, true] ['$'])) =
      .ok (String.ofList (Text.ofUnits [97, 97, 97, 26481, 97, 97])) := by
  have hfill : 6 ∣ (small.bits ++ [true, false, true]).length := by decide +kernel
  have hmore : ∀ c ∈ ['$'], c ∈ alphabet := List.forall_mem_singleton.mpr (by decide +kernel)
  have hunits : small.units = [97, 97, 97, 26481, 97, 97] := by decide +kernel
  exact ⟨hfill, hmore, hunits ▸ small.unpack_chars hfill hmore⟩

end TokenStream

end Harvest
