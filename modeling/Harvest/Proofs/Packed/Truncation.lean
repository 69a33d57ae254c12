import Harvest.Proofs.Packed.Fork

/-!
# Packed text that has been cut off

A packed text that has been cut off is read as if zeros came after it. Up to the cut everything is
read as in the whole text. The token that the cut falls into may lose its highest bits, so it refers
no further back than the token of the whole text and has a meaning as well. No token is read after
it, because no bits are left.

## Main definitions

* `BitReader.Spent` — only zeros come
* `Token.RefersWithin` — a token that refers no further than another one

## Main results

* `BitReader.Forks.readBits_cut` — a number that the cut falls into does not grow
* `Token.read_cut` — a token that the cut falls into refers no further, and is the last one
* `Decoder.finish_cut` — a decoder finds the same entries up to the last one
* `Packed.unpack_of_prefix` — cutting a text that can be unpacked changes the last entry at most
-/

namespace Harvest

open Packed

/-! ### Bits -/

namespace BitReader

/-- The reader has gone past the last character, so only zeros come. -/
inductive Spent : BitReader → Prop
  | mk (bit offset : Nat) : Spent ⟨0, bit, [], offset, true⟩

variable {x : List Char} {r r' r₁ : BitReader} {n v : Nat}

theorem Spent.exhausted (h : r.Spent) : r.exhausted = true := by
  cases h
  rfl

theorem Spent.readBit (h : r.Spent) : ∃ r', r.readBit = .ok (false, r') ∧ r'.Spent := by
  obtain ⟨bit, offset⟩ := h
  cases bit with
  | zero =>
    refine ⟨_, ?_, .mk 5 (offset + 1)⟩
    simp [BitReader.readBit, advance, bind, Except.bind, pure, Except.pure]
  | succ bit =>
    refine ⟨_, ?_, .mk bit offset⟩
    simp [BitReader.readBit]

theorem Spent.readBits (h : r.Spent) (n : Nat) : ∃ r', r.readBits n = .ok (0, r') ∧ r'.Spent := by
  induction n generalizing r with
  | zero => exact ⟨r, rfl, h⟩
  | succ n ih =>
    obtain ⟨r₁, hbit, h₁⟩ := h.readBit
    obtain ⟨r₂, hrest, h₂⟩ := ih h₁
    refine ⟨r₂, ?_, h₂⟩
    simp only [BitReader.readBits, hbit, hrest, bind, Except.bind, pure, Except.pure]
    rfl

/-- A number is read as in the whole text, or its highest bits have been lost and with them all bits
to come. -/
theorem Forks.readBits_cut (h : Forks x [] r r') (hread : r.readBits n = .ok (v, r₁)) :
    ∃ v' r₁', r'.readBits n = .ok (v', r₁') ∧
      (v' = v ∧ Forks x [] r₁ r₁' ∨ v' ≤ v ∧ r₁'.Spent) := by
  -- the texts may part before any bit; the bits after that are higher ones, and they are lost
  induction n generalizing r r' v with
  | zero =>
    cases hread
    exact ⟨0, r', rfl, .inl ⟨rfl, h⟩⟩
  | succ n ih =>
    unfold BitReader.readBits at hread ⊢
    cases hbit : r.readBit with
    | error e => rw [hbit] at hread; cases hread
    | ok p =>
      obtain ⟨b, r₂⟩ := p
      cases hrest : r₂.readBits n with
      | error e => simp only [hbit, hrest, bind, Except.bind] at hread; cases hread
      | ok q =>
        obtain ⟨high, r₃⟩ := q
        simp only [hbit, hrest, bind, Except.bind] at hread
        cases hread
        rcases h.readBit_cases with hsame | ⟨present, offset, rfl, rfl⟩
        · rw [hbit] at hsame
          obtain ⟨r₂', hbit', h₂⟩ := hsame.exists_of_ok
          obtain ⟨high', r₃', hrest', hcases⟩ := ih h₂ hrest
          refine ⟨b.toNat + 2 * high', r₃', ?_, ?_⟩
          · simp only [hbit', hrest', bind, Except.bind, pure, Except.pure]
          · rcases hcases with ⟨rfl, h₃⟩ | ⟨hle, hspent⟩
            · exact .inl ⟨rfl, h₃⟩
            · exact .inr ⟨by omega, hspent⟩
        · -- the last bit before the cut: what comes after it is zero
          have hb : b = present.testBit 0 := by
            cases x with
            | nil => cases hbit; rfl
            | cons c x =>
              simp only [BitReader.readBit, advance, if_true] at hbit
              cases hload : load c offset with
              | error e => rw [hload] at hbit; cases hbit
              | ok m => rw [hload] at hbit; cases hbit; rfl
          obtain ⟨r₃', hrest', hspent⟩ := (Spent.mk 5 (offset + 1)).readBits n
          refine ⟨b.toNat, r₃', ?_, .inr ⟨Nat.le_add_right _ _, hspent⟩⟩
          simp only [BitReader.readBit, advance, if_true, bind, Except.bind, pure, Except.pure,
            hrest', hb]
          rfl

end BitReader

/-! ### Tokens -/

namespace Token

/-- A token refers no further than another one, if it is a reference at all. -/
def RefersWithin (t' t : Token) : Prop :=
  ∀ code', t' = reference code' → ∃ code, t = reference code ∧ code' ≤ code

theorem RefersWithin.refl (t : Token) : t.RefersWithin t :=
  fun code ht => ⟨code, ht, Nat.le_refl code⟩

variable {x : List Char} {r r' r₁ : BitReader} {t : Token} {code code' width : Nat}

/-- After a code, a unit that has been cut off is read, and it is the last one. -/
theorem ofCode_of_spent (hr : r'.Spent) (hcode : code' ≤ code)
    (hread : ofCode code r = .ok (t, r₁)) :
    ∃ t' r₁', ofCode code' r' = .ok (t', r₁') ∧ t'.RefersWithin t ∧ r₁'.Spent := by
  rcases code' with _ | _ | _ | code'
  · obtain ⟨r₁', hunit, hspent⟩ := hr.readBits 8
    refine ⟨byte 0, r₁', ?_, (fun _ ht => by cases ht), hspent⟩
    simp only [ofCode, hunit, bind, Except.bind, pure, Except.pure]
  · obtain ⟨r₁', hunit, hspent⟩ := hr.readBits 16
    refine ⟨wide 0, r₁', ?_, (fun _ ht => by cases ht), hspent⟩
    simp only [ofCode, hunit, bind, Except.bind, pure, Except.pure]
  · exact ⟨stop, r', rfl, (fun _ ht => by cases ht), hr⟩
  · -- the code of the whole text is larger, so it is a reference too
    obtain ⟨k, rfl⟩ : ∃ k, code = k + 3 := ⟨code - 3, by omega⟩
    cases hread
    refine ⟨reference (code' + 3), r', rfl, fun c ht => ?_, hr⟩
    cases ht
    exact ⟨k + 3, rfl, hcode⟩

theorem ofCode_cut (h : BitReader.Forks x [] r r') (hread : ofCode code r = .ok (t, r₁)) :
    ∃ t' r₁', ofCode code r' = .ok (t', r₁') ∧
      (t' = t ∧ BitReader.Forks x [] r₁ r₁' ∨ t'.RefersWithin t ∧ r₁'.Spent) := by
  -- a unit is read as in the whole text or is the last one; no unit refers to anything
  have literal : ∀ (n : Nat) (make : Nat → Token), (∀ u code', make u ≠ reference code') →
      ((r.readBits n).bind fun p => .ok (make p.1, p.2)) = .ok (t, r₁) →
      ∃ t' r₁', ((r'.readBits n).bind fun p => .ok (make p.1, p.2)) = .ok (t', r₁') ∧
        (t' = t ∧ BitReader.Forks x [] r₁ r₁' ∨ t'.RefersWithin t ∧ r₁'.Spent) := by
    intro n make hmake hunit
    cases hbits : r.readBits n with
    | error e => rw [hbits] at hunit; cases hunit
    | ok p =>
      obtain ⟨u, r₂⟩ := p
      rw [hbits] at hunit
      cases hunit
      obtain ⟨u', r₁', hbits', hcases⟩ := h.readBits_cut hbits
      refine ⟨make u', r₁', by rw [hbits']; rfl, ?_⟩
      rcases hcases with ⟨rfl, hforks⟩ | ⟨-, hspent⟩
      · exact .inl ⟨rfl, hforks⟩
      · exact .inr ⟨fun code' ht => absurd ht (hmake u' code'), hspent⟩
  rcases code with _ | _ | _ | code
  · exact literal 8 byte (fun _ _ => Token.noConfusion) hread
  · exact literal 16 wide (fun _ _ => Token.noConfusion) hread
  · cases hread
    exact ⟨stop, r', rfl, .inl ⟨rfl, h⟩⟩
  · cases hread
    exact ⟨reference (code + 3), r', rfl, .inl ⟨rfl, h⟩⟩

/-- A token is read as in the whole text, or it is the last one and refers no further. -/
theorem read_cut (h : BitReader.Forks x [] r r') (hread : read width r = .ok (t, r₁)) :
    ∃ t' r₁', read width r' = .ok (t', r₁') ∧
      (t' = t ∧ BitReader.Forks x [] r₁ r₁' ∨ t'.RefersWithin t ∧ r₁'.Spent) := by
  rw [read_eq] at hread ⊢
  cases hcode : r.readBits width with
  | error e => rw [hcode] at hread; cases hread
  | ok p =>
    obtain ⟨code, r₂⟩ := p
    rw [hcode] at hread
    obtain ⟨code', r₂', hcode', hcases⟩ := h.readBits_cut hcode
    rw [hcode']
    rcases hcases with ⟨rfl, hforks⟩ | ⟨hle, hspent⟩
    · exact ofCode_cut hforks hread
    · obtain ⟨t', r₁', ht', hwithin, hspent'⟩ := ofCode_of_spent hspent hle hread
      exact ⟨t', r₁', ht', .inr ⟨hwithin, hspent'⟩⟩

end Token

/-! ### Decoding -/

namespace Decoder

variable {x : List Char} {d d' : Decoder} {r' : BitReader} {t t' : Token} {code : Nat}
  {next : Option Decoder} {es : List (List Nat)}

/-- A code has an entry when it has been given out or is about to be. -/
theorem exists_entry_iff : (∃ e, d.entry code = .ok e) ↔ code ≤ d.dictionary.size := by
  unfold entry
  cases hget : d.dictionary.get? code with
  | some e =>
    refine iff_of_true ⟨e, rfl⟩ (Nat.le_of_not_le fun hle => ?_)
    rw [(Dictionary.get?_eq_none_iff _ _).mpr hle] at hget
    cases hget
  | none =>
    have hle := (Dictionary.get?_eq_none_iff _ _).mp hget
    by_cases heq : code = d.dictionary.size
    · simp [heq]
    · have hgt : ¬code ≤ d.dictionary.size := by omega
      simp [heq, hgt]

/-- A token that refers no further is accepted as well, and adds one entry if any. -/
theorem accept_of_refersWithin (ht : t'.RefersWithin t) (h : d.accept t = .ok next) :
    ∃ next', d.accept t' = .ok next' ∧
      ∀ d', next' = some d' → d'.reader = d.reader ∧ ∃ e, d'.entries = e :: d.entries := by
  cases t' with
  | byte u | wide u =>
    refine ⟨_, rfl, ?_⟩
    rintro _ ⟨⟩
    exact ⟨rfl, [u], rfl⟩
  | stop => exact ⟨none, rfl, fun _ hnone => by cases hnone⟩
  | reference code' =>
    obtain ⟨code, rfl, hle⟩ := ht code' rfl
    have hcode : ∃ e, d.entry code = .ok e := by
      cases he : d.entry code with
      | error e => simp only [accept, he, bind, Except.bind] at h; cases h
      | ok e => exact ⟨e, rfl⟩
    obtain ⟨e, he⟩ := exists_entry_iff.mpr (Nat.le_trans hle (exists_entry_iff.mp hcode))
    refine ⟨some (d.append e), by rw [accept, he]; rfl, ?_⟩
    rintro _ ⟨⟩
    exact ⟨rfl, e, rfl⟩

/-- Entries are never taken back. -/
theorem entries_suffix_of_finish (h : d.finish = .ok es) : d.entries <:+ es := by
  induction d using Decoder.finish.induct with
  | case1 d hdone =>
    rw [finish, if_pos hdone] at h
    cases h
    exact List.suffix_rfl
  | case2 d hmore e hread =>
    rw [finish_round (eq_false_of_ne_true hmore), hread] at h
    cases h
  | case3 d hmore t r hread e haccept =>
    rw [finish_eq (eq_false_of_ne_true hmore) hread, haccept] at h
    cases h
  | case4 d hmore t r hread haccept =>
    rw [finish_eq (eq_false_of_ne_true hmore) hread, haccept] at h
    cases h
    exact List.suffix_rfl
  | case5 d hmore t r hread d' haccept ih =>
    rw [finish_eq (eq_false_of_ne_true hmore) hread, haccept] at h
    obtain ⟨_, hsame, hentries⟩ := accept_of_refersWithin (.refl t) haccept
    rw [haccept] at hsame
    cases hsame
    obtain ⟨-, e, he⟩ := hentries d' rfl
    exact (he ▸ List.suffix_cons e d.entries).trans (ih h)

/-- Without bits to come no entry is added. -/
theorem finish_of_spent (h : d.reader.Spent) : d.finish = .ok d.entries := by
  rw [finish, if_pos h.exhausted]

/-- In a text that has been cut off, the next round goes as in the whole text, or it is the last one
and adds one entry at most. -/
theorem finish_round_cut {r : BitReader} (h : BitReader.Forks x [] d.reader r')
    (hread : Token.read d.width.bits d.reader = .ok (t, r))
    (haccept : (d.onto r).accept t = .ok next) :
    (∃ r₁', BitReader.Forks x [] r r₁' ∧ (d.onto r').finish =
      match next with
      | none => .ok d.entries
      | some d' => (d'.onto r₁').finish) ∨
    ∃ es', (d.onto r').finish = .ok es' ∧ es'.tail <:+ d.entries := by
  obtain ⟨t', r₁', hread', hcases⟩ := Token.read_cut h hread
  have hround := finish_onto h.exhausted.2 hread' r
  rcases hcases with ⟨rfl, hforks⟩ | ⟨hwithin, hspent⟩
  · left
    rw [haccept] at hround
    refine ⟨r₁', hforks, hround.trans ?_⟩
    cases next <;> rfl
  · right
    obtain ⟨next', haccept', hnext'⟩ := accept_of_refersWithin hwithin haccept
    rw [hround, haccept']
    cases next' with
    | none => exact ⟨d.entries, rfl, List.tail_suffix _⟩
    | some d' =>
      -- no bits are left for another round
      obtain ⟨-, e, he⟩ := hnext' d' rfl
      refine ⟨d'.entries, finish_of_spent (d := d'.onto r₁') hspent, ?_⟩
      rw [he]
      exact List.suffix_rfl

/-- When the text has been cut off, the decoder finishes as well, and has found the same entries but
for the last one. -/
theorem finish_cut (h : BitReader.Forks x [] d.reader r') (hd : d.finish = .ok es) :
    ∃ es', (d.onto r').finish = .ok es' ∧ es'.tail <:+ es := by
  -- by induction on the rounds of the whole text: as long as the readers fork, both go on
  induction d using Decoder.finish.induct generalizing r' with
  | case1 d hdone => exact absurd hdone (ne_true_of_eq_false h.exhausted.1)
  | case2 d hmore e hread =>
    rw [finish_round (eq_false_of_ne_true hmore), hread] at hd
    cases hd
  | case3 d hmore t r hread e haccept =>
    rw [finish_eq (eq_false_of_ne_true hmore) hread, haccept] at hd
    cases hd
  | case4 d hmore t r hread haccept =>
    have hsuffix := entries_suffix_of_finish hd
    rw [finish_eq (eq_false_of_ne_true hmore) hread, haccept] at hd
    rcases finish_round_cut h hread haccept with ⟨r₁', -, hfinish⟩ | ⟨es', hfinish, htail⟩
    · exact ⟨d.entries, hfinish, (List.tail_suffix _).trans hsuffix⟩
    · exact ⟨es', hfinish, htail.trans hsuffix⟩
  | case5 d hmore t r hread d' haccept ih =>
    have hsuffix := entries_suffix_of_finish hd
    rw [finish_eq (eq_false_of_ne_true hmore) hread, haccept] at hd
    rcases finish_round_cut h hread haccept with ⟨r₁', hforks, hfinish⟩ | ⟨es', hfinish, htail⟩
    · have hreader : d'.reader = r := reader_of_accept haccept
      obtain ⟨es', hes', htail⟩ := ih (hreader.symm ▸ hforks) hd
      exact ⟨es', hfinish.trans hes', htail⟩
    · exact ⟨es', hfinish, htail.trans hsuffix⟩

end Decoder

/-! ### Whole texts -/

namespace Token

variable {x : List Char} {r r' r₁ : BitReader} {t : Token}

/-- The first token is read as in the whole text, or it is the last one. -/
theorem readFirst_cut (h : BitReader.Forks x [] r r') (hread : readFirst r = .ok (t, r₁)) :
    ∃ t' r₁', readFirst r' = .ok (t', r₁') ∧
      (t' = t ∧ BitReader.Forks x [] r₁ r₁' ∨ r₁'.Spent) := by
  obtain ⟨htoken, hcode⟩ := readFirst_eq_ok_iff.mp hread
  obtain ⟨t', r₁', htoken', hcases⟩ := read_cut h htoken
  refine ⟨t', r₁', readFirst_eq_ok_iff.mpr ⟨htoken', ?_⟩, ?_⟩
  · rintro code rfl
    rcases hcases with ⟨rfl, -⟩ | ⟨hwithin, -⟩
    · exact hcode code rfl
    · obtain ⟨code', rfl, -⟩ := hwithin code rfl
      exact hcode code' rfl
  · exact hcases.imp_right And.right

end Token

namespace Packed

variable {x s p : List Char} {r r' : BitReader} {es : List (List Nat)}

theorem entriesFrom_cut (h : BitReader.Forks x [] r r') (hr : entriesFrom r = .ok es) :
    ∃ es', entriesFrom r' = .ok es' ∧ es'.dropLast <+: es := by
  unfold entriesFrom at hr ⊢
  cases hread : Token.readFirst r with
  | error e => rw [hread] at hr; cases hr
  | ok q =>
    obtain ⟨t, r₁⟩ := q
    obtain ⟨t', r₁', hread', hcases⟩ := Token.readFirst_cut h hread
    rw [hread] at hr
    rw [hread']
    rcases hcases with ⟨rfl, hforks⟩ | hspent
    · cases t' with
      | byte u | wide u =>
        cases hfinish : (Decoder.first r₁ u).finish with
        | error e => simp only [bind, Except.bind, hfinish] at hr; cases hr
        | ok ds =>
          simp only [bind, Except.bind, hfinish] at hr
          cases hr
          obtain ⟨ds', hds', htail⟩ := Decoder.finish_cut hforks hfinish
          have hfirst : (Decoder.first r₁' u).finish = .ok ds' := hds'
          refine ⟨ds'.reverse, by simp only [bind, Except.bind, hfirst, pure, Except.pure], ?_⟩
          rw [List.dropLast_reverse]
          exact List.reverse_prefix.mpr htail
      | reference code | stop =>
        cases hr
        exact ⟨[], rfl, List.nil_prefix⟩
    · -- the first token is the last one, so nothing of it is asked for
      cases t' with
      | byte u | wide u =>
        have hfirst : (Decoder.first r₁' u).finish = .ok [[u]] := Decoder.finish_of_spent hspent
        refine ⟨[[u]], by simp only [bind, Except.bind, hfirst]; rfl, List.nil_prefix⟩
      | reference code | stop => exact ⟨[], rfl, List.nil_prefix⟩

/-- Cutting off a text that can be unpacked leaves a text that can be unpacked, and all entries of
it but the last one are entries of the whole text. -/
theorem unpackEntries_of_prefix (hp : p <+: s) (hs : unpackEntries s = .ok es) :
    ∃ es', unpackEntries p = .ok es' ∧ es'.dropLast <+: es := by
  obtain ⟨x, rfl⟩ := hp
  cases p with
  | nil => exact ⟨[], rfl, List.nil_prefix⟩
  | cons c p =>
    rw [List.cons_append, unpackEntries_cons, ← List.cons_append, restorePlus, List.map_append] at hs
    cases hr : BitReader.ofChars ((c :: p).map (fun c => if c = ' ' then '+' else c) ++
        x.map fun c => if c = ' ' then '+' else c) with
    | error e => rw [hr] at hs; cases hs
    | ok r =>
      rw [hr] at hs
      obtain ⟨r', hr', hforks⟩ := BitReader.forks_of_ofChars hr []
      obtain ⟨es', hes', hprefix⟩ := entriesFrom_cut hforks hs
      refine ⟨es', ?_, hprefix⟩
      rw [List.append_nil] at hr'
      rw [unpackEntries_cons, restorePlus, List.map_cons, hr']
      exact hes'

/-- Cutting off a text that can be unpacked leaves a text that can be unpacked. It has the entries of
the whole text, as far as it goes; only its last entry can be another one. -/
theorem unpack_of_prefix {s p text : String} (hp : p.toList <+: s.toList)
    (hs : unpack s = .ok text) :
    ∃ es es' : List (List Nat), unpackEntries s.toList = .ok es ∧
      text = String.ofList (Text.ofUnits es.flatten) ∧
      unpackEntries p.toList = .ok es' ∧
      unpack p = .ok (String.ofList (Text.ofUnits es'.flatten)) ∧
      es'.length - 1 ≤ es.length ∧ es'.take (es'.length - 1) = es.take (es'.length - 1) := by
  rw [unpack_eq] at hs
  cases hentries : unpackEntries s.toList with
  | error e => rw [hentries] at hs; cases hs
  | ok es =>
    rw [hentries] at hs
    cases hs
    obtain ⟨es', hes', hprefix⟩ := unpackEntries_of_prefix hp hentries
    refine ⟨es, es', rfl, rfl, hes', by rw [unpack_eq, hes']; rfl, ?_, ?_⟩
    · rw [← List.length_dropLast]
      exact hprefix.length_le
    · rw [← List.dropLast_eq_take, ← List.length_dropLast]
      exact List.prefix_iff_eq_take.mp hprefix

/-- A text of thirty letters that loses three of its seven characters. The cut falls into a reference,
of which nothing but zeros is left: the last entry is a unit that the text does not contain. -/
theorem unpack_of_prefix_small : "IY18".toList <+: "IY18ZJA".toList ∧
    unpack "IY18ZJA" = .ok "aaaaaaaaaaaaaaaaaaaaaaaaaaaaaa" ∧
    (∃ es es' : List (List Nat), unpackEntries "IY18ZJA".toList = .ok es ∧
      "aaaaaaaaaaaaaaaaaaaaaaaaaaaaaa" = String.ofList (Text.ofUnits es.flatten) ∧
      unpackEntries "IY18".toList = .ok es' ∧
      unpack "IY18" = .ok (String.ofList (Text.ofUnits es'.flatten)) ∧
      es'.length - 1 ≤ es.length ∧ es'.take (es'.length - 1) = es.take (es'.length - 1)) ∧
    unpack "IY18" = .ok "aaaaaaaaaaaaaaa\x00" := by
  have hp : "IY18".toList <+: "IY18ZJA".toList := ⟨"ZJA".toList, rfl⟩
  have hs : unpack "IY18ZJA" = .ok "aaaaaaaaaaaaaaaaaaaaaaaaaaaaaa" := by decide +kernel
  have hcut : unpack "IY18" = .ok "aaaaaaaaaaaaaaa\x00" := by decide +kernel
  exact ⟨hp, hs, unpack_of_prefix hp hs, hcut⟩

end Packed

end Harvest
