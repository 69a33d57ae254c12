import Harvest.Proofs.Packed.Fork
import Harvest.Snapshot.Fragment

/-!
# Packed text that is refused

A text is refused for a character outside the alphabet, for a first code without a meaning, or for a
reference to nothing. A reader comes upon the characters of its text one after the other and refuses
the first one that is outside the alphabet, so that is the one that is reported. If it never gets so
far, no character from there on has any influence.

## Main definitions

* `Packed.FirstFault` — the first character outside the alphabet, and its offset
* `BitReader.IsAt` — a reader has come to its place in a text without refusing a character
* `BitReader.Locates` — a reading step comes to another place or reports the first fault
* `BitReader.Follows` — what comes in place of a fault does not count until the fault is refused
* `RefusesCharacter` — an outcome that is the refusal of a character
* `Packed.textBits` — the bits of a text
* `Snapshot.IsRetryable` — reading a packed list fails in such a way that it may be read again

## Main results

* `BitReader.IsAt.read` — a token is read, or the first fault is reported
* `Packed.unpackEntries_error` — the three reasons for refusing a text
* `Packed.unpackEntries_of_fault` — what comes after a fault that is not reported does not count
* `Packed.unpack_faults` — where errors are located, and which of them are retryable
-/

namespace Harvest

open Packed

/-! ### Places in a text -/

namespace Packed

/-- The first character of a text that does not belong to the alphabet, and its offset. -/
structure FirstFault (s : List Char) (c : Char) (offset : Nat) : Prop where
  get : s[offset]? = some c
  notMem : c ∉ alphabet
  before : ∀ c' ∈ s.take offset, c' ∈ alphabet

theorem number?_eq_none_iff {c : Char} : number? c = none ↔ c ∉ alphabet := by
  rw [number?, List.idxOf?_eq_none_iff]

theorem exists_number?_iff {c : Char} : (∃ n, number? c = some n) ↔ c ∈ alphabet := by
  rw [← Option.isSome_iff_exists, number?, List.isSome_idxOf?]

end Packed

namespace BitReader

/-- A reader has come to its place in a text, and all characters before that belong to the
alphabet. -/
structure IsAt (s : List Char) (r : BitReader) : Prop where
  rest : r.rest = s.drop r.offset
  loaded : ∀ c ∈ s.take r.offset, c ∈ alphabet

/-- Either something has been read and the reader has come to another place, or the first fault of the
text is reported. -/
def Locates (s : List Char) {α : Type} : Except UnpackError (α × BitReader) → Prop
  | .ok (_, r) => r.IsAt s
  | .error e => ∃ c offset, e = .badCharacter c offset ∧ FirstFault s c offset

variable {s : List Char} {r r' : BitReader} {α β : Type}

theorem Locates.bind {m : Except UnpackError (α × BitReader)}
    {f : α × BitReader → Except UnpackError (β × BitReader)} (hm : Locates s m)
    (hf : ∀ a r, r.IsAt s → Locates s (f (a, r))) : Locates s (m.bind f) := by
  cases m with
  | error e => exact hm
  | ok p => exact hf p.1 p.2 hm

/-- Loading the next character locates the fault, if it is one. -/
theorem IsAt.advance (h : r.IsAt s) :
    Locates s (r.advance.map fun r' => ((), r')) := by
  obtain ⟨present, bit, rest, offset, exhausted⟩ := r
  obtain ⟨hrest, hloaded⟩ := h
  dsimp only at hrest hloaded
  cases rest with
  | nil =>
    -- all characters are loaded already
    have hlength : s.length ≤ offset := List.drop_eq_nil_iff.mp hrest.symm
    refine ⟨(List.drop_eq_nil_of_le (Nat.le_succ_of_le hlength)).symm, fun c hc => hloaded c ?_⟩
    rw [List.take_of_length_le hlength]
    exact List.mem_of_mem_take hc
  | cons c rest =>
    have hlt : offset < s.length := by
      by_contra hge
      rw [List.drop_eq_nil_of_le (Nat.le_of_not_lt hge)] at hrest
      cases hrest
    rw [List.drop_eq_getElem_cons hlt, List.cons.injEq] at hrest
    obtain ⟨hc, hrest⟩ := hrest
    simp only [BitReader.advance, load]
    cases hn : number? c with
    | none =>
      refine ⟨c, offset, rfl, ?_, number?_eq_none_iff.mp hn, hloaded⟩
      rw [List.getElem?_eq_getElem hlt, hc]
    | some n =>
      refine ⟨hrest, fun c' hc' => ?_⟩
      rw [List.take_succ_eq_append_getElem hlt, List.mem_append, List.mem_singleton, ← hc] at hc'
      rcases hc' with hc' | rfl
      · exact hloaded c' hc'
      · exact exists_number?_iff.mp ⟨n, hn⟩

theorem IsAt.readBit (h : r.IsAt s) : Locates s r.readBit := by
  unfold BitReader.readBit
  by_cases hbit : r.bit = 0
  · have hadvance := h.advance
    simp only [hbit, if_true]
    cases hnext : r.advance with
    | error e => rw [hnext] at hadvance; exact hadvance
    | ok r' => rw [hnext] at hadvance; exact hadvance
  · rw [if_neg hbit]
    exact ⟨h.rest, h.loaded⟩

theorem IsAt.readBits (h : r.IsAt s) (n : Nat) : Locates s (r.readBits n) := by
  induction n generalizing r with
  | zero => exact h
  | succ n ih =>
    refine h.readBit.bind fun b r₁ h₁ => ?_
    exact (ih h₁).bind fun high r₂ h₂ => h₂

theorem IsAt.ofCode (h : r.IsAt s) (code : Nat) : Locates s (Token.ofCode code r) := by
  rcases code with _ | _ | _ | code
  · exact (h.readBits 8).bind fun u r₁ h₁ => h₁
  · exact (h.readBits 16).bind fun u r₁ h₁ => h₁
  · exact h
  · exact h

/-- A token is read, or the first fault of the text is reported. -/
theorem IsAt.read (h : r.IsAt s) (width : Nat) : Locates s (Token.read width r) :=
  (h.readBits width).bind fun code _ h₁ => h₁.ofCode code

theorem ofChars_eq_advance (s : List Char) : ofChars s = advance ⟨0, 0, s, 0, false⟩ := by
  cases s <;> rfl

/-- The first character is loaded, and its first two bits are the first ones of the text. -/
theorem exists_of_ofChars_cons {c : Char} (h : ofChars (c :: s) = .ok r) :
    ∃ n, r = ⟨n, 5, s, 1, false⟩ ∧
      ((c :: s).flatMap charBits).take 2 = [n.testBit 5, n.testBit 4] := by
  simp only [ofChars, load] at h
  cases hn : number? c with
  | none => rw [hn] at h; cases h
  | some n =>
    rw [hn] at h
    cases h
    refine ⟨n, rfl, ?_⟩
    rw [List.flatMap_cons, charBits, hn]
    rfl

/-- The code of the first token is made of the first two bits of a character. -/
theorem readBits_two (n : Nat) (rest : List Char) (offset : Nat) :
    readBits 2 ⟨n, 5, rest, offset, false⟩ =
      .ok ((n.testBit 5).toNat + 2 * (n.testBit 4).toNat, ⟨n, 3, rest, offset, false⟩) := rfl

theorem locates_ofChars (s : List Char) : Locates s ((ofChars s).map fun r => ((), r)) := by
  have hstart : IsAt s ⟨0, 0, s, 0, false⟩ := ⟨rfl, fun c hc => by cases hc⟩
  rw [ofChars_eq_advance]
  exact hstart.advance

end BitReader

/-! ### Where errors are located -/

namespace Token

variable {s : List Char} {r : BitReader} {e : UnpackError}

/-- The first token is refused for a character, or because it is a reference. -/
theorem readFirst_error (h : r.IsAt s) (he : readFirst r = .error e) :
    (∃ c offset, e = .badCharacter c offset ∧ FirstFault s c offset) ∨
      ∃ code r', read 2 r = .ok (reference code, r') ∧ e = .badFirstCode code := by
  have hlocates := h.read 2
  unfold readFirst at he
  cases hread : read 2 r with
  | error e' =>
    rw [hread] at hlocates he
    cases he
    exact .inl hlocates
  | ok p =>
    obtain ⟨t, r'⟩ := p
    rw [hread] at he
    cases t with
    | byte u | wide u | stop => cases he
    | reference code =>
      cases he
      exact .inr ⟨code, r', rfl, rfl⟩

end Token

namespace Decoder

variable {s : List Char} {d : Decoder} {t : Token} {e : UnpackError}

/-- A token is refused only for a reference to nothing. -/
theorem accept_error (h : d.accept t = .error e) : ∃ code size, e = .badReference code size := by
  cases t with
  | byte u | wide u | stop => cases h
  | reference code =>
    cases hentry : d.entry code with
    | ok e' => simp only [accept, hentry, bind, Except.bind] at h; cases h
    | error e' =>
      simp only [accept, hentry, bind, Except.bind] at h
      cases h
      unfold entry at hentry
      split at hentry
      · cases hentry
      · split at hentry
        · cases hentry
        · cases hentry
          exact ⟨code, d.dictionary.size, rfl⟩

theorem finish_error (h : d.reader.IsAt s) (he : d.finish = .error e) :
    (∃ c offset, e = .badCharacter c offset ∧ FirstFault s c offset) ∨
      ∃ code size, e = .badReference code size := by
  -- by induction on the rounds: before each of them the reader has come to its place in the text
  induction d using Decoder.finish.induct with
  | case1 d hdone =>
    rw [finish, if_pos hdone] at he
    cases he
  | case2 d hmore e' hread =>
    have hlocates := h.read d.width.bits
    rw [finish_round (eq_false_of_ne_true hmore), hread] at he
    cases he
    rw [hread] at hlocates
    exact .inl hlocates
  | case3 d hmore t r hread e' haccept =>
    rw [finish_eq (eq_false_of_ne_true hmore) hread, haccept] at he
    cases he
    exact .inr (accept_error haccept)
  | case4 d hmore t r hread haccept =>
    rw [finish_eq (eq_false_of_ne_true hmore) hread, haccept] at he
    cases he
  | case5 d hmore t r hread d' haccept ih =>
    have hlocates := h.read d.width.bits
    rw [finish_eq (eq_false_of_ne_true hmore) hread, haccept] at he
    rw [hread] at hlocates
    have hreader : d'.reader = r := reader_of_accept haccept
    exact ih (hreader.symm ▸ hlocates) he

end Decoder

namespace Packed

variable {s : List Char} {e : UnpackError}

/-- The bits that a text stands for. -/
def textBits (s : List Char) : List Bool := (restorePlus s).flatMap charBits

/-- The first token is a reference when the first two bits are both ones. -/
theorem eq_three_of_reference {c : Char} {r r' : BitReader} {code : Nat}
    (hr : BitReader.ofChars (c :: s) = .ok r) (hread : Token.read 2 r = .ok (.reference code, r')) :
    code = 3 ∧ ((c :: s).flatMap charBits).take 2 = [true, true] := by
  obtain ⟨n, rfl, hbits⟩ := BitReader.exists_of_ofChars_cons hr
  obtain ⟨code', r₁, hcode, hcases⟩ := Token.read_cases hread
  rw [BitReader.readBits_two] at hcode
  cases hcode
  rw [hbits]
  rcases hcases with ⟨u, ht, -⟩ | ⟨u, ht, -⟩ | ⟨ht, -⟩ | ⟨hthree, ht, -⟩
  · cases ht
  · cases ht
  · cases ht
  · cases ht
    cases h5 : n.testBit 5 <;> cases h4 : n.testBit 4 <;> simp_all

/-- A text that begins with two ones is refused at its first code. -/
theorem unpackEntries_of_ones {c : Char} (hc : (if c = ' ' then '+' else c) ∈ alphabet)
    (hbits : (textBits (c :: s)).take 2 = [true, true]) :
    unpackEntries (c :: s) = .error (.badFirstCode 3) := by
  obtain ⟨n, hn⟩ := exists_number?_iff.mpr hc
  have hr : BitReader.ofChars (restorePlus (c :: s)) = .ok ⟨n, 5, restorePlus s, 1, false⟩ := by
    simp only [restorePlus, List.map_cons, BitReader.ofChars, BitReader.load, hn]
    rfl
  obtain ⟨n', heq, hfirst⟩ := BitReader.exists_of_ofChars_cons hr
  cases heq
  have htwo : [n.testBit 5, n.testBit 4] = [true, true] := hfirst.symm.trans hbits
  simp only [List.cons.injEq, and_true] at htwo
  have hread : Token.readFirst ⟨n, 5, restorePlus s, 1, false⟩ = .error (.badFirstCode 3) := by
    rw [Token.readFirst, Token.read_eq, BitReader.readBits_two, htwo.1, htwo.2]
    rfl
  rw [unpackEntries_cons, hr]
  change entriesFrom _ = _
  rw [entriesFrom, hread]
  rfl

/-- A text is refused for its first fault, because its first two bits make no code, or for a reference
to nothing. -/
theorem unpackEntries_error (h : unpackEntries s = .error e) :
    (∃ c offset, e = .badCharacter c offset ∧ FirstFault (restorePlus s) c offset) ∨
      (e = .badFirstCode 3 ∧ (textBits s).take 2 = [true, true]) ∨
      ∃ code size, e = .badReference code size := by
  cases s with
  | nil => cases h
  | cons c s =>
    have hplace := BitReader.locates_ofChars (restorePlus (c :: s))
    rw [unpackEntries_cons] at h
    cases hr : BitReader.ofChars (restorePlus (c :: s)) with
    | error e' =>
      rw [hr] at h hplace
      cases h
      exact .inl hplace
    | ok r =>
      rw [hr] at h hplace
      have hat : r.IsAt (restorePlus (c :: s)) := hplace
      replace h : entriesFrom r = .error e := h
      unfold entriesFrom at h
      cases hfirst : Token.readFirst r with
      | error e' =>
        rw [hfirst] at h
        cases h
        rcases Token.readFirst_error hat hfirst with hfault | ⟨code, r', hread, rfl⟩
        · exact .inl hfault
        · obtain ⟨rfl, hbits⟩ := eq_three_of_reference hr hread
          exact .inr (.inl ⟨rfl, hbits⟩)
      | ok p =>
        obtain ⟨t, r'⟩ := p
        have hlocates := hat.read 2
        rw [(Token.readFirst_eq_ok_iff.mp hfirst).1] at hlocates
        rw [hfirst] at h
        cases t with
        | byte u | wide u =>
          have hfinish : (Decoder.first r' u).finish = .error e := by
            cases hfinish : (Decoder.first r' u).finish with
            | error e' => simp only [bind, Except.bind, hfinish] at h; cases h; rfl
            | ok es => simp only [bind, Except.bind, hfinish] at h; cases h
          have hplace' : (Decoder.first r' u).reader.IsAt (restorePlus (c :: s)) := hlocates
          exact (Decoder.finish_error hplace' hfinish).imp_right .inr
        | reference code | stop => cases h

end Packed

/-! ### What comes after a fault -/

/-- A character is refused. -/
def RefusesCharacter {α : Type} (res : Except UnpackError α) : Prop :=
  ∃ c offset, res = .error (.badCharacter c offset)

namespace BitReader

/-- Unless the first reader refuses a character, both read alike. -/
def Follows (x x' : List Char) {α : Type} (res res' : Except UnpackError (α × BitReader)) : Prop :=
  RefusesCharacter res ∨ Alike x x' res res'

variable {c : Char} {y x' : List Char} {r r' : BitReader} {α β : Type}

theorem Follows.bind {x : List Char} {m m' : Except UnpackError (α × BitReader)}
    {f : α × BitReader → Except UnpackError (β × BitReader)} (hm : Follows x x' m m')
    (hf : ∀ a r r', Forks x x' r r' → Follows x x' (f (a, r)) (f (a, r'))) :
    Follows x x' (m.bind f) (m'.bind f) := by
  rcases hm with ⟨c, offset, rfl⟩ | hm
  · exact .inl ⟨c, offset, rfl⟩
  · cases hm with
    | failed e => exact .inr (.failed e)
    | taken a h => exact hf a _ _ h

/-- A reader that meets a fault at the place where the texts part refuses it, and reads like the other
one before. -/
theorem Forks.readBit_of_fault (hc : number? c = none) (h : Forks (c :: y) x' r r') :
    Follows (c :: y) x' r.readBit r'.readBit := by
  rcases h.readBit_cases with hsame | ⟨present, offset, rfl, rfl⟩
  · exact .inr hsame
  · refine .inl ⟨c, offset, ?_⟩
    simp only [readBit, advance, load, hc, if_true]
    rfl

theorem Forks.readBits_of_fault (hc : number? c = none) (h : Forks (c :: y) x' r r') (n : Nat) :
    Follows (c :: y) x' (r.readBits n) (r'.readBits n) := by
  induction n generalizing r r' with
  | zero => exact .inr (.taken 0 h)
  | succ n ih =>
    refine (h.readBit_of_fault hc).bind fun b r₁ r₁' h₁ => ?_
    exact (ih h₁).bind fun high r₂ r₂' h₂ => .inr (.taken _ h₂)

theorem Forks.read_of_fault (hc : number? c = none) (h : Forks (c :: y) x' r r') (width : Nat) :
    Follows (c :: y) x' (Token.read width r) (Token.read width r') := by
  refine (h.readBits_of_fault hc width).bind fun code r₁ r₁' h₁ => ?_
  rcases code with _ | _ | _ | code
  · exact (h₁.readBits_of_fault hc 8).bind fun u r₂ r₂' h₂ => .inr (.taken _ h₂)
  · exact (h₁.readBits_of_fault hc 16).bind fun u r₂ r₂' h₂ => .inr (.taken _ h₂)
  · exact .inr (.taken _ h₁)
  · exact .inr (.taken _ h₁)

theorem Forks.readFirst_of_fault (hc : number? c = none) (h : Forks (c :: y) x' r r') :
    Follows (c :: y) x' (Token.readFirst r) (Token.readFirst r') := by
  refine (h.read_of_fault hc 2).bind fun t r₁ r₁' h₁ => ?_
  cases t with
  | byte u | wide u | stop => exact .inr (.taken _ h₁)
  | reference code => exact .inr (.failed _)

end BitReader

namespace Decoder

variable {c : Char} {y x' : List Char} {d : Decoder} {t : Token} {r r' : BitReader}

/-- A token that is read before the fault is read from the other text as well. -/
theorem exists_read_of_fault (hc : number? c = none) (h : BitReader.Forks (c :: y) x' d.reader r')
    (hread : Token.read d.width.bits d.reader = .ok (t, r)) :
    ∃ r₁', Token.read d.width.bits r' = .ok (t, r₁') ∧ BitReader.Forks (c :: y) x' r r₁' := by
  have hsame := h.read_of_fault hc d.width.bits
  rw [hread] at hsame
  rcases hsame with ⟨c', offset, he⟩ | hsame
  · cases he
  · exact hsame.exists_of_ok

/-- Unless it refuses a character, a decoder finishes with the same result whatever comes in place of
a fault. -/
theorem finish_of_fault (hc : number? c = none) (h : BitReader.Forks (c :: y) x' d.reader r') :
    RefusesCharacter d.finish ∨ (d.onto r').finish = d.finish := by
  -- by induction on the rounds of the text with the fault, for every reader that forks from its own
  induction d using Decoder.finish.induct generalizing r' with
  | case1 d hdone => exact absurd hdone (ne_true_of_eq_false h.exhausted.1)
  | case2 d hmore e hread =>
    have hround := finish_round h.exhausted.1
    have hround' := finish_round (d := d.onto r') h.exhausted.2
    have hsame := h.read_of_fault hc d.width.bits
    rw [hread] at hround hsame
    rcases hsame with ⟨c', offset, he⟩ | hsame
    · cases he
      exact .inl ⟨c', offset, hround⟩
    · rw [show Token.read (d.onto r').width.bits (d.onto r').reader = _ from hsame.eq_error] at hround'
      exact .inr (hround'.trans hround.symm)
  | case3 d hmore t r hread e haccept =>
    obtain ⟨r₁', hread', -⟩ := exists_read_of_fault hc h hread
    have haccept' : (d.onto r).accept t = .error e := haccept
    rw [finish_eq h.exhausted.1 hread, finish_onto h.exhausted.2 hread' r, haccept, haccept']
    exact .inr rfl
  | case4 d hmore t r hread haccept =>
    obtain ⟨r₁', hread', -⟩ := exists_read_of_fault hc h hread
    have haccept' : (d.onto r).accept t = .ok none := haccept
    rw [finish_eq h.exhausted.1 hread, finish_onto h.exhausted.2 hread' r, haccept, haccept']
    exact .inr rfl
  | case5 d hmore t r hread d' haccept ih =>
    obtain ⟨r₁', hread', hforks⟩ := exists_read_of_fault hc h hread
    have haccept' : (d.onto r).accept t = .ok (some d') := haccept
    have hreader : d'.reader = r := reader_of_accept haccept
    rw [finish_eq h.exhausted.1 hread, finish_onto h.exhausted.2 hread' r, haccept, haccept']
    exact ih (hreader.symm ▸ hforks)

end Decoder

namespace Packed

variable {c : Char} {y x' : List Char} {r r' : BitReader} {offset : Nat}

theorem entriesFrom_of_fault (hc : number? c = none) (h : BitReader.Forks (c :: y) x' r r') :
    RefusesCharacter (entriesFrom r) ∨ entriesFrom r' = entriesFrom r := by
  unfold entriesFrom
  rcases h.readFirst_of_fault hc with ⟨c', k, he⟩ | hsame
  · rw [he]
    exact .inl ⟨c', k, rfl⟩
  · cases hfirst : Token.readFirst r with
    | error e =>
      rw [hfirst] at hsame
      rw [hsame.eq_error]
      exact .inr rfl
    | ok p =>
      obtain ⟨t, r₁⟩ := p
      rw [hfirst] at hsame
      obtain ⟨r₁', hfirst', hforks⟩ := hsame.exists_of_ok
      rw [hfirst']
      cases t with
      | byte u | wide u =>
        have hcases : RefusesCharacter (Decoder.first r₁ u).finish ∨
            (Decoder.first r₁' u).finish = (Decoder.first r₁ u).finish :=
          Decoder.finish_of_fault hc hforks
        rcases hcases with ⟨c', k, he⟩ | heq
        · refine .inl ⟨c', k, ?_⟩
          simp only [bind, Except.bind, he]
        · refine .inr ?_
          simp only [bind, Except.bind, heq]
      | reference code | stop => exact .inr rfl

/-- As long as its first fault is not refused, a text may go on in any other way from there. -/
theorem unpackEntries_of_fault {s s' : List Char} (hfault : FirstFault (restorePlus s) c offset)
    (hs : ¬RefusesCharacter (unpackEntries s))
    (hsame : (restorePlus s').take offset = (restorePlus s).take offset) :
    unpackEntries s' = unpackEntries s := by
  have hnone : number? c = none := number?_eq_none_iff.mpr hfault.notMem
  obtain ⟨hlt, hget⟩ := List.getElem?_eq_some_iff.mp hfault.get
  have hsplit : restorePlus s = (restorePlus s).take offset ++
      c :: (restorePlus s).drop (offset + 1) := by
    rw [← hget, ← List.drop_eq_getElem_cons hlt, List.take_append_drop]
  have hsplit' := (List.take_append_drop offset (restorePlus s')).symm
  rw [hsame] at hsplit'
  cases hcommon : (restorePlus s).take offset with
  | nil =>
    -- the first character of all is loaded before anything is read
    rw [hcommon] at hsplit
    refine absurd ⟨c, 0, ?_⟩ hs
    rw [unpackEntries_of_restored hsplit]
    simp only [BitReader.ofChars, BitReader.load, hnone]
    rfl
  | cons b common =>
    rw [hcommon] at hsplit hsplit'
    have hunpack := unpackEntries_of_restored hsplit
    have hunpack' := unpackEntries_of_restored hsplit'
    rw [hunpack] at hs
    cases hr : BitReader.ofChars (b :: common ++ c :: (restorePlus s).drop (offset + 1)) with
    | error e =>
      have hlocates := BitReader.locates_ofChars (b :: common ++ c :: (restorePlus s).drop (offset + 1))
      rw [hr] at hlocates
      obtain ⟨c', k, rfl, -⟩ := hlocates
      exact absurd ⟨c', k, congrArg (·.bind entriesFrom) hr⟩ hs
    | ok r =>
      obtain ⟨r', hr', hforks⟩ := BitReader.forks_of_ofChars hr ((restorePlus s').drop offset)
      replace hunpack : unpackEntries s = entriesFrom r :=
        hunpack.trans (congrArg (·.bind entriesFrom) hr)
      replace hunpack' : unpackEntries s' = entriesFrom r' :=
        hunpack'.trans (congrArg (·.bind entriesFrom) hr')
      have hrefuses : ¬RefusesCharacter (entriesFrom r) := by
        rwa [← hunpack, unpackEntries_of_restored hsplit]
      rw [hunpack, hunpack']
      exact (entriesFrom_of_fault hnone hforks).resolve_left hrefuses

/-- The decoder refuses a text when its entries cannot be found. -/
theorem unpackEntries_error_of_unpack {s : String} {e : UnpackError} (h : unpack s = .error e) :
    unpackEntries s.toList = .error e := by
  rw [unpack_eq] at h
  cases hentries : unpackEntries s.toList with
  | error e' => rw [hentries] at h; cases h; rfl
  | ok es => rw [hentries] at h; cases h

end Packed

namespace Snapshot

/-- Reading the same packed list again may help. -/
def IsRetryable (payload : String) : Prop :=
  ∃ e, entriesOfPayload payload = .error e ∧ e.isPermanent = false

theorem isRetryable_iff (payload : String) : IsRetryable payload ↔
    RefusesCharacter (unpack payload) ∨ ∃ code, unpack payload = .error (.badFirstCode code) := by
  unfold IsRetryable entriesOfPayload
  cases hunpack : unpack payload with
  | error e =>
    cases e with
    | badCharacter c offset => exact iff_of_true ⟨_, rfl, rfl⟩ (.inl ⟨c, offset, rfl⟩)
    | badFirstCode code => exact iff_of_true ⟨_, rfl, rfl⟩ (.inr ⟨code, rfl⟩)
    | badReference code size =>
      refine iff_of_false ?_ ?_
      · rintro ⟨e, he, hretry⟩
        cases he
        cases hretry
      · rintro (⟨c, offset, he⟩ | ⟨code', he⟩) <;> cases he
  | ok text =>
    refine iff_of_false ?_ ?_
    · rintro ⟨e, he, hretry⟩
      -- whatever is wrong with the unpacked text will be wrong again
      change (entriesOfJson text).mapError .malformed = .error e at he
      cases hjson : entriesOfJson text with
      | error m =>
        rw [hjson] at he
        cases he
        cases hretry
      | ok entries =>
        rw [hjson] at he
        cases he
    · rintro (⟨c, offset, he⟩ | ⟨code', he⟩) <;> cases he

end Snapshot

namespace Packed

/-- A text that is refused for a character is refused for the first one outside the alphabet, with its
offset. If that character is not refused, it can be followed and even replaced by anything. Only for a
character or for its first code a list is read again, which means for its first two bits if there is no
such character. -/
theorem unpack_faults (s : String) :
    (∀ c offset, unpack s = .error (.badCharacter c offset) →
      FirstFault (restorePlus s.toList) c offset) ∧
    (∀ c offset, FirstFault (restorePlus s.toList) c offset → ¬RefusesCharacter (unpack s) →
      ∀ s' : String, (restorePlus s'.toList).take offset = (restorePlus s.toList).take offset →
        unpack s' = unpack s) ∧
    ((∀ c ∈ restorePlus s.toList, c ∈ alphabet) → ¬RefusesCharacter (unpack s)) ∧
    (Snapshot.IsRetryable s ↔
      RefusesCharacter (unpack s) ∨ ∃ code, unpack s = .error (.badFirstCode code)) ∧
    ((∀ c ∈ restorePlus s.toList, c ∈ alphabet) →
      (Snapshot.IsRetryable s ↔ (textBits s.toList).take 2 = [true, true])) := by
  have hlocated : ∀ c offset, unpack s = .error (.badCharacter c offset) →
      FirstFault (restorePlus s.toList) c offset := by
    intro c offset h
    rcases unpackEntries_error (unpackEntries_error_of_unpack h) with
      ⟨c', k, he, hfault⟩ | ⟨he, -⟩ | ⟨code, size, he⟩
    · cases he
      exact hfault
    · cases he
    · cases he
  have hclean : (∀ c ∈ restorePlus s.toList, c ∈ alphabet) → ¬RefusesCharacter (unpack s) := by
    rintro hall ⟨c, offset, h⟩
    have hfault := hlocated c offset h
    exact hfault.notMem (hall c (List.mem_of_getElem? hfault.get))
  refine ⟨hlocated, ?_, hclean, Snapshot.isRetryable_iff s, fun hall => ?_⟩
  · intro c offset hfault hs s' hsame
    have hentries : ¬RefusesCharacter (unpackEntries s.toList) := by
      rintro ⟨c', k, h⟩
      exact hs ⟨c', k, by rw [unpack_eq, h]; rfl⟩
    rw [unpack_eq, unpack_eq, unpackEntries_of_fault hfault hentries hsame]
  · rw [Snapshot.isRetryable_iff, or_iff_right (hclean hall)]
    constructor
    · rintro ⟨code, h⟩
      rcases unpackEntries_error (unpackEntries_error_of_unpack h) with
        ⟨c', k, he, -⟩ | ⟨-, hbits⟩ | ⟨code', size, he⟩
      · cases he
      · exact hbits
      · cases he
    · intro hbits
      cases hs : s.toList with
      | nil => rw [hs] at hbits; cases hbits
      | cons c rest =>
        rw [hs] at hall hbits
        refine ⟨3, ?_⟩
        rw [unpack_eq, hs, unpackEntries_of_ones (hall _ List.mem_cons_self) hbits]
        rfl

/-- A text whose first code is the end mark, with a character after it that does not belong to the
alphabet. The character is never loaded, so it makes no difference. -/
theorem unpack_faults_small : FirstFault (restorePlus "Q!".toList) '!' 1 ∧
    ¬RefusesCharacter (unpack "Q!") ∧ unpack "Q?!" = unpack "Q!" := by
  have hfault : FirstFault (restorePlus "Q!".toList) '!' 1 := by
    refine ⟨by decide, by decide, fun c hc => ?_⟩
    obtain rfl : c = 'Q' := List.mem_singleton.mp hc
    decide
  have htext : unpack "Q!" = .ok "" := by decide +kernel
  have hs : ¬RefusesCharacter (unpack "Q!") := by
    rintro ⟨c, offset, h⟩
    rw [htext] at h
    cases h
  exact ⟨hfault, hs, (unpack_faults "Q!").2.1 '!' 1 hfault hs "Q?!" (by decide)⟩

end Packed

end Harvest
