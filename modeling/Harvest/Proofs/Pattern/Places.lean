import Harvest.Proofs.Pattern.LetterCase
import Harvest.Proofs.Pattern.Meaning
import Mathlib.Data.List.Range

/-!
# Where patterns match

A search walks through a text from left to right, so what it finds is told by the places at which
some match begins: the leftmost match is at the first of them. The search for all matches leaves out
the places inside a match, and finds a match at every place if no match begins inside another one.
That is so for a pattern of word characters that begins at a word edge.

## Main definitions

* `CharClass.isWordy` — a class of word characters
* `Pattern.matchesAt` — whether a match begins at a place
* `Pattern.Apart` — no match begins inside another one
* `Pattern.startsAtEdge` — a pattern whose matches begin at a word edge
* `Pattern.headAll`, `Pattern.lastAll` — what the first and the last character of a match can be
* `Pattern.StandsIn` — a match of a pattern as a word of a text

## Main results

* `Pattern.map_offset_find`, `Pattern.map_offset_findAll` — the places that searches find
* `Pattern.apart_of_isWordy` — patterns whose matches lie apart
* `Pattern.occursIn_word_iff` — a pattern between word edges
-/

namespace Harvest

/-- The position behind some characters of a text. -/
def Cursor.after (s : List Char) (i : Nat) : Cursor := ⟨(s.take i).reverse, s.drop i⟩

theorem Cursor.after_length (seen rest : List Char) :
    after (seen.reverse ++ rest) seen.length = ⟨seen, rest⟩ := by
  rw [after, ← List.length_reverse, List.take_left, List.drop_left, List.reverse_reverse]

/-- Whether a class lists word characters, or is one of digits. -/
def CharClass.isWordy : CharClass → Bool
  | only c => Text.isWordChar c
  | caseless c => Text.isWordChar c && Text.isWordChar c.toUpper
  | digit => true
  | among cs => cs.all Text.isWordChar
  | outside _ | nonDigit | blank | plainAlphanumeric => false

theorem CharClass.isWordChar_of_contains {k : CharClass} (hk : k.isWordy = true) (ch : Char)
    (h : k.contains ch = true) : Text.isWordChar ch = true := by
  cases k with
  | only c =>
    obtain rfl : ch = c := beq_iff_eq.mp h
    exact hk
  | caseless c =>
    obtain ⟨hlow, hup⟩ := Bool.and_eq_true_iff.mp hk
    simp only [contains, sameLetter, Bool.or_eq_true, Bool.and_eq_true, beq_iff_eq] at h
    rcases h with ((rfl | rfl) | ⟨-, rfl⟩) | ⟨-, hkelvin⟩
    · exact hlow
    · exact hup
    · decide
    · obtain rfl : ch = Char.ofNat 0x212A := by rw [← hkelvin, Char.ofNat_toNat]
      decide +kernel
  | digit =>
    have hdigit : Text.isDecimalDigit ch = true := h
    simp [Text.isWordChar, hdigit]
  | among cs => exact List.all_eq_true.mp hk ch (contains_among.mp h)
  | outside _ | nonDigit | blank | plainAlphanumeric => cases hk

namespace Pattern

variable {p : Pattern} {s t seen rest : List Char} {v w : Way} {i j : Nat}

/-! ### Places -/

/-- Whether a match of the pattern begins behind some characters of a text. -/
def matchesAt (p : Pattern) (s : List Char) (i : Nat) : Bool :=
  i ≤ s.length && (p.first (.after s i)).isSome

theorem matchesAt_length (p : Pattern) (seen rest : List Char) :
    p.matchesAt (seen.reverse ++ rest) seen.length = (p.first ⟨seen, rest⟩).isSome := by
  have hle : seen.length ≤ (seen.reverse ++ rest).length := by simp
  rw [matchesAt, Cursor.after_length, decide_eq_true hle, Bool.true_and]

theorem le_length_of_matchesAt (h : p.matchesAt s i = true) : i ≤ s.length :=
  of_decide_eq_true (Bool.and_eq_true_iff.mp h).1

/-- A class matches where one of its characters stands. -/
theorem matchesAt_one (k : CharClass) (s : List Char) (i : Nat) :
    (one k).matchesAt s i = s[i]?.any k.contains := by
  have hfirst (seen rest : List Char) :
      ((one k).first ⟨seen, rest⟩).isSome = rest.head?.any k.contains := by
    cases rest with
    | nil => rfl
    | cons ch rest =>
      by_cases hch : k.contains ch = true
      · simp [first, ways, hch]
      · simp [first, ways, hch]
  rw [matchesAt, Cursor.after, hfirst, List.head?_drop]
  by_cases hi : i ≤ s.length
  · rw [decide_eq_true hi, Bool.true_and]
  · rw [decide_eq_false hi, Bool.false_and, List.getElem?_eq_none (by omega), Option.any_none]

/-- The leftmost match is at the first place. -/
theorem map_offset_findFrom (p : Pattern) (seen rest : List Char) :
    (p.findFrom seen rest).map Found.offset =
      (List.range' seen.length (rest.length + 1)).find? (p.matchesAt (seen.reverse ++ rest)) := by
  induction rest generalizing seen with
  | nil =>
    rw [findFrom, List.length_nil, List.range'_one, List.find?_singleton, matchesAt_length]
    cases p.first ⟨seen, []⟩ <;> rfl
  | cons ch rest ih =>
    rw [findFrom, List.range'_succ, List.find?_cons, matchesAt_length]
    cases p.first ⟨seen, ch :: rest⟩ with
    | some w => rfl
    | none =>
      have hnext := ih (ch :: seen)
      rw [List.reverse_cons, List.append_assoc] at hnext
      exact hnext

/-- The leftmost match is at the first place. -/
theorem map_offset_find (p : Pattern) (s : List Char) :
    (p.find s).map Found.offset = (List.range (s.length + 1)).find? (p.matchesAt s) := by
  rw [List.range_eq_range']
  exact p.map_offset_findFrom [] s

theorem offset_find_eq_some_iff : (p.find s).map Found.offset = some i ↔
    p.matchesAt s i = true ∧ ∀ j < i, p.matchesAt s j = false := by
  rw [map_offset_find, List.find?_range_eq_some]
  simp only [List.mem_range, Bool.not_eq_eq_eq_not, Bool.not_true]
  exact ⟨fun h => ⟨h.1, h.2.2⟩,
    fun h => ⟨h.1, Nat.lt_succ_of_le (le_length_of_matchesAt h.1), h.2⟩⟩

/-! ### All places -/

/-- No match in a text begins inside another one. -/
def Apart (p : Pattern) (s : List Char) : Prop :=
  ∀ i w, p.first (.after s i) = some w → ∀ j, i < j → j < w.cursor.offset → p.matchesAt s j = false

theorem map_offset_findAllFrom (p : Pattern) (seen : List Char) (skip : Nat) (rest : List Char)
    (hapart : p.Apart (seen.reverse ++ rest))
    (hskip : ∀ j, seen.length ≤ j → j < seen.length + skip →
      p.matchesAt (seen.reverse ++ rest) j = false) :
    (p.findAllFrom seen skip rest).map Found.offset =
      (List.range' seen.length (rest.length + 1)).filter (p.matchesAt (seen.reverse ++ rest)) := by
  induction rest generalizing seen skip with
  | nil =>
    rw [List.length_nil, List.range'_one]
    cases skip with
    | zero =>
      rw [findAllFrom, List.filter_singleton, matchesAt_length]
      cases p.first ⟨seen, []⟩ <;> rfl
    | succ skip =>
      rw [List.filter_singleton, hskip seen.length (Nat.le_refl _) (by omega)]
      rfl
  | cons ch rest ih =>
    have hnext := ih (ch :: seen)
    rw [List.reverse_cons, List.append_assoc, List.singleton_append, List.length_cons] at hnext
    rw [List.length_cons, List.range'_succ, List.filter_cons]
    cases skip with
    | succ skip =>
      -- inside a match, nothing begins
      rw [hskip seen.length (Nat.le_refl _) (by omega)]
      exact hnext skip hapart fun j hlow hhigh => hskip j (by omega) (by omega)
    | zero =>
      rw [matchesAt_length, findAllFrom]
      cases hw : p.first ⟨seen, ch :: rest⟩ with
      | none => exact hnext 0 hapart fun j hlow hhigh => by omega
      | some w =>
        -- the places that are skipped lie inside the match
        rw [← Cursor.after_length] at hw
        refine congrArg (_ :: ·) (hnext _ hapart fun j hlow hhigh => ?_)
        exact hapart seen.length w hw j (by omega) (by omega)

/-- If no match begins inside another one, the search for all matches finds one at every place. -/
theorem map_offset_findAll (h : p.Apart s) :
    (p.findAll s).map Found.offset = (List.range (s.length + 1)).filter (p.matchesAt s) := by
  rw [List.range_eq_range']
  exact p.map_offset_findAllFrom [] 0 s h fun j _ hhigh => absurd hhigh (Nat.not_lt_zero j)

/-! ### Patterns of word characters -/

theorem isSome_first_iff {c : Cursor} : (p.first c).isSome = true ↔ ∃ v, v ∈ p.ways ⟨c, []⟩ := by
  rw [first, List.isSome_head?]
  exact ⟨List.exists_mem_of_ne_nil _, fun ⟨_, hv⟩ => List.ne_nil_of_mem hv⟩

/-- Whether every match of the pattern begins at a word edge. -/
def startsAtEdge : Pattern → Bool
  | wordEdge => true
  | seq p _ => p.startsAtEdge
  | either p q => p.startsAtEdge && q.startsAtEdge
  | group _ p => p.startsAtEdge
  | empty | one _ | run _ _ _ | start | stop => false

theorem atWordEdge_of_mem_ways (hp : p.startsAtEdge = true) (h : v ∈ p.ways w) :
    w.cursor.atWordEdge = true := by
  induction p generalizing v w with
  | wordEdge =>
    unfold ways at h
    split at h
    next hedge => exact hedge
    · cases h
  | seq p q ihp _ =>
    obtain ⟨u, hu, -⟩ := List.mem_flatMap.mp h
    exact ihp hp hu
  | either p q ihp ihq =>
    obtain ⟨hp, hq⟩ := Bool.and_eq_true_iff.mp hp
    exact (List.mem_append.mp h).elim (ihp hp) (ihq hq)
  | group n p ih =>
    obtain ⟨u, hu, -⟩ := List.mem_map.mp h
    exact ih hp hu
  | empty | one _ | run _ _ _ | start | stop => cases hp

/-- There is no word edge between two word characters. -/
theorem not_atWordEdge_after {x y : Char} (hx : Text.isWordChar x = true)
    (hy : Text.isWordChar y = true) (before rest : List Char) :
    Cursor.atWordEdge ⟨x :: before, y :: rest⟩ = false := by
  simp [Cursor.atWordEdge, hx, hy]

/-- Matches that consist of word characters and begin at a word edge do not begin inside one
another. -/
theorem apart_of_isWordy (hedge : p.startsAtEdge = true) (hp : p.all CharClass.isWordy = true)
    (s : List Char) : p.Apart s := by
  intro i w hw j hij hj
  by_contra hmatch
  rw [Bool.not_eq_false, matchesAt, Bool.and_eq_true, decide_eq_true_eq, isSome_first_iff] at hmatch
  obtain ⟨hle, v, hv⟩ := hmatch
  have hafter : (Cursor.after s j).atWordEdge = true := atWordEdge_of_mem_ways hedge hv
  obtain ⟨t, ht, hrest, hseen⟩ := exists_spelled (List.mem_of_head? hw)
  have hlength : j < t.length + i := by
    have hoffset : w.cursor.seen = t.reverse ++ (s.take i).reverse := hseen
    rw [Cursor.offset, hoffset, List.length_append, List.length_reverse, List.length_reverse,
      List.length_take_of_le (by omega)] at hj
    exact hj
  -- every character of the match is a word character, also those around the place inside it
  have hword (m : Nat) (hlow : i ≤ m) (hhigh : m < t.length + i) (hm : m < s.length) :
      Text.isWordChar s[m] = true := by
    have hdrop : s.drop i = t ++ w.cursor.rest := hrest
    have hget : s[m]? = t[m - i]? := calc
      s[m]? = (s.drop i)[m - i]? := by rw [List.getElem?_drop, Nat.add_sub_of_le hlow]
      _ = t[m - i]? := by rw [hdrop, List.getElem?_append_left (by omega)]
    rw [List.getElem?_eq_getElem hm] at hget
    exact forall_mem_of_spells (fun _ => CharClass.isWordChar_of_contains) hp ht _
      (List.mem_of_getElem? hget.symm)
  -- so there is no word edge at that place, although a match begins there
  obtain ⟨k, rfl⟩ : ∃ k, j = k + 1 := ⟨j - 1, by omega⟩
  have hend : t.length + i ≤ s.length := by
    have hdrop := congrArg List.length hrest
    simp only [Cursor.after, List.length_drop, List.length_append] at hdrop
    omega
  rw [Cursor.after, List.take_succ_eq_append_getElem (by omega), List.reverse_append,
    List.drop_eq_getElem_cons (by omega)] at hafter
  have hleft := hword k (by omega) (by omega) (by omega)
  have hright := hword (k + 1) (by omega) hlength (by omega)
  cases hafter.symm.trans (not_atWordEdge_after hleft hright _ _)

/-! ### Words of a text -/

/-- What a pattern takes is one of the texts of its matches. -/
theorem spells_of_takes {gs : List (Nat × List Char)} (hp : p.isFree = true) (h : p.Takes t gs) :
    p.Spells t := by
  have hway := (mem_ways_iff (w := ⟨.ofList t, []⟩) hp).mpr
    ⟨t, gs, [], h, (List.append_nil t).symm, rfl⟩
  have hsince := spells_since hway
  rwa [Way.after, Cursor.since_append] at hsince

/-- Whether the class of the first character of a match has a property. -/
def headAll (P : CharClass → Bool) : Pattern → Bool
  | one k => P k
  | run k least _ => P k && 0 < least
  | seq p _ => p.headAll P
  | either p q => p.headAll P && q.headAll P
  | group _ p => p.headAll P
  | empty | wordEdge | start | stop => false

/-- Whether the class of the last character of a match has a property. -/
def lastAll (P : CharClass → Bool) : Pattern → Bool
  | one k => P k
  | run k least _ => P k && 0 < least
  | seq _ q => q.lastAll P
  | either p q => p.lastAll P && q.lastAll P
  | group _ p => p.lastAll P
  | empty | wordEdge | start | stop => false

section Ends

variable {P : CharClass → Bool} {Q : Char → Prop}

theorem exists_head_of_spells (hQ : ∀ k, P k = true → ∀ ch, k.contains ch = true → Q ch)
    (hp : p.headAll P = true) (h : p.Spells t) : ∃ ch rest, t = ch :: rest ∧ Q ch := by
  induction p generalizing t with
  | one k =>
    obtain ⟨ch, rfl, hch⟩ := h
    exact ⟨ch, [], rfl, hQ k hp ch hch⟩
  | run k least most =>
    obtain ⟨hk, hpos⟩ := Bool.and_eq_true_iff.mp hp
    obtain ⟨ch, rest, rfl⟩ := List.exists_cons_of_length_pos
      (Nat.lt_of_lt_of_le (of_decide_eq_true hpos) h.least_le)
    exact ⟨ch, rest, rfl, hQ k hk ch (h.chars ch List.mem_cons_self)⟩
  | seq p q ihp _ =>
    obtain ⟨a, b, rfl, ha, -⟩ := h
    obtain ⟨ch, rest, rfl, hch⟩ := ihp hp ha
    exact ⟨ch, rest ++ b, rfl, hch⟩
  | either p q ihp ihq =>
    obtain ⟨hp, hq⟩ := Bool.and_eq_true_iff.mp hp
    exact h.elim (ihp hp) (ihq hq)
  | group n p ih => exact ih hp h
  | empty | wordEdge | start | stop => cases hp

theorem exists_last_of_spells (hQ : ∀ k, P k = true → ∀ ch, k.contains ch = true → Q ch)
    (hp : p.lastAll P = true) (h : p.Spells t) : ∃ front ch, t = front ++ [ch] ∧ Q ch := by
  induction p generalizing t with
  | one k =>
    obtain ⟨ch, rfl, hch⟩ := h
    exact ⟨[], ch, rfl, hQ k hp ch hch⟩
  | run k least most =>
    obtain ⟨hk, hpos⟩ := Bool.and_eq_true_iff.mp hp
    have hne : t ≠ [] :=
      List.ne_nil_of_length_pos (Nat.lt_of_lt_of_le (of_decide_eq_true hpos) h.least_le)
    exact ⟨t.dropLast, t.getLast hne, (List.dropLast_append_getLast hne).symm,
      hQ k hk _ (h.chars _ (List.getLast_mem hne))⟩
  | seq p q _ ihq =>
    obtain ⟨a, b, rfl, -, hb⟩ := h
    obtain ⟨front, ch, rfl, hch⟩ := ihq hp hb
    exact ⟨a ++ front, ch, (List.append_assoc ..).symm, hch⟩
  | either p q ihp ihq =>
    obtain ⟨hp, hq⟩ := Bool.and_eq_true_iff.mp hp
    exact h.elim (ihp hp) (ihq hq)
  | group n p ih => exact ih hp h
  | empty | wordEdge | start | stop => cases hp

end Ends

/-- The text `t` is a match of the pattern, and word characters stand neither directly before it nor
directly behind it. -/
structure StandsIn (p : Pattern) (before t after : List Char) : Prop where
  takes : ∃ gs, p.Takes t gs
  before : ∀ ch ∈ before.getLast?, Text.isWordChar ch = false
  after : ∀ ch ∈ after.head?, Text.isWordChar ch = false

theorem mem_ways_wordEdge_iff :
    v ∈ wordEdge.ways w ↔ v = w ∧ w.cursor.atWordEdge = true := by
  rw [ways]
  split
  next hedge => rw [List.mem_singleton, and_iff_left hedge]
  next hedge => exact ⟨fun h => absurd h List.not_mem_nil, fun h => absurd h.2 hedge⟩

theorem mem_ways_word_iff : v ∈ (word p).ways w ↔
    w.cursor.atWordEdge = true ∧ v ∈ p.ways w ∧ v.cursor.atWordEdge = true := by
  simp only [word, ways_seq, List.mem_flatMap, mem_ways_wordEdge_iff]
  constructor
  · rintro ⟨u, ⟨_, ⟨rfl, hstart⟩, hu⟩, rfl, hend⟩
    exact ⟨hstart, hu, hend⟩
  · rintro ⟨hstart, hv, hend⟩
    exact ⟨v, ⟨w, ⟨rfl, hstart⟩, hv⟩, rfl, hend⟩

theorem not_any_isWordChar_iff {o : Option Char} :
    (o.any Text.isWordChar != true) = true ↔ ∀ ch ∈ o, Text.isWordChar ch = false := by
  cases o <;> simp

/-- In front of a word character, there is a word edge unless another one stands there. -/
theorem atWordEdge_cons_iff {before rest : List Char} {ch : Char}
    (hch : Text.isWordChar ch = true) : Cursor.atWordEdge ⟨before.reverse, ch :: rest⟩ = true ↔
      ∀ ch ∈ before.getLast?, Text.isWordChar ch = false := by
  rw [← not_any_isWordChar_iff, Cursor.atWordEdge, List.head?_reverse, List.head?_cons,
    Option.any_some, hch]

/-- Behind a word character, there is a word edge unless another one stands there. -/
theorem atWordEdge_snoc_iff {before after : List Char} {ch : Char}
    (hch : Text.isWordChar ch = true) : Cursor.atWordEdge ⟨ch :: before, after⟩ = true ↔
      ∀ ch ∈ after.head?, Text.isWordChar ch = false := by
  rw [← not_any_isWordChar_iff, Cursor.atWordEdge, List.head?_cons, Option.any_some, hch,
    bne_comm]

/-- A pattern whose matches begin and end with word characters occurs between word edges if one of
its texts stands there as a word. -/
theorem occursIn_word_iff (hp : p.isFree = true) (hhead : p.headAll CharClass.isWordy = true)
    (hlast : p.lastAll CharClass.isWordy = true) : (word p).occursIn s = true ↔
      ∃ before t after, s = before ++ t ++ after ∧ p.StandsIn before t after := by
  simp only [occursIn_iff, isSome_first_iff, mem_ways_word_iff, mem_ways_iff hp]
  -- the edges are told by what stands around the text
  have hedges {before t after : List Char} {gs : List (Nat × List Char)} (ht : p.Takes t gs) :
      (Cursor.atWordEdge ⟨before.reverse, t ++ after⟩ = true ↔
        ∀ ch ∈ before.getLast?, Text.isWordChar ch = false) ∧
      (Cursor.atWordEdge ⟨t.reverse ++ before.reverse, after⟩ = true ↔
        ∀ ch ∈ after.head?, Text.isWordChar ch = false) := by
    constructor
    · obtain ⟨ch, rest, rfl, hch⟩ := exists_head_of_spells
        (fun _ => CharClass.isWordChar_of_contains) hhead (spells_of_takes hp ht)
      exact atWordEdge_cons_iff hch
    · obtain ⟨front, ch, rfl, hch⟩ := exists_last_of_spells
        (fun _ => CharClass.isWordChar_of_contains) hlast (spells_of_takes hp ht)
      rw [List.reverse_append, List.reverse_singleton, List.append_assoc, List.singleton_append]
      exact atWordEdge_snoc_iff hch
  constructor
  · rintro ⟨before, _, rfl, v, hstart, ⟨t, gs, after, ht, rfl, rfl⟩, hend⟩
    exact ⟨before, t, after, (List.append_assoc ..).symm, ⟨gs, ht⟩, (hedges ht).1.mp hstart,
      (hedges ht).2.mp hend⟩
  · rintro ⟨before, t, after, rfl, ⟨gs, ht⟩, hbefore, hafter⟩
    exact ⟨before, t ++ after, List.append_assoc .., _, (hedges ht).1.mpr hbefore,
      ⟨t, gs, after, ht, rfl, rfl⟩, (hedges ht).2.mpr hafter⟩

end Pattern

end Harvest
