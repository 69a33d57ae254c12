import Harvest.Proofs.Release.Cuts
import Harvest.Proofs.Text.LetterCase

/-!
# Patterns without the case of ASCII letters

A pattern that asks for letters in either case matches a text in the same ways as the text with its
ASCII letters in lower case: at the same positions, with groups that differ in the case of such
letters only. Word edges are no obstacle, since both cases of a letter are word characters.

## Main definitions

* `Pattern.all` — whether all classes of a pattern have a property
* `CharClass.ignoresCase`, `CharClass.isUncased` — classes that do not tell the cases of a letter
  apart, and classes without letters
* `Cursor.lower`, `Way.lower`, `Found.lower` — positions and matches in the text in lower case

## Main results

* `Pattern.ways_lower` — the ways to match in lower case
* `Pattern.occursIn_lower`, `Pattern.find_lower`, `Pattern.findAll_lower`,
  `Pattern.eraseFirst_lower` — searching in lower case
* `Pattern.IsMatch.asciiLower_group` — a group without letters has no case
-/

namespace Harvest

open Text (asciiLower)

/-! ### Classes -/

namespace CharClass

/-- Whether a class does not tell the cases of a letter apart. -/
def ignoresCase : CharClass → Bool
  | only c => !c.isAlpha
  | caseless c => !c.isUpper
  | among cs | outside cs => cs.all fun c => !c.isAlpha
  | digit | nonDigit | blank | plainAlphanumeric => true

variable {k : CharClass}

theorem contains_toLower_of_all {cs : List Char} (h : cs.all (fun c => !c.isAlpha) = true)
    (ch : Char) : cs.contains ch.toLower = cs.contains ch := by
  have hiff : ch.toLower ∈ cs ↔ ch ∈ cs := by
    constructor
    · intro hch
      have hnot : ch.toLower.isAlpha = false := by simpa using List.all_eq_true.mp h _ hch
      rw [Text.isAlpha_toLower] at hnot
      rwa [Text.toLower_of_not_isAlpha hnot] at hch
    · intro hch
      have hnot : ch.isAlpha = false := by simpa using List.all_eq_true.mp h _ hch
      rwa [Text.toLower_of_not_isAlpha hnot]
  exact Bool.eq_iff_iff.mpr (by simpa using hiff)

theorem sameLetter_toLower {c : Char} (hc : c.isUpper = false) (ch : Char) :
    sameLetter c ch.toLower = sameLetter c ch := by
  have hletter (x : Char) : (x == c || x == c.toUpper) = (x.toLower == c) :=
    Bool.eq_iff_iff.mpr (by simpa using Text.eq_or_eq_toUpper_iff hc)
  -- the other characters that stand for a letter are none of the ASCII letters
  have hlong : (ch.toLower == 'ſ') = (ch == 'ſ') := Text.toLower_beq (by decide) ch
  have hkelvin : (ch.toLower.toNat == 0x212A) = (ch.toNat == 0x212A) :=
    Text.IgnoresCase.apply_toLower (f := fun x => x.toNat == 0x212A) (by decide) ch
  simp only [sameLetter, hletter, Text.toLower_toLower, hlong, hkelvin]

theorem contains_toLower (hk : k.ignoresCase = true) (ch : Char) :
    k.contains ch.toLower = k.contains ch := by
  cases k with
  | only c =>
    have hc : c.isAlpha = false := by simpa [ignoresCase] using hk
    exact Text.toLower_beq hc ch
  | caseless c => exact sameLetter_toLower (by simpa [ignoresCase] using hk) ch
  | among cs => exact contains_toLower_of_all hk ch
  | outside cs => exact congrArg (!·) (contains_toLower_of_all hk ch)
  | digit => exact Text.isDecimalDigit_toLower ch
  | nonDigit => exact congrArg (!·) (Text.isDecimalDigit_toLower ch)
  | blank => exact Text.isBlank_toLower ch
  | plainAlphanumeric => exact Text.isAlphanum_toLower ch

/-- Whether a class lists its characters and has no letters among them. -/
def isUncased : CharClass → Bool
  | only c => !c.isAlpha
  | among cs => cs.all fun c => !c.isAlpha
  | caseless _ | outside _ | digit | nonDigit | blank | plainAlphanumeric => false

theorem not_isAlpha_of_contains (hk : k.isUncased = true) {ch : Char}
    (h : k.contains ch = true) : ch.isAlpha = false := by
  cases k with
  | only c =>
    rw [beq_iff_eq.mp h]
    simpa [isUncased] using hk
  | among cs => simpa using List.all_eq_true.mp hk ch (contains_among.mp h)
  | caseless _ | outside _ | digit | nonDigit | blank | plainAlphanumeric => cases hk

end CharClass

/-! ### Positions and ways -/

namespace Cursor

/-- The position in the text in lower case. -/
def lower (p : Cursor) : Cursor := ⟨asciiLower p.seen, asciiLower p.rest⟩

@[simp] theorem offset_lower (p : Cursor) : p.lower.offset = p.offset := Text.length_asciiLower _

theorem since_lower (p q : Cursor) : p.lower.since q.lower = asciiLower (p.since q) := by
  simp only [since, offset_lower, Text.asciiLower_reverse, Text.asciiLower_take]
  rfl

theorem head?_any_asciiLower (s : List Char) :
    (asciiLower s).head?.any Text.isWordChar = s.head?.any Text.isWordChar := by
  cases s with
  | nil => rfl
  | cons ch s => exact Text.isWordChar_toLower ch

/-- Word edges stay where they are. -/
theorem atWordEdge_lower (p : Cursor) : p.lower.atWordEdge = p.atWordEdge :=
  congrArg₂ (· != ·) (head?_any_asciiLower p.seen) (head?_any_asciiLower p.rest)

theorem runs_lower {k : CharClass} (hk : k.ignoresCase = true) (least : Nat) (most : Option Nat)
    (seen rest : List Char) (found : List Cursor) :
    runs k least most (asciiLower seen) (asciiLower rest) (found.map lower) =
      (runs k least most seen rest found).map lower := by
  induction rest generalizing least most seen found with
  | nil =>
    by_cases hleast : least = 0
    · simp [runs, hleast, lower, asciiLower]
    · simp [runs, hleast, asciiLower]
  | cons ch rest ih =>
    have hhere : (if least = 0 then ⟨asciiLower seen, ch.toLower :: asciiLower rest⟩ ::
        found.map lower else found.map lower) =
          (if least = 0 then ⟨seen, ch :: rest⟩ :: found else found).map lower := by
      split <;> rfl
    simp only [Text.asciiLower_cons, runs, CharClass.contains_toLower hk, hhere]
    split
    · rfl
    · split
      · exact ih (least - 1) (most.map (· - 1)) (ch :: seen) _
      · rfl

end Cursor

/-- The way in the text in lower case. -/
def Way.lower (w : Way) : Way := ⟨w.cursor.lower, w.groups.map fun g => (g.1, asciiLower g.2)⟩

/-- The match in the text in lower case. -/
def Found.lower (f : Found) : Found := ⟨f.start.lower, f.way.lower⟩

namespace Found

@[simp] theorem offset_lower (f : Found) : f.lower.offset = f.offset := f.start.offset_lower

theorem text_lower (f : Found) : f.lower.text = asciiLower f.text :=
  f.way.cursor.since_lower f.start

theorem group?_lower (f : Found) (n : Nat) : f.lower.group? n = (f.group? n).map asciiLower := by
  have hlookup : ∀ gs : List (Nat × List Char),
      (gs.map fun g => (g.1, asciiLower g.2)).lookup n = (gs.lookup n).map asciiLower := by
    intro gs
    induction gs with
    | nil => rfl
    | cons g gs ih =>
      rw [List.map_cons, List.lookup_cons, List.lookup_cons]
      cases n == g.1 with
      | true => rfl
      | false => exact ih
  exact hlookup f.way.groups

theorem group_lower (f : Found) (n : Nat) : f.lower.group n = asciiLower (f.group n) := by
  rw [group, group?_lower, group]
  cases f.group? n <;> rfl

end Found

/-! ### Matching and searching -/

namespace Pattern

/-- Whether all classes of a pattern have a property. -/
def all (P : CharClass → Bool) : Pattern → Bool
  | one k | run k _ _ => P k
  | seq p q | either p q => p.all P && q.all P
  | group _ p => p.all P
  | empty | wordEdge | start | stop => true

/-- Whether a pattern does not tell the cases of a letter apart. -/
abbrev ignoresCase (p : Pattern) : Bool := p.all CharClass.ignoresCase

variable {p : Pattern}

/-- A pattern matches in the same ways in lower case. -/
theorem ways_lower (hp : p.ignoresCase = true) (w : Way) :
    p.ways w.lower = (p.ways w).map Way.lower := by
  induction p generalizing w with
  | empty => rfl
  | one k =>
    obtain ⟨⟨seen, rest⟩, groups⟩ := w
    cases rest with
    | nil => rfl
    | cons ch rest =>
      by_cases hch : k.contains ch = true
      · have hlower : k.contains ch.toLower = true := by rw [CharClass.contains_toLower hp, hch]
        simp [ways, Way.lower, Cursor.lower, Text.asciiLower_cons, hch, hlower]
      · have hlower : ¬k.contains ch.toLower = true := by rwa [CharClass.contains_toLower hp]
        simp [ways, Way.lower, Cursor.lower, Text.asciiLower_cons, hch, hlower]
  | run k least most =>
    have hruns : Cursor.runs k least most w.lower.cursor.seen w.lower.cursor.rest [] = _ :=
      Cursor.runs_lower hp least most w.cursor.seen w.cursor.rest []
    simp only [ways, hruns, List.map_map]
    rfl
  | seq p q ihp ihq =>
    obtain ⟨hp, hq⟩ := Bool.and_eq_true_iff.mp hp
    simp only [ways, ihp hp, List.flatMap_map, List.map_flatMap, ihq hq]
  | either p q ihp ihq =>
    obtain ⟨hp, hq⟩ := Bool.and_eq_true_iff.mp hp
    simp only [ways, ihp hp, ihq hq, List.map_append]
  | group n p ih =>
    simp only [ways, ih hp, List.map_map]
    refine List.map_congr_left fun v _ => ?_
    simp only [Function.comp, Way.lower, Cursor.since_lower, List.map_cons]
  | wordEdge =>
    have hedge : w.lower.cursor.atWordEdge = w.cursor.atWordEdge := w.cursor.atWordEdge_lower
    simp only [ways, hedge]
    split <;> rfl
  | start =>
    have hseen : w.lower.cursor.seen.isEmpty = w.cursor.seen.isEmpty := Text.isEmpty_asciiLower _
    simp only [ways, hseen]
    split <;> rfl
  | stop =>
    have hrest : w.lower.cursor.rest.isEmpty = w.cursor.rest.isEmpty := Text.isEmpty_asciiLower _
    simp only [ways, hrest]
    split <;> rfl

theorem first_lower (hp : p.ignoresCase = true) (c : Cursor) :
    p.first c.lower = (p.first c).map Way.lower := by
  have hways := ways_lower hp ⟨c, []⟩
  exact (congrArg List.head? hways).trans List.head?_map

theorem findFrom_lower (hp : p.ignoresCase = true) (seen rest : List Char) :
    p.findFrom (asciiLower seen) (asciiLower rest) = (p.findFrom seen rest).map Found.lower := by
  induction rest generalizing seen with
  | nil =>
    have hfirst : p.first ⟨asciiLower seen, []⟩ = _ := first_lower hp ⟨seen, []⟩
    rw [Text.asciiLower_nil, findFrom, findFrom, hfirst, Option.map_map, Option.map_map]
    rfl
  | cons ch rest ih =>
    have hfirst : p.first ⟨asciiLower seen, ch.toLower :: asciiLower rest⟩ = _ :=
      first_lower hp ⟨seen, ch :: rest⟩
    rw [Text.asciiLower_cons, findFrom, findFrom, hfirst]
    cases p.first ⟨seen, ch :: rest⟩ with
    | some w => rfl
    | none => exact ih (ch :: seen)

/-- The leftmost match is at the same place in lower case. -/
theorem find_lower (hp : p.ignoresCase = true) (s : List Char) :
    p.find (asciiLower s) = (p.find s).map Found.lower := findFrom_lower hp [] s

theorem occursIn_lower (hp : p.ignoresCase = true) (s : List Char) :
    p.occursIn (asciiLower s) = p.occursIn s := by
  rw [occursIn, find_lower hp, Option.isSome_map, occursIn]

theorem findAllFrom_lower (hp : p.ignoresCase = true) (seen : List Char) (skip : Nat)
    (rest : List Char) : p.findAllFrom (asciiLower seen) skip (asciiLower rest) =
      (p.findAllFrom seen skip rest).map Found.lower := by
  induction rest generalizing seen skip with
  | nil =>
    cases skip with
    | succ skip => rfl
    | zero =>
      have hfirst : p.first ⟨asciiLower seen, []⟩ = _ := first_lower hp ⟨seen, []⟩
      rw [Text.asciiLower_nil, findAllFrom, findAllFrom, hfirst]
      cases p.first ⟨seen, []⟩ <;> rfl
  | cons ch rest ih =>
    cases skip with
    | succ skip => exact ih (ch :: seen) skip
    | zero =>
      have hfirst : p.first ⟨asciiLower seen, ch.toLower :: asciiLower rest⟩ = _ :=
        first_lower hp ⟨seen, ch :: rest⟩
      rw [Text.asciiLower_cons, findAllFrom, findAllFrom, hfirst]
      cases p.first ⟨seen, ch :: rest⟩ with
      | none => exact ih (ch :: seen) 0
      | some w =>
        -- the match skips as many characters in lower case
        have hskip : w.lower.cursor.offset - (asciiLower seen).length - 1 =
            w.cursor.offset - seen.length - 1 := by
          rw [Text.length_asciiLower]
          exact congrArg (· - seen.length - 1) w.cursor.offset_lower
        have hrest := ih (ch :: seen) (w.cursor.offset - seen.length - 1)
        exact congrArg (_ :: ·) ((congrArg (p.findAllFrom _ · _) hskip).trans hrest)

/-- All matches are at the same places in lower case. -/
theorem findAll_lower (hp : p.ignoresCase = true) (s : List Char) :
    p.findAll (asciiLower s) = (p.findAll s).map Found.lower := findAllFrom_lower hp [] 0 s

theorem eraseFirst_lower (hp : p.ignoresCase = true) (s : List Char) :
    p.eraseFirst (asciiLower s) = asciiLower (p.eraseFirst s) := by
  rw [eraseFirst, find_lower hp, eraseFirst]
  cases p.find s with
  | none => rfl
  | some f =>
    rw [Text.asciiLower_append, Text.asciiLower_reverse]
    rfl

/-! ### The texts of groups -/

variable {P : CharClass → Bool} {Q : Char → Prop} {v w : Way} {n : Nat}

/-- The characters of a text belong to the classes of its pattern. -/
theorem forall_mem_of_spells (hQ : ∀ k, P k = true → ∀ ch, k.contains ch = true → Q ch)
    {t : List Char} (hp : p.all P = true) (h : p.Spells t) : ∀ ch ∈ t, Q ch := by
  induction p generalizing t with
  | one k =>
    obtain ⟨ch, rfl, hch⟩ := h
    exact List.forall_mem_singleton.mpr (hQ k hp ch hch)
  | run k least most => exact fun ch hch => hQ k hp ch (h.chars ch hch)
  | seq p q ihp ihq =>
    obtain ⟨hp, hq⟩ := Bool.and_eq_true_iff.mp hp
    obtain ⟨a, b, rfl, ha, hb⟩ := h
    exact List.forall_mem_append.mpr ⟨ihp hp ha, ihq hq hb⟩
  | either p q ihp ihq =>
    obtain ⟨hp, hq⟩ := Bool.and_eq_true_iff.mp hp
    exact h.elim (ihp hp) (ihq hq)
  | group n p ih => exact ih hp h
  | empty | wordEdge | start | stop =>
    obtain rfl : t = [] := h
    exact List.forall_mem_nil _

/-- Whether all classes of the group `n`, wherever it stands, have a property. -/
def groupAll (n : Nat) (P : CharClass → Bool) : Pattern → Bool
  | seq p q | either p q => p.groupAll n P && q.groupAll n P
  | group m p => (m != n || p.all P) && p.groupAll n P
  | empty | one _ | run _ _ _ | wordEdge | start | stop => true

theorem forall_mem_of_groupAll (hQ : ∀ k, P k = true → ∀ ch, k.contains ch = true → Q ch)
    {t : List Char} (hp : p.groupAll n P = true) (h : v ∈ p.ways w) (ht : (n, t) ∈ v.groups) :
    (n, t) ∈ w.groups ∨ ∀ ch ∈ t, Q ch := by
  induction p generalizing v w with
  | seq p q ihp ihq =>
    obtain ⟨hp, hq⟩ := Bool.and_eq_true_iff.mp hp
    obtain ⟨u, hu, hv⟩ := List.mem_flatMap.mp h
    exact (ihq hq hv ht).elim (ihp hp hu) .inr
  | either p q ihp ihq =>
    obtain ⟨hp, hq⟩ := Bool.and_eq_true_iff.mp hp
    exact (List.mem_append.mp h).elim (ihp hp · ht) (ihq hq · ht)
  | group m p ih =>
    obtain ⟨hhere, hp⟩ := Bool.and_eq_true_iff.mp hp
    obtain ⟨u, hu, rfl⟩ := List.mem_map.mp h
    -- the group that is closed here is the latest one
    rcases List.mem_cons.mp ht with heq | ht
    · cases heq
      rcases Bool.or_eq_true_iff.mp hhere with hne | hall
      · simp at hne
      · exact .inr (forall_mem_of_spells hQ hall (spells_since hu))
    · exact ih hp hu ht
  | empty | one _ | run _ _ _ | wordEdge | start | stop => exact .inl (groups_of_isPlain rfl h ▸ ht)

/-- The text of a group consists of characters of its classes. -/
theorem IsMatch.forall_mem_group {s : List Char} {f : Found} (h : p.IsMatch s f)
    (hQ : ∀ k, P k = true → ∀ ch, k.contains ch = true → Q ch) (hp : p.groupAll n P = true) :
    ∀ ch ∈ f.group n, Q ch := by
  unfold Found.group
  cases hlookup : f.group? n with
  | none => exact List.forall_mem_nil _
  | some t =>
    obtain ⟨before, after, hgroups, -⟩ := List.lookup_eq_some_iff.mp hlookup
    have ht : (n, t) ∈ f.way.groups := hgroups ▸ List.mem_append_right _ List.mem_cons_self
    exact (forall_mem_of_groupAll hQ hp h.way ht).resolve_left List.not_mem_nil

/-- A group without letters has no case. -/
theorem IsMatch.asciiLower_group {s : List Char} {f : Found} (h : p.IsMatch s f)
    (hp : p.groupAll n CharClass.isUncased = true) : asciiLower (f.group n) = f.group n :=
  Text.asciiLower_of_not_isAlpha
    (h.forall_mem_group (fun _ hk _ hch => CharClass.not_isAlpha_of_contains hk hch) hp)

end Pattern

end Harvest
