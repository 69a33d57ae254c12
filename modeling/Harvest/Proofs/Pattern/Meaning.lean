import Harvest.Proofs.Pattern.Texts
import Mathlib.Data.List.Basic

/-!
# What patterns match

A pattern that asks neither for word edges nor for the ends of the text takes the same texts
wherever it stands. Which texts these are, and what its groups hold then, is told by recursion on
the pattern, without regard to the order of preference. A search finds the first place of a text
where such a text stands.

## Main definitions

* `Pattern.isFree` — a pattern that does not look around
* `Pattern.Takes` — the texts that a pattern takes, with the texts of its groups

## Main results

* `Pattern.mem_ways_iff` — the ways to match are the texts that are taken
* `Pattern.takes_literal_iff` — a text as it is given
* `Pattern.findFrom_eq_some_iff` — what a search finds is the first match
-/

namespace Harvest

/-! ### The texts that a pattern takes -/

namespace Way

/-- The way that goes on after a text, with more groups. -/
def after (w : Way) (t : List Char) (gs : List (Nat × List Char)) (rest : List Char) : Way :=
  ⟨⟨t.reverse ++ w.cursor.seen, rest⟩, gs ++ w.groups⟩

theorem after_after (w : Way) (s t : List Char) (gs hs : List (Nat × List Char))
    (rest rest' : List Char) :
    (w.after s gs rest).after t hs rest' = w.after (s ++ t) (hs ++ gs) rest' := by
  simp [after]

end Way

namespace Pattern

/-- Whether a pattern does not look at what stands around its match, and has no run with an upper
bound. -/
def isFree : Pattern → Bool
  | empty | one _ => true
  | run _ _ most => most.isNone
  | seq p q | either p q => p.isFree && q.isFree
  | group _ p => p.isFree
  | wordEdge | start | stop => false

/-- A pattern that does not look around takes a text, and its groups hold the given texts then,
latest first. -/
def Takes : Pattern → List Char → List (Nat × List Char) → Prop
  | empty, t, gs => t = [] ∧ gs = []
  | one k, t, gs => (∃ c, t = [c] ∧ k.contains c = true) ∧ gs = []
  | run k least _, t, gs => (least ≤ t.length ∧ ∀ c ∈ t, k.contains c = true) ∧ gs = []
  | seq p q, t, gs => ∃ s hs u hu, t = s ++ u ∧ gs = hu ++ hs ∧ p.Takes s hs ∧ q.Takes u hu
  | either p q, t, gs => p.Takes t gs ∨ q.Takes t gs
  | group n p, t, gs => ∃ hs, gs = (n, t) :: hs ∧ p.Takes t hs
  | wordEdge, _, _ | start, _, _ | stop, _, _ => False

variable {p : Pattern} {v w : Way}

/-- The ways to match are the texts that are taken. -/
theorem mem_ways_iff (hp : p.isFree = true) : v ∈ p.ways w ↔
    ∃ t gs rest, p.Takes t gs ∧ w.cursor.rest = t ++ rest ∧ v = w.after t gs rest := by
  induction p generalizing v w with
  | empty =>
    rw [ways, List.mem_singleton]
    constructor
    · rintro rfl
      exact ⟨[], [], v.cursor.rest, ⟨rfl, rfl⟩, rfl, rfl⟩
    · rintro ⟨t, gs, rest, ⟨rfl, rfl⟩, rfl, rfl⟩
      rfl
  | one k =>
    obtain ⟨⟨seen, rest⟩, groups⟩ := w
    constructor
    · intro h
      unfold ways at h
      split at h
      · cases h
      next c rest' hrest =>
        split at h
        next hc =>
          rw [List.mem_singleton.mp h]
          exact ⟨[c], [], rest', ⟨⟨c, rfl, hc⟩, rfl⟩, hrest, rfl⟩
        · cases h
    · rintro ⟨t, gs, rest', ⟨⟨c, rfl, hc⟩, rfl⟩, hrest, rfl⟩
      obtain rfl : rest = c :: rest' := hrest
      simp [ways, hc, Way.after]
  | run k least most =>
    obtain rfl : most = none := Option.isNone_iff_eq_none.mp hp
    rw [ways, List.mem_map]
    constructor
    · rintro ⟨c, hc, rfl⟩
      obtain hnil | ⟨t, hrest, hseen, hleast, -, hall⟩ := Cursor.mem_runs_iff.mp hc
      · cases hnil
      · exact ⟨t, [], c.rest, ⟨⟨hleast, hall⟩, rfl⟩, hrest, by rw [Way.after, ← hseen]; rfl⟩
    · rintro ⟨t, gs, rest, ⟨⟨hleast, hall⟩, rfl⟩, hrest, rfl⟩
      have hrun : k.IsRun least none t :=
        ⟨hleast, fun m hm => absurd hm.symm (Option.some_ne_none m), hall⟩
      exact ⟨_, Cursor.mem_runs_iff.mpr (.inr ⟨t, hrest, rfl, hrun⟩), rfl⟩
  | seq p q ihp ihq =>
    obtain ⟨hp, hq⟩ := Bool.and_eq_true_iff.mp hp
    rw [ways, List.mem_flatMap]
    constructor
    · rintro ⟨u, hu, hv⟩
      obtain ⟨s, gs, rest, hs, hrest, rfl⟩ := (ihp hp).mp hu
      obtain ⟨t, hs', rest', ht, hrest', rfl⟩ := (ihq hq).mp hv
      have hwhole : w.cursor.rest = s ++ t ++ rest' := by
        rw [hrest, show rest = t ++ rest' from hrest', List.append_assoc]
      exact ⟨s ++ t, hs' ++ gs, rest', ⟨s, gs, t, hs', rfl, rfl, hs, ht⟩, hwhole,
        Way.after_after ..⟩
    · rintro ⟨_, _, rest, ⟨s, gs, t, hs', rfl, rfl, hs, ht⟩, hrest, rfl⟩
      rw [List.append_assoc] at hrest
      exact ⟨_, (ihp hp).mpr ⟨s, gs, _, hs, hrest, rfl⟩,
        (ihq hq).mpr ⟨t, hs', rest, ht, rfl, (Way.after_after ..).symm⟩⟩
  | either p q ihp ihq =>
    obtain ⟨hp, hq⟩ := Bool.and_eq_true_iff.mp hp
    rw [ways, List.mem_append, ihp hp, ihq hq]
    constructor
    · rintro (⟨t, gs, rest, h, hrest⟩ | ⟨t, gs, rest, h, hrest⟩)
      · exact ⟨t, gs, rest, .inl h, hrest⟩
      · exact ⟨t, gs, rest, .inr h, hrest⟩
    · rintro ⟨t, gs, rest, h | h, hrest⟩
      · exact .inl ⟨t, gs, rest, h, hrest⟩
      · exact .inr ⟨t, gs, rest, h, hrest⟩
  | group n p ih =>
    rw [ways, List.mem_map]
    -- what the group holds is what was taken between its ends
    have hsince (t : List Char) (gs : List (Nat × List Char)) (rest : List Char) :
        (w.after t gs rest).cursor.since w.cursor = t := Cursor.since_append ..
    constructor
    · rintro ⟨u, hu, rfl⟩
      obtain ⟨t, gs, rest, ht, hrest, rfl⟩ := (ih hp).mp hu
      exact ⟨t, (n, t) :: gs, rest, ⟨gs, rfl, ht⟩, hrest, by rw [hsince]; rfl⟩
    · rintro ⟨t, _, rest, ⟨gs, rfl, ht⟩, hrest, rfl⟩
      exact ⟨_, (ih hp).mpr ⟨t, gs, rest, ht, hrest, rfl⟩, by rw [hsince]; rfl⟩
  | wordEdge | start | stop => cases hp

/-! ### Texts as they are given -/

theorem isFree_chain {ps : List Pattern} (hps : ∀ p ∈ ps, p.isFree = true) :
    (chain ps).isFree = true := by
  induction ps with
  | nil => rfl
  | cons p ps ih =>
    obtain ⟨hp, hps⟩ := List.forall_mem_cons.mp hps
    cases ps with
    | nil => exact hp
    | cons q ps => exact Bool.and_eq_true_iff.mpr ⟨hp, ih hps⟩

theorem takes_chain_cons {p : Pattern} {ps : List Pattern} {t : List Char}
    {gs : List (Nat × List Char)} : (chain (p :: ps)).Takes t gs ↔ (p ++ chain ps).Takes t gs := by
  cases ps with
  | cons q ps => rfl
  | nil =>
    constructor
    · exact fun h => ⟨t, gs, [], [], (List.append_nil t).symm, rfl, h, rfl, rfl⟩
    · rintro ⟨s, hs, u, hu, rfl, rfl, h, rfl, rfl⟩
      rw [List.append_nil]
      exact h

theorem isFree_literal (s : String) : (literal s).isFree = true := by
  refine isFree_chain fun p hp => ?_
  obtain ⟨c, -, rfl⟩ := List.mem_map.mp hp
  rfl

/-- A text as it is given takes itself and nothing else. -/
theorem takes_literal_iff {s : String} {t : List Char} {gs : List (Nat × List Char)} :
    (literal s).Takes t gs ↔ t = s.toList ∧ gs = [] := by
  have hchain (cs : List Char) : ∀ t gs, (chain (cs.map fun c => one (.only c))).Takes t gs ↔
      t = cs ∧ gs = [] := by
    induction cs with
    | nil => exact fun t gs => Iff.rfl
    | cons c cs ih =>
      intro t gs
      rw [List.map_cons, takes_chain_cons]
      constructor
      · rintro ⟨s, hs, u, hu, rfl, rfl, ⟨⟨d, rfl, hd⟩, rfl⟩, hrest⟩
        obtain ⟨rfl, rfl⟩ := (ih u hu).mp hrest
        obtain rfl : d = c := beq_iff_eq.mp hd
        exact ⟨rfl, rfl⟩
      · rintro ⟨rfl, rfl⟩
        exact ⟨[c], [], cs, [], rfl, rfl, ⟨⟨c, rfl, beq_self_eq_true c⟩, rfl⟩,
          (ih cs []).mpr ⟨rfl, rfl⟩⟩
  exact hchain s.toList t gs

theorem takes_append_literal_iff {p : Pattern} {s : String} {t : List Char}
    {gs : List (Nat × List Char)} :
    (p ++ literal s).Takes t gs ↔ ∃ u, t = u ++ s.toList ∧ p.Takes u gs := by
  constructor
  · rintro ⟨u, hs, t, hs', rfl, rfl, hu, ht⟩
    obtain ⟨rfl, rfl⟩ := takes_literal_iff.mp ht
    exact ⟨u, rfl, hu⟩
  · rintro ⟨u, rfl, hu⟩
    exact ⟨u, gs, s.toList, [], rfl, rfl, hu, takes_literal_iff.mpr ⟨rfl, rfl⟩⟩

/-! ### The first match -/

theorem first_eq_none_iff {c : Cursor} : p.first c = none ↔ p.ways ⟨c, []⟩ = [] :=
  List.head?_eq_none_iff

/-- What a search finds is a match with none before it. -/
theorem findFrom_eq_some_iff {seen s : List Char} {f : Found} : p.findFrom seen s = some f ↔
    ∃ a b, s = a ++ b ∧ f.start = ⟨a.reverse ++ seen, b⟩ ∧ p.first f.start = some f.way ∧
      ∀ a' b', s = a' ++ b' → a'.length < a.length → p.first ⟨a'.reverse ++ seen, b'⟩ = none := by
  induction s generalizing seen with
  | nil =>
    rw [findFrom, Option.map_eq_some_iff]
    constructor
    · rintro ⟨w, hw, rfl⟩
      exact ⟨[], [], rfl, rfl, hw, fun a' b' _ hlt => absurd hlt (Nat.not_lt_zero _)⟩
    · rintro ⟨a, b, hs, hstart, hfirst, -⟩
      obtain ⟨rfl, rfl⟩ := List.append_eq_nil_iff.mp hs.symm
      obtain ⟨start, way⟩ := f
      obtain rfl : start = ⟨seen, []⟩ := hstart
      exact ⟨way, hfirst, rfl⟩
  | cons c s ih =>
    rw [findFrom]
    cases hhere : p.first ⟨seen, c :: s⟩ with
    | some w =>
      constructor
      · intro h
        cases h
        exact ⟨[], c :: s, rfl, rfl, hhere, fun a' b' _ hlt => absurd hlt (Nat.not_lt_zero _)⟩
      · rintro ⟨a, b, hs, hstart, hfirst, hbefore⟩
        cases a with
        | nil =>
          obtain ⟨start, way⟩ := f
          obtain rfl : c :: s = b := hs
          obtain rfl : start = ⟨seen, c :: s⟩ := hstart
          cases hhere.symm.trans hfirst
          rfl
        | cons d a =>
          have hnone := hbefore [] (c :: s) rfl (Nat.zero_lt_succ _)
          cases hhere.symm.trans hnone
    | none =>
      rw [ih]
      constructor
      · rintro ⟨a, b, rfl, hstart, hfirst, hbefore⟩
        refine ⟨c :: a, b, rfl, by simpa using hstart, hfirst, fun a' b' hs hlt => ?_⟩
        cases a' with
        | nil =>
          obtain rfl : c :: (a ++ b) = b' := hs
          exact hhere
        | cons d a' =>
          obtain ⟨rfl, htail⟩ := List.cons.inj hs
          have hnone := hbefore a' b' htail (Nat.lt_of_succ_lt_succ hlt)
          simpa using hnone
      · rintro ⟨a, b, hs, hstart, hfirst, hbefore⟩
        cases a with
        | nil =>
          obtain rfl : c :: s = b := hs
          rw [hstart] at hfirst
          cases hhere.symm.trans hfirst
        | cons d a =>
          obtain ⟨rfl, htail⟩ := List.cons.inj hs
          refine ⟨a, b, htail, by simpa using hstart, hfirst, fun a' b' hs' hlt => ?_⟩
          have hnone := hbefore (c :: a') b' (congrArg (c :: ·) hs') (Nat.succ_lt_succ hlt)
          simpa using hnone

end Pattern

end Harvest
