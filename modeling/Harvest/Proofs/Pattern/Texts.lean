import Harvest.Pattern.Search
import Mathlib.Algebra.Group.Nat.Defs

/-!
# The texts of matches

Whatever stands around a match, its text is put together from the parts of the pattern: a character
of a class, a run of such characters, a text after another one. So what is to be known of the text
of a match — its length, its characters — is told by recursion on the pattern.

## Main definitions

* `CharClass.IsRun` — a run of characters of a class
* `Pattern.Spells` — the texts that a match can have
* `Pattern.width` — how many characters a match has at most

## Main results

* `Cursor.mem_runs_iff` — the places behind runs
* `Pattern.exists_spelled` — every way to match goes on by such a text
* `Pattern.length_le_of_spells` — no text is wider than its pattern
-/

namespace Harvest

/-! ### Runs -/

/-- A run of characters of a class, their number between two bounds. -/
structure CharClass.IsRun (k : CharClass) (least : Nat) (most : Option Nat) (t : List Char) :
    Prop where
  least_le : least ≤ t.length
  le_most : ∀ m, most = some m → t.length ≤ m
  chars : ∀ ch ∈ t, k.contains ch = true

theorem CharClass.isRun_nil_iff {k : CharClass} {least : Nat} {most : Option Nat} :
    k.IsRun least most [] ↔ least = 0 :=
  ⟨fun h => Nat.le_zero.mp h.least_le,
    fun h => ⟨Nat.le_of_eq h, fun m _ => Nat.zero_le m, List.forall_mem_nil _⟩⟩

/-- With one character more, there is room for one less. -/
theorem CharClass.isRun_cons_iff {k : CharClass} {least : Nat} {most : Option Nat} {ch : Char}
    {t : List Char} : k.IsRun least most (ch :: t) ↔
      most ≠ some 0 ∧ k.contains ch = true ∧ k.IsRun (least - 1) (most.map (· - 1)) t := by
  constructor
  · rintro ⟨hleast, hmost, hclass⟩
    obtain ⟨hch, hclass⟩ := List.forall_mem_cons.mp hclass
    rw [List.length_cons] at hleast
    refine ⟨fun hzero => absurd (hmost 0 hzero) (Nat.not_succ_le_zero _), hch,
      Nat.sub_le_of_le_add hleast, fun m hm => ?_, hclass⟩
    obtain ⟨n, hn, rfl⟩ := Option.map_eq_some_iff.mp hm
    have hroom := hmost n hn
    rw [List.length_cons] at hroom
    omega
  · rintro ⟨hzero, hch, hleast, hmost, hclass⟩
    refine ⟨Nat.le_add_of_sub_le hleast, fun m hm => ?_, List.forall_mem_cons.mpr ⟨hch, hclass⟩⟩
    have hpos : m ≠ 0 := fun h => hzero (h ▸ hm)
    have hroom := hmost (m - 1) (by rw [hm]; rfl)
    rw [List.length_cons]
    omega

namespace Cursor

variable {k : CharClass} {least : Nat} {most : Option Nat} {seen rest : List Char}
  {found : List Cursor} {p : Cursor}

theorem mem_here_iff : p ∈ (if least = 0 then ⟨seen, rest⟩ :: found else found) ↔
    p ∈ found ∨ p = ⟨seen, rest⟩ ∧ least = 0 := by
  by_cases hleast : least = 0
  · rw [if_pos hleast, List.mem_cons, or_comm, and_iff_left hleast]
  · rw [if_neg hleast, or_iff_left fun h => hleast h.2]

/-- A run from a position to another one is empty or goes on behind the next character. -/
theorem exists_isRun_cons_iff {ch : Char} :
    (∃ t, ch :: rest = t ++ p.rest ∧ p.seen = t.reverse ++ seen ∧ k.IsRun least most t) ↔
      (p = ⟨seen, ch :: rest⟩ ∧ least = 0) ∨ (most ≠ some 0 ∧ k.contains ch = true ∧
        ∃ t, rest = t ++ p.rest ∧ p.seen = t.reverse ++ (ch :: seen) ∧
          k.IsRun (least - 1) (most.map (· - 1)) t) := by
  constructor
  · rintro ⟨t, hrest, hseen, hrun⟩
    cases t with
    | nil =>
      obtain ⟨pseen, prest⟩ := p
      cases hrest
      cases hseen
      exact .inl ⟨rfl, CharClass.isRun_nil_iff.mp hrun⟩
    | cons d t =>
      obtain ⟨rfl, htail⟩ := List.cons.inj hrest
      obtain ⟨hzero, hch, hrun⟩ := CharClass.isRun_cons_iff.mp hrun
      exact .inr ⟨hzero, hch, t, htail, by simpa using hseen, hrun⟩
  · rintro (⟨rfl, hleast⟩ | ⟨hzero, hch, t, hrest, hseen, hrun⟩)
    · exact ⟨[], rfl, rfl, CharClass.isRun_nil_iff.mpr hleast⟩
    · exact ⟨ch :: t, congrArg (ch :: ·) hrest, by simpa using hseen,
        CharClass.isRun_cons_iff.mpr ⟨hzero, hch, hrun⟩⟩

/-- The places behind the runs of a class. -/
theorem mem_runs_iff : p ∈ runs k least most seen rest found ↔ p ∈ found ∨
    ∃ t, rest = t ++ p.rest ∧ p.seen = t.reverse ++ seen ∧ k.IsRun least most t := by
  induction rest generalizing least most seen found with
  | nil =>
    -- nothing more can be taken
    have hempty : (∃ t, [] = t ++ p.rest ∧ p.seen = t.reverse ++ seen ∧ k.IsRun least most t) ↔
        p = ⟨seen, []⟩ ∧ least = 0 := by
      constructor
      · rintro ⟨t, hrest, hseen, hrun⟩
        obtain ⟨rfl, hnil⟩ := List.append_eq_nil_iff.mp hrest.symm
        obtain ⟨pseen, prest⟩ := p
        exact ⟨Cursor.mk.injEq .. ▸ ⟨hseen, hnil⟩, CharClass.isRun_nil_iff.mp hrun⟩
      · rintro ⟨rfl, hleast⟩
        exact ⟨[], rfl, rfl, CharClass.isRun_nil_iff.mpr hleast⟩
    rw [hempty, runs, mem_here_iff]
  | cons ch rest ih =>
    rw [exists_isRun_cons_iff, runs]
    by_cases hmost : most = some 0
    · rw [if_pos hmost, mem_here_iff]
      exact or_congr_right ⟨.inl, fun h => h.resolve_right fun h => h.1 hmost⟩
    · by_cases hch : k.contains ch = true
      · rw [if_neg hmost, if_pos hch, ih, mem_here_iff, or_assoc, and_iff_right hmost,
          and_iff_right hch]
      · rw [if_neg hmost, if_neg hch, mem_here_iff]
        exact or_congr_right ⟨.inl, fun h => h.resolve_right fun h => hch h.2.1⟩

end Cursor

/-! ### Texts of matches -/

namespace Pattern

/-- The texts that a match of a pattern can have, wherever it stands. -/
def Spells : Pattern → List Char → Prop
  | empty, t | wordEdge, t | start, t | stop, t => t = []
  | one k, t => ∃ ch, t = [ch] ∧ k.contains ch = true
  | run k least most, t => k.IsRun least most t
  | seq p q, t => ∃ a b, t = a ++ b ∧ p.Spells a ∧ q.Spells b
  | either p q, t => p.Spells t ∨ q.Spells t
  | group _ p, t => p.Spells t

variable {p : Pattern} {t : List Char} {v w : Way} {n : Nat}

/-- Every way to match goes on by a text that the pattern spells. -/
theorem exists_spelled (h : v ∈ p.ways w) : ∃ t, p.Spells t ∧
    w.cursor.rest = t ++ v.cursor.rest ∧ v.cursor.seen = t.reverse ++ w.cursor.seen := by
  induction p generalizing v w with
  | empty =>
    rw [List.mem_singleton.mp h]
    exact ⟨[], rfl, rfl, rfl⟩
  | one k =>
    unfold ways at h
    split at h
    · cases h
    next ch rest hrest =>
      split at h
      next hch =>
        rw [List.mem_singleton.mp h]
        exact ⟨[ch], ⟨ch, rfl, hch⟩, hrest, rfl⟩
      · cases h
  | run k least most =>
    obtain ⟨q, hq, rfl⟩ := List.mem_map.mp h
    rcases Cursor.mem_runs_iff.mp hq with hq | ⟨t, hrest, hseen, hrun⟩
    · cases hq
    · exact ⟨t, hrun, hrest, hseen⟩
  | seq p q ihp ihq =>
    obtain ⟨u, hu, hv⟩ := List.mem_flatMap.mp h
    obtain ⟨a, ha, harest, haseen⟩ := ihp hu
    obtain ⟨b, hb, hbrest, hbseen⟩ := ihq hv
    refine ⟨a ++ b, ⟨a, b, rfl, ha, hb⟩, ?_, ?_⟩
    · rw [harest, hbrest, List.append_assoc]
    · rw [hbseen, haseen, List.reverse_append, List.append_assoc]
  | either p q ihp ihq =>
    rcases List.mem_append.mp h with h | h
    · obtain ⟨t, ht, hplaces⟩ := ihp h
      exact ⟨t, .inl ht, hplaces⟩
    · obtain ⟨t, ht, hplaces⟩ := ihq h
      exact ⟨t, .inr ht, hplaces⟩
  | group k p ih =>
    obtain ⟨u, hu, rfl⟩ := List.mem_map.mp h
    have hinner := ih hu
    exact hinner
  | wordEdge | start | stop =>
    unfold ways at h
    split at h
    · rw [List.mem_singleton.mp h]
      exact ⟨[], rfl, rfl, rfl⟩
    · cases h

/-- The text between the ends of a match is one that the pattern spells. -/
theorem spells_since (h : v ∈ p.ways w) : p.Spells (v.cursor.since w.cursor) := by
  obtain ⟨t, ht, -, hseen⟩ := exists_spelled h
  have hsince : v.cursor.since w.cursor = t := by
    rw [← Cursor.since_append w.cursor.seen t v.cursor.rest w.cursor.rest, ← hseen]
  exact hsince ▸ ht

/-- How many characters a match has at most, if there is a bound. -/
def width : Pattern → Option Nat
  | one _ => some 1
  | run _ _ most => most
  | seq p q => do return (← p.width) + (← q.width)
  | either p q => do return max (← p.width) (← q.width)
  | group _ p => p.width
  | empty | wordEdge | start | stop => some 0

/-- No text is wider than its pattern. -/
theorem length_le_of_spells (hn : p.width = some n) (h : p.Spells t) : t.length ≤ n := by
  induction p generalizing n t with
  | one k =>
    cases hn
    obtain ⟨ch, rfl, -⟩ := h
    exact Nat.le_refl 1
  | run k least most => exact h.le_most n hn
  | seq p q ihp ihq =>
    simp only [width, bind, Option.bind_eq_some_iff, pure, Option.some.injEq] at hn
    obtain ⟨a, ha, b, hb, rfl⟩ := hn
    obtain ⟨s, u, rfl, hs, hu⟩ := h
    have hfirst := ihp ha hs
    have hsecond := ihq hb hu
    rw [List.length_append]
    omega
  | either p q ihp ihq =>
    simp only [width, bind, Option.bind_eq_some_iff, pure, Option.some.injEq] at hn
    obtain ⟨a, ha, b, hb, rfl⟩ := hn
    rcases h with h | h
    · have hleft := ihp ha h
      omega
    · have hright := ihq hb h
      omega
  | group k p ih => exact ih hn h
  | empty | wordEdge | start | stop =>
    obtain rfl : t = [] := h
    exact Nat.zero_le n

end Pattern

end Harvest
