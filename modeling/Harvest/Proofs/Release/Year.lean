import Harvest.Proofs.Pattern.Texts
import Harvest.Release.Parse

/-!
# The year of a release

The pattern of years asks for one of two centuries and two more digits, so whatever a release name
is, its year is one of the twentieth or of the twenty-first century.

## Main results

* `Release.number_lt` — a number is bounded by the count of its digits
* `Release.year_parse_mem` — the year of a release
-/

namespace Harvest

namespace Pattern

/-- A match that is found was made where it begins. -/
theorem mem_ways_of_mem_findAllFrom {p : Pattern} {seen rest : List Char} {skip : Nat} {f : Found}
    (h : f ∈ p.findAllFrom seen skip rest) : f.way ∈ p.ways ⟨f.start, []⟩ := by
  induction rest generalizing seen skip with
  | nil =>
    cases skip with
    | succ skip => cases h
    | zero =>
      unfold findAllFrom at h
      obtain ⟨w, hw, rfl⟩ := Option.map_eq_some_iff.mp (Option.mem_toList.mp h)
      exact List.mem_of_head? hw
  | cons ch rest ih =>
    cases skip with
    | succ skip => exact ih h
    | zero =>
      unfold findAllFrom at h
      split at h
      next w hw =>
        rcases List.mem_cons.mp h with rfl | h
        · exact List.mem_of_head? hw
        · exact ih h
      next => exact ih h

end Pattern

/-! ### Numbers of few digits -/

namespace Release

open Pattern

theorem foldl_digits_lt {s : List Char} (hs : ∀ ch ∈ s, ch.isDigit) {n bound : Nat}
    (hn : n < bound) :
    s.foldl (fun n ch => n * 10 + (ch.toNat - '0'.toNat)) n < bound * 10 ^ s.length := by
  induction s generalizing n bound with
  | nil => simpa using hn
  | cons ch s ih =>
    obtain ⟨hch, hs⟩ := List.forall_mem_cons.mp hs
    have hdigit : ch.toNat - '0'.toNat < 10 := by
      simp only [Char.isDigit, Bool.and_eq_true, decide_eq_true_eq, UInt32.le_iff_toNat_le] at hch
      have hnine : ch.toNat ≤ 57 := hch.2
      have hzero : '0'.toNat = 48 := rfl
      omega
    have hnext : n * 10 + (ch.toNat - '0'.toNat) < bound * 10 := by omega
    have hrest := ih hs hnext
    rw [List.length_cons, Nat.pow_succ', ← Nat.mul_assoc]
    exact hrest

/-- A number is below the power of ten that has one digit more. -/
theorem number_lt {s : List Char} {n : Nat} (h : number? s = some n) : n < 10 ^ s.length := by
  unfold number? at h
  split at h
  next hdigits =>
    cases h
    rw [Bool.and_eq_true, List.all_eq_true] at hdigits
    simpa using foldl_digits_lt hdigits.2 Nat.one_pos
  next => cases h

theorem le_foldl_digits (s : List Char) (n : Nat) :
    n * 10 ^ s.length ≤ s.foldl (fun n ch => n * 10 + (ch.toNat - '0'.toNat)) n := by
  induction s generalizing n with
  | nil => simp
  | cons ch s ih =>
    have hrest := ih (n * 10 + (ch.toNat - '0'.toNat))
    have hnext : n * 10 * 10 ^ s.length ≤ (n * 10 + (ch.toNat - '0'.toNat)) * 10 ^ s.length :=
      Nat.mul_le_mul_right _ (Nat.le_add_right _ _)
    rw [List.length_cons, Nat.pow_succ', ← Nat.mul_assoc]
    exact Nat.le_trans hnext hrest

/-- A number that begins with the digits of another one. -/
theorem number_append {a s : List Char} {k n : Nat} (ha : number? a = some k)
    (h : number? (a ++ s) = some n) : k * 10 ^ s.length ≤ n ∧ n < (k + 1) * 10 ^ s.length := by
  unfold number? at ha h
  split at ha
  next =>
    split at h
    next hdigits =>
      cases ha
      cases h
      rw [Bool.and_eq_true, List.all_append, Bool.and_eq_true, List.all_eq_true,
        List.all_eq_true] at hdigits
      rw [List.foldl_append]
      exact ⟨le_foldl_digits s _, foldl_digits_lt hdigits.2.2 (Nat.lt_succ_self _)⟩
    next => cases h
  next => cases ha

/-- A year is written with the digits of its century and two more characters. -/
theorem exists_of_spells_year {t : List Char} (h : year.Spells t) :
    ∃ u, u.length = 2 ∧ (t = '1' :: '9' :: u ∨ t = '2' :: '0' :: u) := by
  have hcentury {c d : Char} {t : List Char}
      (h : (chain [one (.only c), one (.only d)] ++ digits 2 2).Spells t) :
      ∃ u, u.length = 2 ∧ t = c :: d :: u := by
    obtain ⟨_, u, rfl, ⟨_, _, rfl, ⟨x, rfl, hx⟩, ⟨y, rfl, hy⟩⟩, hrun⟩ := h
    obtain rfl : x = c := beq_iff_eq.mp hx
    obtain rfl : y = d := beq_iff_eq.mp hy
    exact ⟨u, Nat.le_antisymm (hrun.le_most 2 rfl) hrun.least_le, rfl⟩
  obtain ⟨_, _, rfl, ⟨_, _, rfl, rfl, h⟩, rfl⟩ := h
  rw [List.nil_append, List.append_nil]
  rcases h with h | h
  · obtain ⟨u, hu, rfl⟩ := hcentury (c := '1') (d := '9') h
    exact ⟨u, hu, .inl rfl⟩
  · obtain ⟨u, hu, rfl⟩ := hcentury (c := '2') (d := '0') h
    exact ⟨u, hu, .inr rfl⟩

/-- The year of a release is one of the twentieth or of the twenty-first century. -/
theorem year_parse_mem (name : String) {y : Int} (h : (parse name).year = some y) :
    1900 ≤ y ∧ y ≤ 2099 := by
  obtain ⟨n, hn, rfl⟩ := Option.map_eq_some_iff.mp h
  obtain ⟨f, hf, hnumber⟩ := Option.bind_eq_some_iff.mp hn
  have hspells : year.Spells f.text :=
    spells_since (mem_ways_of_mem_findAllFrom (List.mem_of_find?_eq_some hf))
  obtain ⟨u, hu, htext⟩ := exists_of_spells_year hspells
  obtain ⟨hlow, hhigh⟩ : 1900 ≤ n ∧ n < 2100 := by
    rcases htext with htext | htext
    · have hbounds := number_append (a := ['1', '9']) (k := 19) (by decide) (htext ▸ hnumber)
      rw [hu] at hbounds
      omega
    · have hbounds := number_append (a := ['2', '0']) (k := 20) (by decide) (htext ▸ hnumber)
      rw [hu] at hbounds
      omega
  constructor
  · exact Int.ofNat_le.mpr hlow
  · exact Int.ofNat_le.mpr (Nat.le_of_lt_succ hhigh)

end Release

end Harvest
