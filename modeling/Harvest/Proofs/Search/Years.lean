import Harvest.Proofs.Json.Integers
import Harvest.Proofs.Json.Values
import Harvest.Proofs.Release.Year
import Harvest.Proofs.Store.Catalog
import Harvest.Search.Result

/-!
# Years in an answer of the external search

Where a year is expected, an integer stands for itself, a text for the whole number that its first
four characters are, and everything else for no year. Years have 32 bits. The number that a text
stands for always fits. An integer is read if it has up to 64 bits, and is then cut: one that has
more than 32 bits becomes another year.

## Main definitions

* `Json.Written.Gives` — the number that stands where a year is expected
* `SearchResult.IsWide` — a number that is cut
* `SearchResult.IsYearOf` — the year that is read where a member is expected

## Main results

* `SearchResult.yearOfText_eq_some_iff` — the year that a text stands for
* `SearchResult.yearOfValue_eq_some_iff` — the year that a value stands for
* `SearchResult.isYearOf_of_year?` — the year that is read, and when it is the number that is given
-/

namespace Harvest

namespace Json.Written

/-- The text gives a number where a year is expected: it is an integer, or the first four characters
of a string stand for a whole number. -/
inductive Gives : Written → Int → Prop
  | integer {t : NumberText} {n : Int} : t.IsInteger n → Gives (.number t) n
  | text {t : StringText} {s : String} {n : Int} : StringText.value? t = some s →
    4 ≤ s.toList.length → IsWhole (s.toList.take 4) n → Gives (.string t) n

end Json.Written

namespace SearchResult

open Json (IsWhole Written)

variable {w : Written} {year : Option Int} {n : Int}

/-! ### Texts -/

theorem number_eq_some_iff {r : List Char} :
    (if !r.isEmpty && r.all Char.isDigit then
      some (Json.ofDigits (r.map Json.digitValue) : Int) else none) = some n ↔
        r ≠ [] ∧ (∀ c ∈ r, c.isDigit = true) ∧ Json.decimal r = n := by
  rw [Option.ite_none_right_eq_some, Bool.and_eq_true, List.all_eq_true, and_assoc,
    Option.some.injEq]
  refine and_congr_left' ?_
  cases r <;> simp

/-- A text stands for a year if its first four characters stand for a whole number. -/
theorem yearOfText_eq_some_iff {s : String} :
    yearOfText s = some n ↔ 4 ≤ s.toList.length ∧ IsWhole (s.toList.take 4) n := by
  unfold yearOfText
  dsimp only
  rw [Option.ite_none_left_eq_some, List.length_take]
  refine and_congr (by omega) ?_
  split
  next r heq =>
    rw [heq, Option.map_eq_some_iff]
    simp only [number_eq_some_iff]
    constructor
    · rintro ⟨_, ⟨hne, hdigits, rfl⟩, rfl⟩
      exact .minus hne hdigits
    · intro h
      cases h with
      | plain _ hdigits => exact absurd (hdigits '-' List.mem_cons_self) (by decide)
      | minus hne hdigits => exact ⟨_, ⟨hne, hdigits, rfl⟩, rfl⟩
  next r heq =>
    rw [heq, number_eq_some_iff]
    constructor
    · rintro ⟨hne, hdigits, rfl⟩
      exact .plus hne hdigits
    · intro h
      cases h with
      | plain _ hdigits => exact absurd (hdigits '+' List.mem_cons_self) (by decide)
      | plus hne hdigits => exact ⟨hne, hdigits, rfl⟩
  next hminus hplus =>
    rw [number_eq_some_iff]
    constructor
    · rintro ⟨hne, hdigits, rfl⟩
      exact .plain hne hdigits
    · intro h
      generalize s.toList.take 4 = four at h hminus hplus
      cases h with
      | plain hne hdigits => exact ⟨hne, hdigits, rfl⟩
      | plus => exact absurd rfl (hplus _)
      | minus => exact absurd rfl (hminus _)

/-- A whole number of up to four characters fits 32 bits. -/
theorem holdsSigned_of_isWhole {s : List Char} (h : IsWhole s n) (hlength : s.length ≤ 4) :
    Bits.holdsSigned 32 n = true := by
  have hcount : (Bits.count (32 - 1) : Int) = 2147483648 := rfl
  have hdecimal {digits : List Char} (hdigits : ∀ c ∈ digits, c.isDigit = true)
      (hle : digits.length ≤ 4) : Json.decimal digits < 10000 := by
    have hlt := Release.foldl_digits_lt hdigits Nat.one_pos
    have hpow : 10 ^ digits.length ≤ 10 ^ 4 := Nat.pow_le_pow_right (by decide) hle
    rw [Json.decimal, Json.ofDigits, List.foldl_map]
    rw [Nat.one_mul] at hlt
    exact Nat.lt_of_lt_of_le hlt hpow
  rw [Bits.holdsSigned_iff]
  cases h with
  | plain _ hdigits =>
    have hlt := hdecimal hdigits hlength
    omega
  | plus _ hdigits | minus _ hdigits =>
    have hlt := hdecimal hdigits (Nat.le_of_succ_le hlength)
    omega

/-- What is cut to 32 bits fits. -/
theorem holdsSigned_bmod (n : Int) : Bits.holdsSigned 32 (n.bmod (Bits.count 32)) = true := by
  have hcount : (Bits.count (32 - 1) : Int) = 2147483648 := rfl
  have hwhole : Bits.count 32 = 4294967296 := rfl
  have hlow := Int.le_bmod (x := n) (m := 4294967296) (by decide)
  have hhigh := Int.bmod_lt (x := n) (m := 4294967296) (by decide)
  rw [Bits.holdsSigned_iff, hwhole]
  omega

/-- Cutting a number to 32 bits leaves those numbers alone that fit. -/
theorem bmod_eq_self_iff : n.bmod (Bits.count 32) = n ↔ Bits.holdsSigned 32 n = true := by
  refine ⟨fun h => h ▸ holdsSigned_bmod n, fun h => ?_⟩
  have hcount : (Bits.count (32 - 1) : Int) = 2147483648 := rfl
  have hwhole : Bits.count 32 = 4294967296 := rfl
  rw [Bits.holdsSigned_iff] at h
  rw [hwhole]
  exact Int.bmod_eq_of_le (by omega) (by omega)

/-- A whole number of 64 bits that does not fit 32. -/
def IsWide (n : Int) : Prop := Bits.holdsSigned 64 n = true ∧ Bits.holdsSigned 32 n = false

theorem holdsSigned_of_fits (h : Bits.holdsSigned 32 n = true) : Bits.holdsSigned 64 n = true := by
  have hcount : (Bits.count (32 - 1) : Int) = 2147483648 := rfl
  have hcount' : (Bits.count (64 - 1) : Int) = 9223372036854775808 := rfl
  rw [Bits.holdsSigned_iff] at h ⊢
  omega

theorem yearOfNumber_eq_some_iff {y : Int} (hlow : -(Bits.count 63 : Int) ≤ n) :
    yearOfNumber n = some y ↔ Bits.holdsSigned 64 n = true ∧ n.bmod (Bits.count 32) = y := by
  rw [yearOfNumber, Option.ite_none_right_eq_some, Option.some.injEq, Bits.holdsSigned_iff,
    and_iff_right hlow]

/-! ### Values -/

/-- The year that is read from a value is the number that its text gives, cut to 32 bits, if it has
no more than 64. -/
theorem yearOfValue_eq_some_iff {depth : Nat} {v : Json.Value} {y : Int}
    (hv : w.value? depth = some v) : yearOfValue v = some y ↔
      ∃ n, w.Gives n ∧ Bits.holdsSigned 64 n = true ∧ n.bmod (Bits.count 32) = y := by
  -- neither side knows a year of a value that is no number and no string
  have hother (hyear : yearOfValue v = none) (hgives : ∀ n, ¬w.Gives n) : yearOfValue v = some y ↔
      ∃ n, w.Gives n ∧ Bits.holdsSigned 64 n = true ∧ n.bmod (Bits.count 32) = y := by
    rw [hyear]
    exact iff_of_false nofun fun ⟨n, h, _⟩ => hgives n h
  cases w with
  | null | bool =>
    cases hv
    exact hother rfl nofun
  | array items =>
    obtain ⟨-, vs, -, rfl⟩ := Written.value?_array_iff.mp hv
    exact hother rfl nofun
  | object members =>
    obtain ⟨-, ms, -, rfl⟩ := Written.value?_object_iff.mp hv
    exact hother rfl nofun
  | number t =>
    obtain ⟨x, hx, rfl⟩ := Option.map_eq_some_iff.mp hv
    -- an integer of 64 bits is read as it is, so a float stands for none
    have hinteger : ∀ n, Bits.holdsSigned 64 n = true → t.IsInteger n → x = .int n := by
      intro n hn ht
      have hword : (Bits.count 63 : Int) < Bits.count 64 := by decide
      obtain ⟨hlow, hhigh⟩ := (Bits.holdsSigned_iff 64 n).mp hn
      have hvalue := Json.NumberText.value?_eq_int_iff.mpr ⟨ht, hlow, hhigh.trans hword⟩
      exact Option.some.inj (hx.symm.trans hvalue)
    cases x with
    | int n =>
      obtain ⟨ht, hlow, -⟩ := Json.NumberText.value?_eq_int_iff.mp hx
      rw [yearOfValue, yearOfNumber_eq_some_iff hlow]
      constructor
      · exact fun h => ⟨n, .integer ht, h⟩
      · rintro ⟨n', hgives, h⟩
        cases hgives with
        | integer ht' => exact ht.eq ht' ▸ h
    | float negative m =>
      refine iff_of_false nofun ?_
      rintro ⟨n, hgives, hn, -⟩
      cases hgives with
      | integer ht => cases hinteger n hn ht
  | string t =>
    obtain ⟨s, hs, rfl⟩ := Option.map_eq_some_iff.mp hv
    rw [yearOfValue, yearOfText_eq_some_iff]
    constructor
    · rintro ⟨hlength, hwhole⟩
      have hfits := holdsSigned_of_isWhole hwhole (List.length_take_le 4 _)
      exact ⟨y, .text hs hlength hwhole, holdsSigned_of_fits hfits, bmod_eq_self_iff.mpr hfits⟩
    · rintro ⟨n, hgives, -, rfl⟩
      cases hgives with
      | text hs' hlength hwhole =>
        obtain rfl := Option.some.inj (hs.symm.trans hs')
        have hfits := holdsSigned_of_isWhole hwhole (List.length_take_le 4 _)
        rw [bmod_eq_self_iff.mpr hfits]
        exact ⟨hlength, hwhole⟩

end SearchResult

namespace Json.Written

variable {w : Written} {name : String} {n n' : Int}

/-- At most one number is given. -/
theorem Gives.eq (h : w.Gives n) (h' : w.Gives n') : n = n' := by
  cases h with
  | integer ht =>
    obtain ⟨ht'⟩ := h'
    exact ht.eq ht'
  | text hs hlength hwhole =>
    obtain _ | ⟨hs', hlength', hwhole'⟩ := h'
    obtain rfl := Option.some.inj (hs.symm.trans hs')
    have hyear := SearchResult.yearOfText_eq_some_iff.mpr ⟨hlength, hwhole⟩
    have hyear' := SearchResult.yearOfText_eq_some_iff.mpr ⟨hlength', hwhole'⟩
    exact Option.some.inj (hyear.symm.trans hyear')

/-- The member with a key gives a number. -/
def GivesAt (w : Written) (name : String) (n : Int) : Prop :=
  ∃ v, w.field? name = some v ∧ v.Gives n

theorem GivesAt.eq (h : w.GivesAt name n) (h' : w.GivesAt name n') : n = n' := by
  obtain ⟨v, hv, h⟩ := h
  obtain ⟨v', hv', h'⟩ := h'
  obtain rfl := Option.some.inj (hv.symm.trans hv')
  exact h.eq h'

end Json.Written

namespace SearchResult

open Json (Written)

variable {w : Written} {name : String} {year : Option Int}

/-- A year is the one that is read where a member is expected. -/
structure IsYearOf (w : Written) (name : String) (year : Option Int) : Prop where
  /-- It is the number that is given there, cut to 32 bits, if that has no more than 64. -/
  value : ∀ y, year = some y ↔
    ∃ n, w.GivesAt name n ∧ Bits.holdsSigned 64 n = true ∧ n.bmod (Bits.count 32) = y
  /-- It is none, or exactly the number that is given, unless that is too wide. -/
  exact : (year = none ∨ ∃ n, w.GivesAt name n ∧ year = some n) ↔
    ∀ n, w.GivesAt name n → ¬IsWide n

theorem isYearOf_of_value (h : ∀ y, year = some y ↔
    ∃ n, w.GivesAt name n ∧ Bits.holdsSigned 64 n = true ∧ n.bmod (Bits.count 32) = y) :
    IsYearOf w name year := by
  refine ⟨h, ?_, fun hnarrow => ?_⟩
  · -- a wide number is read, but as another one
    rintro hexact n hgives ⟨hlong, hwide⟩
    have hyear := (h _).mpr ⟨n, hgives, hlong, rfl⟩
    rcases hexact with hnone | ⟨n', hgives', hsome⟩
    · cases hyear.symm.trans hnone
    · obtain rfl := hgives.eq hgives'
      have hcut := Option.some.inj (hyear.symm.trans hsome)
      exact ne_true_of_eq_false hwide (bmod_eq_self_iff.mp hcut)
  · cases year with
    | none => exact .inl rfl
    | some y =>
      obtain ⟨n, hgives, hlong, rfl⟩ := (h y).mp rfl
      have hfits : Bits.holdsSigned 32 n = true :=
        eq_true_of_ne_false fun hwide => hnarrow n hgives ⟨hlong, hwide⟩
      exact .inr ⟨n, hgives, congrArg some (bmod_eq_self_iff.mpr hfits)⟩

/-- The year that is read from a member, or from none, is the year of that member. -/
theorem isYearOf_of_year? (h : (w.field? name).elim (some none) year? = some year) :
    IsYearOf w name year := by
  refine isYearOf_of_value fun y => ?_
  cases hv : w.field? name with
  | none =>
    rw [hv] at h
    cases h
    refine iff_of_false nofun ?_
    rintro ⟨n, ⟨v, hsome, -⟩, -⟩
    cases hv.symm.trans hsome
  | some v =>
    rw [hv] at h
    obtain ⟨x, hx, rfl⟩ := Option.map_eq_some_iff.mp h
    rw [yearOfValue_eq_some_iff hx]
    simp only [Written.GivesAt, hv, Option.some.injEq, exists_eq_left']

end SearchResult

end Harvest
