/-!
# First occurrences

## Main definitions

* `firstOfEachAfter`, `firstOfEach` — the first element of a list for every key

## Main results

* `key_notMem_of_mem_firstOfEachAfter` — keys seen before do not come again
* `nodup_map_firstOfEach` — every key comes once
* `firstOfEach_sublist` — elements keep their order
* `firstOfEach_eq_eraseDupsBy` — of elements with equal keys, the first one is left
* `firstOfEachAfter_of_nodup` — elements with different keys that were not seen before are left
* `firstOfEach_filter` — elements may be left out by their keys before or afterwards
-/

namespace Harvest

variable {α κ : Type} [BEq κ]

/-- The elements whose keys are neither in `seen` nor those of earlier elements. -/
def firstOfEachAfter (key : α → κ) (seen : List κ) : List α → List α
  | [] => []
  | a :: rest =>
    if seen.contains (key a) then firstOfEachAfter key seen rest
    else a :: firstOfEachAfter key (key a :: seen) rest

/-- The first element for every key, in order. -/
def firstOfEach (key : α → κ) (as : List α) : List α := firstOfEachAfter key [] as

/-- Elements keep their order. -/
theorem firstOfEachAfter_sublist (key : α → κ) (seen : List κ) (as : List α) :
    (firstOfEachAfter key seen as).Sublist as := by
  induction as generalizing seen with
  | nil => exact List.Sublist.slnil
  | cons a as ih =>
    unfold firstOfEachAfter
    split
    · exact (ih seen).cons a
    · exact (ih _).cons_cons a

theorem firstOfEach_sublist (key : α → κ) (as : List α) : (firstOfEach key as).Sublist as :=
  firstOfEachAfter_sublist key [] as

theorem eraseDupsBy_loop_eq (key : α → κ) (as bs : List α) :
    List.eraseDupsBy.loop (fun a b => key a == key b) as bs =
      bs.reverse ++ firstOfEachAfter key (bs.map key) as := by
  induction as generalizing bs with
  | nil => simp [List.eraseDupsBy.loop, firstOfEachAfter]
  | cons a as ih =>
    unfold List.eraseDupsBy.loop firstOfEachAfter
    have hseen : (bs.map key).contains (key a) = bs.any fun b => key a == key b := by
      rw [List.contains_eq_any_beq, List.any_map]
      rfl
    rw [hseen]
    cases bs.any fun b => key a == key b with
    | true => exact ih bs
    | false => simpa using ih (a :: bs)

/-- Of the elements with equal keys, the first one is left. -/
theorem firstOfEach_eq_eraseDupsBy (key : α → κ) (as : List α) :
    firstOfEach key as = as.eraseDupsBy fun a b => key a == key b :=
  (eraseDupsBy_loop_eq key as []).symm

variable [LawfulBEq κ]

/-- Keys seen before do not come again. -/
theorem key_notMem_of_mem_firstOfEachAfter {key : α → κ} {seen : List κ} {as : List α} {a : α}
    (h : a ∈ firstOfEachAfter key seen as) : key a ∉ seen := by
  induction as generalizing seen with
  | nil => simp [firstOfEachAfter] at h
  | cons b as ih =>
    unfold firstOfEachAfter at h
    split at h
    · exact ih h
    · rename_i hb
      rcases List.mem_cons.mp h with rfl | h
      · simpa using hb
      · exact fun hmem => ih h (List.mem_cons_of_mem _ hmem)

/-- Every key comes once. -/
theorem nodup_map_firstOfEachAfter (key : α → κ) (seen : List κ) (as : List α) :
    ((firstOfEachAfter key seen as).map key).Nodup := by
  induction as generalizing seen with
  | nil => exact List.nodup_nil
  | cons a as ih =>
    unfold firstOfEachAfter
    split
    · exact ih seen
    · refine List.nodup_cons.mpr ⟨fun hmem => ?_, ih _⟩
      obtain ⟨b, hb, hkey⟩ := List.mem_map.mp hmem
      exact key_notMem_of_mem_firstOfEachAfter hb (hkey ▸ List.mem_cons_self)

theorem nodup_map_firstOfEach (key : α → κ) (as : List α) :
    ((firstOfEach key as).map key).Nodup :=
  nodup_map_firstOfEachAfter key [] as

theorem firstOfEachAfter_congr (key : α → κ) {seen seen' : List κ}
    (h : ∀ k, k ∈ seen ↔ k ∈ seen') (as : List α) :
    firstOfEachAfter key seen as = firstOfEachAfter key seen' as := by
  induction as generalizing seen seen' with
  | nil => rfl
  | cons a as ih =>
    have hcontains : seen.contains (key a) = seen'.contains (key a) :=
      Bool.eq_iff_iff.mpr (by simpa using h (key a))
    unfold firstOfEachAfter
    have hnext : firstOfEachAfter key (key a :: seen) as =
        firstOfEachAfter key (key a :: seen') as :=
      ih fun k => by rw [List.mem_cons, List.mem_cons, h k]
    rw [hcontains, ih h, hnext]

/-- Every key that was not seen before is that of an element that is left. -/
theorem mem_map_firstOfEachAfter {key : α → κ} {seen : List κ} {as : List α} {k : κ} :
    k ∈ (firstOfEachAfter key seen as).map key ↔ k ∈ as.map key ∧ k ∉ seen := by
  induction as generalizing seen with
  | nil => simp [firstOfEachAfter]
  | cons a as ih =>
    unfold firstOfEachAfter
    split
    next hseen =>
      have hkey : key a ∈ seen := by simpa using hseen
      rw [ih, List.map_cons, List.mem_cons]
      refine and_congr_left fun hk => (or_iff_right ?_).symm
      rintro rfl
      exact hk hkey
    next hseen =>
      have hkey : key a ∉ seen := by simpa using hseen
      rw [List.map_cons, List.mem_cons, ih, List.map_cons, List.mem_cons, List.mem_cons]
      by_cases hk : k = key a
      · simp [hk, hkey]
      · simp [hk]

theorem mem_map_firstOfEach {key : α → κ} {as : List α} {k : κ} :
    k ∈ (firstOfEach key as).map key ↔ k ∈ as.map key :=
  mem_map_firstOfEachAfter.trans (and_iff_left List.not_mem_nil)

/-- Of elements with different keys, those are left whose keys were not seen before. -/
theorem firstOfEachAfter_of_nodup {key : α → κ} {as : List α} (h : (as.map key).Nodup)
    (seen : List κ) : firstOfEachAfter key seen as = as.filter fun a => !seen.contains (key a) := by
  induction as generalizing seen with
  | nil => rfl
  | cons a as ih =>
    obtain ⟨ha, h⟩ := List.nodup_cons.mp h
    unfold firstOfEachAfter
    rw [List.filter_cons]
    cases seen.contains (key a) with
    | true => exact ih h seen
    | false =>
      -- the key of the first element is none of the others
      have hrest : as.filter (fun b => !(key a :: seen).contains (key b)) =
          as.filter fun b => !seen.contains (key b) := by
        refine List.filter_congr fun b hb => ?_
        have hne : key b ≠ key a := fun heq => ha (heq ▸ List.mem_map_of_mem hb)
        simp [hne]
      exact congrArg (a :: ·) ((ih h _).trans hrest)

/-- Keys that are left out anyway may count as seen or not. -/
theorem firstOfEachAfter_filter {key : α → κ} {p : κ → Bool} {seen seen' : List κ}
    (h : ∀ k, p k = true → (k ∈ seen ↔ k ∈ seen')) (as : List α) :
    firstOfEachAfter key seen (as.filter (p <| key ·)) =
      (firstOfEachAfter key seen' as).filter (p <| key ·) := by
  induction as generalizing seen seen' with
  | nil => rfl
  | cons a as ih =>
    have hfilter : ∀ rest, (a :: rest).filter (p <| key ·) =
        if p (key a) then a :: rest.filter (p <| key ·) else rest.filter (p <| key ·) :=
      fun _ => List.filter_cons
    rw [hfilter]
    by_cases hp : p (key a) = true
    · have hcontains : seen.contains (key a) = seen'.contains (key a) :=
        Bool.eq_iff_iff.mpr (by simpa using h _ hp)
      have hnext : ∀ k, p k = true → (k ∈ key a :: seen ↔ k ∈ key a :: seen') := fun k hk => by
        rw [List.mem_cons, List.mem_cons, h k hk]
      rw [if_pos hp]
      unfold firstOfEachAfter
      rw [hcontains, ih h, ih hnext]
      split
      · rfl
      · rw [hfilter, if_pos hp]
    · rw [if_neg hp]
      conv => rhs; unfold firstOfEachAfter
      split
      · exact ih h
      · -- the key of the element that is left out may count as seen
        rw [hfilter, if_neg hp]
        refine ih fun k hk => (h k hk).trans (List.mem_cons.trans (or_iff_right ?_)).symm
        rintro rfl
        exact hp hk

/-- Elements may be left out by their keys before or afterwards. -/
theorem firstOfEach_filter (key : α → κ) (p : κ → Bool) (as : List α) :
    firstOfEach key (as.filter (p <| key ·)) = (firstOfEach key as).filter (p <| key ·) :=
  firstOfEachAfter_filter (fun _ _ => Iff.rfl) as

end Harvest
