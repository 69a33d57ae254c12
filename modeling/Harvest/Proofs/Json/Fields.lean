import Harvest.Json.Decode
import Harvest.Proofs.Json.Values

/-!
# Fields of objects

A record is read from an object whose keys can all be read, if none of its fields occurs twice. What
is found under a name is then the member with that key, so members with other keys can be left out.

## Main definitions

* `Json.membersWith` — the members of an object with a key
* `Json.Written.without` — an object without the members with certain keys

## Main results

* `Json.isSome_fieldsOfMembers?_iff` — the objects from which a record is read
* `Json.Written.get?_of_fields?` — a field is the member with its name
* `Json.Written.field?_without` — members with other keys can be left out
-/

namespace Harvest.Json

variable {names : List String} {name k : String} {found f : Fields} {key : StringText} {w : Written}
  {members : List (StringText × Written)} {m : StringText × Written}

/-! ### Members with a key -/

/-- The members of an object with a key. -/
def membersWith (name : String) (members : List (StringText × Written)) :
    List (StringText × Written) :=
  members.filter fun m => StringText.value? m.1 == some name

theorem membersWith_cons_self (hkey : StringText.value? key = some name) :
    membersWith name ((key, w) :: members) = (key, w) :: membersWith name members :=
  List.filter_cons_of_pos (by rw [hkey, beq_self_eq_true])

theorem membersWith_cons_of_ne (hkey : StringText.value? key = some k) (hne : name ≠ k) :
    membersWith name ((key, w) :: members) = membersWith name members :=
  List.filter_cons_of_neg (by rw [hkey, Option.some_beq_some]; simpa using hne.symm)

/-- How often a field occurs among what has been found and the members that are left. -/
def occurrences (name : String) (found : Fields) (members : List (StringText × Written)) : Nat :=
  (membersWith name members).length + (found.lookup name).toList.length

/-- A member that is found counts as before. -/
theorem occurrences_cons (hkey : StringText.value? key = some k) (hnew : found.lookup k = none)
    (name : String) : occurrences name ((k, w) :: found) members =
      occurrences name found ((key, w) :: members) := by
  unfold occurrences
  by_cases hname : name = k
  · rw [hname, membersWith_cons_self hkey, hnew, List.lookup_cons_self]
    rfl
  · rw [membersWith_cons_of_ne hkey hname, List.lookup_cons, beq_false_of_ne hname]

theorem occurrences_cons_of_not_mem (hkey : StringText.value? key = some k) (hk : k ∉ names)
    (hname : name ∈ names) :
    occurrences name found members = occurrences name found ((key, w) :: members) := by
  have hne : name ≠ k := fun heq => hk (heq ▸ hname)
  rw [occurrences, occurrences, membersWith_cons_of_ne hkey hne]

/-! ### Fields -/

/-- Fields are found exactly if all keys can be read and no field occurs twice. -/
theorem isSome_fieldsOfMembers?_iff : (fieldsOfMembers? names found members).isSome = true ↔
    (∀ m ∈ members, (StringText.value? m.1).isSome = true) ∧
      ∀ name ∈ names, occurrences name found members ≤ 1 := by
  induction members generalizing found with
  | nil => simp [fieldsOfMembers?, occurrences, membersWith]
  | cons m rest ih =>
    obtain ⟨key, w⟩ := m
    cases hkey : StringText.value? key with
    | none => simp [fieldsOfMembers?, hkey]
    | some k =>
      by_cases hk : k ∈ names
      · cases hfound : found.lookup k with
        | none =>
          -- the member is found
          have hstep : fieldsOfMembers? names found ((key, w) :: rest) =
              fieldsOfMembers? names ((k, w) :: found) rest := by
            simp [fieldsOfMembers?, hkey, hk, hfound]
          rw [hstep, ih, List.forall_mem_cons]
          simp only [hkey, Option.isSome_some, true_and, occurrences_cons hkey hfound]
        | some w' =>
          -- the field occurs a second time
          have hstep : fieldsOfMembers? names found ((key, w) :: rest) = none := by
            simp [fieldsOfMembers?, hkey, hk, hfound]
          rw [hstep]
          refine iff_of_false Bool.false_ne_true fun ⟨_, honce⟩ => ?_
          have htwo := honce k hk
          rw [occurrences, membersWith_cons_self hkey, hfound, List.length_cons] at htwo
          exact absurd htwo (by simp)
      · -- the member is skipped
        have hstep : fieldsOfMembers? names found ((key, w) :: rest) =
            fieldsOfMembers? names found rest := by
          simp [fieldsOfMembers?, hkey, hk]
        rw [hstep, ih, List.forall_mem_cons]
        simp only [hkey, Option.isSome_some, true_and]
        exact and_congr_right' (forall₂_congr fun name hname => by
          rw [occurrences_cons_of_not_mem hkey hk hname])

/-- A field that has been found is the first member with its name. -/
theorem lookup_of_fieldsOfMembers? (h : fieldsOfMembers? names found members = some f)
    (hname : name ∈ names) :
    f.lookup name = (found.lookup name).or ((membersWith name members).head?.map (·.2)) := by
  induction members generalizing found with
  | nil =>
    obtain rfl := Option.some.inj h
    simp [membersWith]
  | cons m rest ih =>
    obtain ⟨key, w⟩ := m
    obtain ⟨k, hkey, hrest⟩ := Option.bind_eq_some_iff.mp h
    by_cases hk : k ∈ names
    · rw [if_pos (by simpa using hk)] at hrest
      obtain ⟨hnew, hrest⟩ := Option.ite_none_left_eq_some.mp hrest
      rw [ih hrest, List.lookup_cons]
      by_cases heq : name = k
      · have hnone : found.lookup k = none := Option.not_isSome_iff_eq_none.mp hnew
        rw [heq, beq_self_eq_true, membersWith_cons_self hkey, hnone]
        rfl
      · rw [beq_false_of_ne heq, membersWith_cons_of_ne hkey heq]
    · rw [if_neg (by simpa using hk)] at hrest
      have hne : name ≠ k := fun heq => hk (heq ▸ hname)
      rw [ih hrest, membersWith_cons_of_ne hkey hne]

namespace Written

theorem field?_object (name : String) (members : List (StringText × Written)) :
    (object members).field? name = (membersWith name members).getLast?.map (·.2) := by
  rw [field?, membersWith, ← List.head?_filter, List.filter_reverse, List.head?_reverse]

theorem isSome_fields?_iff {listed : Nat} : ((object members).fields? names listed).isSome = true ↔
    (∀ m ∈ members, (StringText.value? m.1).isSome = true) ∧
      ∀ name ∈ names, (membersWith name members).length ≤ 1 :=
  isSome_fieldsOfMembers?_iff

/-- A field is the member with its name. -/
theorem get?_of_fields? {listed : Nat} (h : (object members).fields? names listed = some f)
    (hname : name ∈ names) : f.get? name = (object members).field? name := by
  have honce : (membersWith name members).length ≤ 1 :=
    (isSome_fields?_iff.mp (Option.isSome_of_eq_some h)).2 name hname
  rw [Fields.get?, lookup_of_fieldsOfMembers? h hname, field?_object]
  match membersWith name members, honce with
  | [], _ => rfl
  | [m], _ => rfl

/-! ### Members that are left out -/

/-- An object without the members with certain keys. -/
def without (names : List String) : Written → Written
  | object members =>
    object (members.filter fun m => !names.any fun name => StringText.value? m.1 == some name)
  | w => w

theorem membersWith_without (hname : name ∉ names) :
    membersWith name
      (members.filter fun m => !names.any fun name => StringText.value? m.1 == some name) =
        membersWith name members := by
  rw [membersWith, List.filter_filter]
  refine List.filter_congr fun m _ => ?_
  cases hkey : StringText.value? m.1 == some name with
  | false => rfl
  | true =>
    have hkept : (names.any fun other => StringText.value? m.1 == some other) = false := by
      refine List.any_eq_false.mpr fun other hother hsame => hname ?_
      obtain rfl := Option.some.inj ((beq_iff_eq.mp hkey).symm.trans (beq_iff_eq.mp hsame))
      exact hother
    rw [hkept]
    rfl

/-- Members with other keys can be left out. -/
theorem field?_without (hname : name ∉ names) (w : Written) :
    (w.without names).field? name = w.field? name := by
  cases w with
  | object members => rw [without, field?_object, field?_object, membersWith_without hname]
  | _ => rfl

/-- Fields that occur once can be put back. -/
theorem isSome_fields?_of_without {listed : Nat} {left : List String}
    (h : (((object members).without left).fields? names listed).isSome = true)
    (honce : ∀ name ∈ left, (membersWith name members).length ≤ 1) :
    ((object members).fields? names listed).isSome = true := by
  obtain ⟨hkeys, hother⟩ := isSome_fields?_iff.mp h
  refine isSome_fields?_iff.mpr ⟨fun m hm => ?_, fun name hname => ?_⟩
  · -- the key of a member that is left out is a name
    by_cases hleft : (left.any fun name => StringText.value? m.1 == some name) = true
    · obtain ⟨name, -, hkey⟩ := List.any_eq_true.mp hleft
      rw [beq_iff_eq.mp hkey]
      rfl
    · exact hkeys m (List.mem_filter.mpr ⟨hm, by simpa using hleft⟩)
  · by_cases hleft : name ∈ left
    · exact honce name hleft
    · rw [← membersWith_without hleft]
      exact hother name hname

/-! ### Lists -/

/-- A list is read item by item. -/
theorem list?_array_iff {α : Type} {read : Written → Option α} {items : List Written}
    {values : List α} : (array items).list? read = some values ↔
      List.Forall₂ (fun w value => read w = some value) items values :=
  mapM_eq_some_iff

theorem isSome_list?_array_iff {α : Type} {read : Written → Option α} {items : List Written} :
    ((array items).list? read).isSome = true ↔ ∀ w ∈ items, (read w).isSome = true :=
  isSome_mapM_iff

end Written

end Harvest.Json
