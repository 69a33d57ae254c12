import Harvest.Json.Value
import Harvest.Proofs.Json.Spelling
import Mathlib.Data.List.Forall2

/-!
# Values of JSON texts

The parts of a value are the values of the parts of its text, and how deep a part may be nested
matters only for whether it has a value. Of members with the same key the last one counts, in a text
as in a value.

## Main definitions

* `Json.StringText.plain` — a string that is written without escapes
* `Json.Written.IsMember` — a key and a value as they are written and read
* `Json.Value.LastMember` — the last member of a value with a key, as a relation
* `Json.Written.field?` — the last member of a text with a key

## Main results

* `Json.mapM_eq_some_iff`, `Json.isSome_mapM_iff` — what is made of a list, item by item
* `Json.Written.value?_mono` — a deeper limit changes no value
* `Json.Written.value?_array_iff`, `Json.Written.value?_object_iff` — values of arrays and objects
* `Json.Value.field?_eq_some_iff` — the member that is found under a key is the last one
* `Json.Written.field?_rel` — members of a text and of its value
-/

namespace Harvest.Json

/-! ### Lists -/

section

variable {α β : Type} {f : α → Option β} {r : α → β → Prop} {as : List α} {bs : List β} {b : β}

theorem exists_of_forall₂ (h : List.Forall₂ r as bs) (hb : b ∈ bs) : ∃ a ∈ as, r a b := by
  induction h with
  | nil => cases hb
  | @cons a b' as bs hab _ ih =>
    rcases List.mem_cons.mp hb with rfl | hb
    · exact ⟨a, List.mem_cons_self, hab⟩
    · obtain ⟨a', ha', hr⟩ := ih hb
      exact ⟨a', List.mem_cons_of_mem _ ha', hr⟩

/-- What may fail is made of a list item by item. -/
theorem mapM_eq_some_iff :
    as.mapM f = some bs ↔ List.Forall₂ (fun a b => f a = some b) as bs := by
  induction as generalizing bs with
  | nil => simp [eq_comm]
  | cons a rest ih =>
    simp only [List.mapM_cons, Option.bind_eq_bind, Option.bind_eq_some_iff, Option.pure_def,
      Option.some.injEq, List.forall₂_cons_left_iff, ih]
    constructor
    · rintro ⟨b, hb, bs, hbs, rfl⟩
      exact ⟨b, bs, hb, hbs, rfl⟩
    · rintro ⟨b, bs, hb, hbs, rfl⟩
      exact ⟨b, hb, bs, hbs, rfl⟩

/-- It fails for the list exactly if it fails for an item. -/
theorem isSome_mapM_iff : (as.mapM f).isSome = true ↔ ∀ a ∈ as, (f a).isSome = true := by
  induction as with
  | nil => simp
  | cons a rest ih =>
    rw [List.forall_mem_cons, ← ih]
    cases ha : f a <;> cases hrest : rest.mapM f <;> simp [ha, hrest]

end

/-! ### Strings -/

namespace StringText

/-- A string that is written without escapes. -/
def plain (s : String) : StringText := s.toList.map .char

theorem value?_plain (s : String) : value? (plain s) = some s := by
  have hchars (cs : List Char) : chars? (cs.map .char) = some cs := by
    induction cs with
    | nil => rfl
    | cons c rest ih => rw [List.map_cons, chars?, ih, Option.map_some]
  rw [value?, plain, hchars, Option.map_some, String.ofList_toList]

end StringText

namespace Written

variable {w : Written} {v : Value} {items : List Written} {vs : List Value}
  {members : List (StringText × Written)} {ms : List (String × Value)} {depth depth' : Nat}

/-! ### Parts -/

theorem itemValues?_eq_mapM (depth : Nat) (items : List Written) :
    itemValues? depth items = items.mapM (·.value? depth) := by
  induction items with
  | nil => rfl
  | cons w rest ih => rw [itemValues?, ih, List.mapM_cons]

theorem memberValues?_eq_mapM (depth : Nat) (members : List (StringText × Written)) :
    memberValues? depth members = members.mapM (memberValue? depth) := by
  induction members with
  | nil => rfl
  | cons m rest ih => rw [memberValues?, ih, List.mapM_cons]

/-- A member of a text has a key and a value. -/
def IsMember (depth : Nat) (m : StringText × Written) (m' : String × Value) : Prop :=
  StringText.value? m.1 = some m'.1 ∧ m.2.value? depth = some m'.2

theorem memberValue?_eq_some_iff {m : StringText × Written} {m' : String × Value} :
    memberValue? depth m = some m' ↔ IsMember depth m m' := by
  obtain ⟨key, w⟩ := m
  obtain ⟨k, v⟩ := m'
  simp [memberValue?, IsMember, Option.bind_eq_some_iff]

theorem value?_array_iff : (array items).value? depth = some v ↔ depth ≠ 0 ∧
    ∃ vs, List.Forall₂ (fun w v => w.value? (depth - 1) = some v) items vs ∧ .array vs = v := by
  simp only [value?, Option.ite_none_left_eq_some, Option.map_eq_some_iff, itemValues?_eq_mapM,
    mapM_eq_some_iff]

theorem value?_object_iff : (object members).value? depth = some v ↔ depth ≠ 0 ∧
    ∃ ms, List.Forall₂ (IsMember (depth - 1)) members ms ∧ .object ms = v := by
  simp only [value?, Option.ite_none_left_eq_some, Option.map_eq_some_iff, memberValues?_eq_mapM,
    mapM_eq_some_iff, memberValue?_eq_some_iff]

/-- A deeper limit changes no value. -/
theorem value?_mono (h : w.value? depth = some v) (hle : depth ≤ depth') :
    w.value? depth' = some v := by
  induction w using induct generalizing depth depth' v with
  | null | bool | number | string => exact h
  | array items ih =>
    obtain ⟨hdepth, vs, hvs, rfl⟩ := value?_array_iff.mp h
    refine value?_array_iff.mpr ⟨by omega, vs, ?_, rfl⟩
    exact ((List.forall₂_and_left ..).mpr ⟨ih, hvs⟩).imp fun w v ⟨hw, hv⟩ => hw hv (by omega)
  | object members ih =>
    obtain ⟨hdepth, ms, hms, rfl⟩ := value?_object_iff.mp h
    refine value?_object_iff.mpr ⟨by omega, ms, ?_, rfl⟩
    exact ((List.forall₂_and_left ..).mpr ⟨ih, hms⟩).imp fun m m' ⟨hm, hkey, hv⟩ =>
      ⟨hkey, hm hv (by omega)⟩

/-- A text whose value is an array is an array of texts of the items. -/
theorem eq_array_of_value? (h : w.value? depth = some (.array vs)) : depth ≠ 0 ∧
    ∃ items, w = array items ∧
      List.Forall₂ (fun w v => w.value? (depth - 1) = some v) items vs := by
  cases w with
  | null | bool => cases h
  | number | string =>
    obtain ⟨x, -, hx⟩ := Option.map_eq_some_iff.mp h
    cases hx
  | object members =>
    obtain ⟨-, ms, -, hms⟩ := value?_object_iff.mp h
    cases hms
  | array items =>
    obtain ⟨hdepth, vs', hvs, heq⟩ := value?_array_iff.mp h
    cases heq
    exact ⟨hdepth, items, rfl, hvs⟩

end Written

/-! ### Members by key -/

namespace Value

variable {v w : Value} {key : String} {members : List (String × Value)}

/-- The last member of an object with a key has a value. -/
def LastMember (v : Value) (key : String) (w : Value) : Prop :=
  ∃ before after, v = .object (before ++ (key, w) :: after) ∧ ∀ m ∈ after, m.1 ≠ key

theorem lookup_eq_some_iff : lookup key members = some w ↔
    ∃ before after, members = before ++ (key, w) :: after ∧ ∀ m ∈ after, m.1 ≠ key := by
  constructor
  · intro h
    obtain ⟨⟨k, w⟩, hfind, rfl⟩ := Option.map_eq_some_iff.mp h
    obtain ⟨hkey, before, after, hsplit, hbefore⟩ := List.find?_eq_some_iff_append.mp hfind
    obtain rfl : k = key := eq_of_beq hkey
    refine ⟨after.reverse, before.reverse, ?_, fun m hm => ?_⟩
    · rw [← List.reverse_reverse members, hsplit]
      simp
    · simpa using hbefore m (List.mem_reverse.mp hm)
  · rintro ⟨before, after, rfl, hafter⟩
    refine Option.map_eq_some_iff.mpr ⟨(key, w), List.find?_eq_some_iff_append.mpr
      ⟨beq_self_eq_true key, after.reverse, before.reverse, by simp, fun m hm => ?_⟩, rfl⟩
    simpa using hafter m (List.mem_reverse.mp hm)

theorem lookup_eq_none_iff : lookup key members = none ↔ ∀ m ∈ members, m.1 ≠ key := by
  rw [lookup, Option.map_eq_none_iff, List.find?_eq_none]
  simp

theorem field?_eq_some_iff : v.field? key = some w ↔ v.LastMember key w := by
  constructor
  · intro h
    match v, h with
    | .object members, h =>
      obtain ⟨before, after, rfl, hafter⟩ := lookup_eq_some_iff.mp h
      exact ⟨before, after, rfl, hafter⟩
  · rintro ⟨before, after, rfl, hafter⟩
    exact lookup_eq_some_iff.mpr ⟨before, after, rfl, hafter⟩

end Value

namespace Written

variable {w : Written} {v : Value} {depth : Nat}

/-- The last member of a text with a key. -/
def field? (w : Written) (key : String) : Option Written :=
  match w with
  | object members =>
    (members.reverse.find? fun m => StringText.value? m.1 == some key).map (·.2)
  | _ => none

/-- The members of a spelled text are spelled. -/
theorem Spelled.field? {key : String} {m : Written} (h : w.Spelled) (hm : w.field? key = some m) :
    m.Spelled := by
  match w, hm with
  | object members, hm =>
    obtain ⟨found, hfind, rfl⟩ := Option.map_eq_some_iff.mp hm
    exact h.member (List.mem_reverse.mp (List.mem_of_find?_eq_some hfind))

theorem find?_rel {key : String} {members : List (StringText × Written)}
    {ms : List (String × Value)} (h : List.Forall₂ (IsMember depth) members ms) :
    Option.Rel (fun w v => w.value? depth = some v)
      ((members.find? fun m => StringText.value? m.1 == some key).map (·.2))
      ((ms.find? fun m => m.1 == key).map (·.2)) := by
  induction h with
  | nil => exact .none
  | @cons m m' members ms hm _ ih =>
    rw [List.find?_cons, List.find?_cons, hm.1, Option.some_beq_some]
    cases hkey : m'.1 == key with
    | true => exact .some hm.2
    | false => exact ih

/-- The last member of a text with a key has as its value the last member of the value. -/
theorem field?_rel (h : w.value? depth = some v) (key : String) :
    Option.Rel (fun w v => w.value? depth = some v) (w.field? key) (v.field? key) := by
  cases w with
  | null | bool =>
    obtain rfl := Option.some.inj h
    exact .none
  | number | string =>
    obtain ⟨x, -, rfl⟩ := Option.map_eq_some_iff.mp h
    exact .none
  | array items =>
    obtain ⟨-, vs, -, rfl⟩ := value?_array_iff.mp h
    exact .none
  | object members =>
    obtain ⟨-, ms, hms, rfl⟩ := value?_object_iff.mp h
    exact find?_rel (List.forall₂_reverse_iff.mpr
      (hms.imp fun m m' ⟨hkey, hv⟩ => ⟨hkey, value?_mono hv (Nat.sub_le depth 1)⟩))

end Written

end Harvest.Json
