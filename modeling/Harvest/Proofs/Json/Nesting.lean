import Harvest.Proofs.Json.Values

/-!
# Which JSON texts have a value

A JSON text has a value unless its arrays and objects are nested too deeply, one of its numbers is
too large, or in one of its strings, the keys included, there is half a pair of surrogates.

## Main definitions

* `Json.Written.nesting` — how deep the arrays and objects of a text are nested
* `Json.Token.IsReadable` — a token that stands for something

## Main results

* `Json.Written.isSome_value?_iff` — the texts that have a value
-/

namespace Harvest.Json

/-- A token that stands for something: a number that is not too large, or a string in which
surrogates come in pairs. -/
def Token.IsReadable : Token → Prop
  | .number t => t.value?.isSome = true
  | .string t => (StringText.value? t).isSome = true
  | _ => True

namespace Written

mutual

/-- How deep the arrays and objects of a text are nested. -/
def nesting : Written → Nat
  | .null | .bool _ | .number _ | .string _ => 0
  | .array items => itemsNesting items + 1
  | .object members => membersNesting members + 1

/-- How deep the items of an array are nested at most. -/
def itemsNesting : List Written → Nat
  | [] => 0
  | w :: rest => max w.nesting (itemsNesting rest)

/-- How deep the members of an object are nested at most. -/
def membersNesting : List (StringText × Written) → Nat
  | [] => 0
  | m :: rest => max (memberNesting m) (membersNesting rest)

/-- How deep the value of a member is nested. -/
def memberNesting : StringText × Written → Nat
  | (_, w) => w.nesting

end

variable {w : Written} {items : List Written} {members : List (StringText × Written)} {depth : Nat}

theorem itemsNesting_le_iff : itemsNesting items ≤ depth ↔ ∀ w ∈ items, w.nesting ≤ depth := by
  induction items with
  | nil => simp [itemsNesting]
  | cons w rest ih => rw [itemsNesting, Nat.max_le, ih, List.forall_mem_cons]

theorem membersNesting_le_iff :
    membersNesting members ≤ depth ↔ ∀ m ∈ members, m.2.nesting ≤ depth := by
  induction members with
  | nil => simp [membersNesting]
  | cons m rest ih => rw [membersNesting, Nat.max_le, ih, List.forall_mem_cons, memberNesting]

/-! ### Tokens -/

section

variable {α : Type} {p : α → Prop} {sep : List α} {parts : List (List α)}

theorem forall_mem_intercalate_iff (hsep : ∀ a ∈ sep, p a) :
    (∀ a ∈ sep.intercalate parts, p a) ↔ ∀ part ∈ parts, ∀ a ∈ part, p a := by
  induction parts with
  | nil => simp
  | cons part rest ih =>
    cases rest with
    | nil => simp
    | cons part' rest =>
      rw [List.intercalate_cons_cons, List.forall_mem_append, List.forall_mem_append, ih,
        List.forall_mem_cons (a := part), and_iff_left hsep]

end

theorem forall_tokens_array_iff :
    (∀ t ∈ (array items).tokens, t.IsReadable) ↔
      ∀ w ∈ items, ∀ t ∈ w.tokens, t.IsReadable := by
  have hcomma : ∀ t ∈ [Token.comma], t.IsReadable := List.forall_mem_singleton.mpr trivial
  rw [tokens, itemTokens_eq_map, List.forall_mem_cons, List.forall_mem_append,
    List.forall_mem_singleton, forall_mem_intercalate_iff hcomma, List.forall_mem_map]
  simp [Token.IsReadable]

theorem forall_tokens_object_iff :
    (∀ t ∈ (object members).tokens, t.IsReadable) ↔
      ∀ m ∈ members, (StringText.value? m.1).isSome = true ∧ ∀ t ∈ m.2.tokens, t.IsReadable := by
  have hcomma : ∀ t ∈ [Token.comma], t.IsReadable := List.forall_mem_singleton.mpr trivial
  rw [tokens, membersTokens_eq_map, List.forall_mem_cons, List.forall_mem_append,
    List.forall_mem_singleton, forall_mem_intercalate_iff hcomma, List.forall_mem_map]
  simp [memberTokens, Token.IsReadable]

/-! ### Values -/

theorem isSome_memberValue?_iff {m : StringText × Written} : (memberValue? depth m).isSome = true ↔
    (StringText.value? m.1).isSome = true ∧ (m.2.value? depth).isSome = true := by
  obtain ⟨key, w⟩ := m
  cases hkey : StringText.value? key <;> cases hw : w.value? depth <;>
    simp [memberValue?, hkey, hw]

/-- A text has a value within a limit exactly if it is not nested deeper, and all its numbers and
strings can be read. -/
theorem isSome_value?_iff : (w.value? depth).isSome = true ↔
    w.nesting ≤ depth ∧ ∀ t ∈ w.tokens, t.IsReadable := by
  induction w using induct generalizing depth with
  | null | bool => simp [value?, nesting, tokens, Token.IsReadable]
  | number t => simp [value?, nesting, tokens, Token.IsReadable]
  | string t => simp [value?, nesting, tokens, Token.IsReadable]
  | array items ih =>
    rw [value?, forall_tokens_array_iff, nesting]
    cases depth with
    | zero => simp
    | succ depth =>
      rw [if_neg (Nat.succ_ne_zero depth), Nat.add_sub_cancel, Option.isSome_map,
        itemValues?_eq_mapM, isSome_mapM_iff, Nat.add_le_add_iff_right, itemsNesting_le_iff]
      exact (forall₂_congr fun w hw => ih w hw).trans forall₂_and
  | object members ih =>
    rw [value?, forall_tokens_object_iff, nesting]
    cases depth with
    | zero => simp
    | succ depth =>
      rw [if_neg (Nat.succ_ne_zero depth), Nat.add_sub_cancel, Option.isSome_map,
        memberValues?_eq_mapM, isSome_mapM_iff, Nat.add_le_add_iff_right, membersNesting_le_iff]
      simp only [isSome_memberValue?_iff]
      exact (forall₂_congr fun m hm => (and_congr_right' (ih m hm)).trans and_left_comm).trans
        forall₂_and

end Written

end Harvest.Json
