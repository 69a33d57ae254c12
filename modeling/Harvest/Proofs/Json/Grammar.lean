import Harvest.Json.Parser
import Mathlib.Data.List.Basic

/-!
# The grammar of JSON texts

Every JSON text has one sequence of tokens: brackets around the parts of an array or object, with
commas between them and a colon behind every key. The machine that reads tokens accepts these
sequences and no others, because what it has read at any moment can be told from its state: each
open frame has its opening bracket and its finished parts behind it.

## Main definitions

* `Json.Written.tokens` — the tokens of a text
* `Json.Frame.opening`, `Json.openings` — the tokens of what is open
* `Json.Machine.HasRead` — the tokens that the machine has read

## Main results

* `Json.Written.induct` — induction on the parts of a text
* `Json.Machine.HasRead.step` — what the machine has read after one more token
* `Json.Machine.foldlM_enclosed` — how the machine reads an array or object
* `Json.Written.foldlM_tokens` — the machine reads a text by its tokens
* `Json.Written.parse?_eq_some_iff` — a string holds a text exactly if it has the tokens of the text
-/

namespace Harvest.Json

namespace Written

/-! ### Induction on the parts of a text -/

section

variable {motive : Written → Prop}
  (null : motive .null) (bool : ∀ b, motive (.bool b)) (number : ∀ t, motive (.number t))
  (string : ∀ t, motive (.string t))
  (array : ∀ items, (∀ w ∈ items, motive w) → motive (.array items))
  (object : ∀ members, (∀ m ∈ members, motive m.2) → motive (.object members))

include null bool number string array object

/-- A property of texts that an array or object has if its parts have it. -/
@[elab_as_elim]
theorem induct (w : Written) : motive w :=
  @Written.rec motive (fun items => ∀ w ∈ items, motive w)
    (fun members => ∀ m ∈ members, motive m.2) (fun m => motive m.2)
    null bool number string array object
    (by simp) (fun _ _ hw hrest => List.forall_mem_cons.mpr ⟨hw, hrest⟩)
    (by simp) (fun _ _ hm hrest => List.forall_mem_cons.mpr ⟨hm, hrest⟩)
    (fun _ _ hw => hw) w

end

/-! ### The tokens of a text -/

mutual

/-- The tokens of a text. -/
def tokens : Written → List Token
  | .null => [.null]
  | .bool b => [.bool b]
  | .number t => [.number t]
  | .string t => [.string t]
  | .array items => .openArray :: ([.comma].intercalate (itemTokens items) ++ [.closeArray])
  | .object members =>
    .openObject :: ([.comma].intercalate (membersTokens members) ++ [.closeObject])

/-- The tokens of each item of an array. -/
def itemTokens : List Written → List (List Token)
  | [] => []
  | w :: rest => w.tokens :: itemTokens rest

/-- The tokens of each member of an object. -/
def membersTokens : List (StringText × Written) → List (List Token)
  | [] => []
  | m :: rest => memberTokens m :: membersTokens rest

/-- The tokens of a member of an object. -/
def memberTokens : StringText × Written → List Token
  | (key, w) => .string key :: .colon :: w.tokens

end

theorem itemTokens_eq_map (items : List Written) : itemTokens items = items.map tokens := by
  induction items with
  | nil => rfl
  | cons w rest ih => rw [itemTokens, ih, List.map_cons]

theorem membersTokens_eq_map (members : List (StringText × Written)) :
    membersTokens members = members.map memberTokens := by
  induction members with
  | nil => rfl
  | cons m rest ih => rw [membersTokens, ih, List.map_cons]

/-- All parts of a list but the last have a separator behind them. -/
theorem intercalate_concat {α : Type} (sep : List α) (parts : List (List α)) (last : List α) :
    sep.intercalate (parts ++ [last]) = parts.flatMap (· ++ sep) ++ last := by
  induction parts with
  | nil => rw [List.nil_append, List.intercalate_singleton, List.flatMap_nil, List.nil_append]
  | cons part rest ih =>
    rw [List.cons_append, List.intercalate_cons_of_ne_nil (by simp), ih, List.flatMap_cons,
      List.append_assoc, List.append_assoc, List.append_assoc]

theorem tokens_array_concat (items : List Written) (w : Written) :
    (array (items ++ [w])).tokens =
      .openArray :: (items.flatMap (fun w => w.tokens ++ [.comma]) ++ w.tokens ++
        [.closeArray]) := by
  rw [tokens, itemTokens_eq_map, List.map_append, List.map_singleton, intercalate_concat,
    List.flatMap_map]

theorem tokens_object_concat (members : List (StringText × Written)) (m : StringText × Written) :
    (object (members ++ [m])).tokens =
      .openObject :: (members.flatMap (fun m => memberTokens m ++ [.comma]) ++ memberTokens m ++
        [.closeObject]) := by
  rw [tokens, membersTokens_eq_map, List.map_append, List.map_singleton, intercalate_concat,
    List.flatMap_map]

end Written

/-! ### What the machine has read -/

/-- The tokens of an open array or object in front of the part that is being read. -/
def Frame.opening : Frame → List Token
  | .array items => .openArray :: items.reverse.flatMap fun w => w.tokens ++ [.comma]
  | .object members =>
    .openObject :: members.reverse.flatMap fun m => Written.memberTokens m ++ [.comma]
  | .member members key =>
    .openObject :: (members.reverse.flatMap fun m => Written.memberTokens m ++ [.comma]) ++
      [.string key, .colon]

/-- The tokens of all open arrays and objects, innermost first. -/
def openings : List Frame → List Token
  | [] => []
  | f :: rest => openings rest ++ f.opening

section

variable {w : Written} {m : StringText × Written} {key : StringText} {items : List Written}
  {members : List (StringText × Written)} {rest : List Frame}

theorem openings_array_cons : openings (.array (w :: items) :: rest) =
    openings (.array items :: rest) ++ w.tokens ++ [.comma] := by
  simp only [openings, Frame.opening, List.reverse_cons, List.flatMap_append, List.flatMap_cons,
    List.flatMap_nil, List.append_nil, List.append_assoc, List.cons_append]

theorem openings_object_cons : openings (.object (m :: members) :: rest) =
    openings (.object members :: rest) ++ Written.memberTokens m ++ [.comma] := by
  simp only [openings, Frame.opening, List.reverse_cons, List.flatMap_append, List.flatMap_cons,
    List.flatMap_nil, List.append_nil, List.append_assoc, List.cons_append]

theorem openings_member : openings (.member members key :: rest) =
    openings (.object members :: rest) ++ [.string key] ++ [.colon] := by
  simp only [openings, Frame.opening, List.append_assoc, List.cons_append, List.nil_append]

end

namespace Machine

/-- The tokens that the machine has read when it is in a state. -/
inductive HasRead : Machine → List Token → Prop
  | item {frames : List Frame} {closable : Bool} :
    (closable = true → ∃ rest, frames = .array [] :: rest) →
    HasRead ⟨frames, .item closable⟩ (openings frames)
  | key {members : List (StringText × Written)} {rest : List Frame} {closable : Bool} :
    (closable = true → members = []) →
    HasRead ⟨.object members :: rest, .key closable⟩ (openings (.object members :: rest))
  | colon {members : List (StringText × Written)} {key : StringText} {rest : List Frame} :
    HasRead ⟨.member members key :: rest, .colon⟩
      (openings (.object members :: rest) ++ [.string key])
  | itemEnd {w : Written} {items : List Written} {rest : List Frame} :
    HasRead ⟨.array (w :: items) :: rest, .separator⟩ (openings (.array items :: rest) ++ w.tokens)
  | memberEnd {m : StringText × Written} {members : List (StringText × Written)}
    {rest : List Frame} :
    HasRead ⟨.object (m :: members) :: rest, .separator⟩
      (openings (.object members :: rest) ++ Written.memberTokens m)
  | nothing {w : Written} : HasRead ⟨[], .nothing w⟩ w.tokens

variable {m m' : Machine} {ts : List Token} {t : Token} {w : Written} {frames : List Frame}

theorem hasRead_start : HasRead start [] := .item nofun

theorem hasRead_of_complete? (h : complete? w frames = some m) :
    HasRead m (openings frames ++ w.tokens) := by
  match frames, h with
  | [], rfl => exact .nothing
  | .array _ :: _, rfl => exact .itemEnd
  | .member members key :: rest, rfl =>
    rw [openings_member, List.append_assoc, List.append_assoc]
    exact .memberEnd

/-- What the machine has read where an item may come, after one more token. -/
theorem HasRead.of_item? {closable : Bool}
    (hclosable : closable = true → ∃ rest, frames = .array [] :: rest)
    (h : item? frames closable t = some m) : HasRead m (openings frames ++ [t]) := by
  cases t with
  | null => exact hasRead_of_complete? h
  | bool => exact hasRead_of_complete? h
  | number => exact hasRead_of_complete? h
  | string => exact hasRead_of_complete? h
  | openArray =>
    obtain rfl := Option.some.inj h
    exact .item fun _ => ⟨_, rfl⟩
  | openObject =>
    obtain rfl := Option.some.inj h
    exact .key fun _ => rfl
  | closeArray =>
    cases closable with
    | false => cases h
    | true =>
      obtain ⟨rest, rfl⟩ := hclosable rfl
      have hread := hasRead_of_complete? (w := .array []) h
      rwa [openings, List.append_assoc]
  | closeObject | comma | colon => cases h

theorem HasRead.of_key? {members : List (StringText × Written)} {rest : List Frame}
    {closable : Bool} (hclosable : closable = true → members = [])
    (h : key? (.object members :: rest) closable t = some m) :
    HasRead m (openings (.object members :: rest) ++ [t]) := by
  cases t with
  | string =>
    obtain rfl := Option.some.inj h
    exact .colon
  | closeObject =>
    cases closable with
    | false => cases h
    | true =>
      obtain rfl := hclosable rfl
      have hread := hasRead_of_complete? (w := .object []) h
      rwa [openings, List.append_assoc]
  | openArray | closeArray | openObject | comma | colon | null | bool | number => cases h

theorem HasRead.of_separator?_array {items : List Written} {rest : List Frame}
    (h : separator? (.array (w :: items) :: rest) t = some m) :
    HasRead m (openings (.array items :: rest) ++ w.tokens ++ [t]) := by
  cases t with
  | comma =>
    obtain rfl := Option.some.inj h
    rw [← openings_array_cons]
    exact .item nofun
  | closeArray =>
    have hread := hasRead_of_complete? (w := .array (w :: items).reverse) h
    rw [List.reverse_cons, Written.tokens_array_concat] at hread
    simpa only [openings, Frame.opening, List.append_assoc, List.cons_append] using hread
  | openArray | openObject | closeObject | colon | null | bool | number | string => cases h

theorem HasRead.of_separator?_object {member : StringText × Written}
    {members : List (StringText × Written)} {rest : List Frame}
    (h : separator? (.object (member :: members) :: rest) t = some m) :
    HasRead m (openings (.object members :: rest) ++ Written.memberTokens member ++ [t]) := by
  cases t with
  | comma =>
    obtain rfl := Option.some.inj h
    rw [← openings_object_cons]
    exact .key nofun
  | closeObject =>
    have hread := hasRead_of_complete? (w := .object (member :: members).reverse) h
    rw [List.reverse_cons, Written.tokens_object_concat] at hread
    simpa only [openings, Frame.opening, List.append_assoc, List.cons_append] using hread
  | openArray | openObject | closeArray | colon | null | bool | number | string => cases h

/-- What the machine has read after one more token. -/
theorem HasRead.step (h : HasRead m ts) (hstep : m.step? t = some m') : HasRead m' (ts ++ [t]) := by
  cases h with
  | item hclosable => exact .of_item? hclosable hstep
  | key hclosable => exact .of_key? hclosable hstep
  | @colon members key rest =>
    have hcolon : (if t = .colon then some (⟨.member members key :: rest, .item false⟩ : Machine)
      else none) = some m' := hstep
    obtain ⟨rfl, hnext⟩ := Option.ite_none_right_eq_some.mp hcolon
    obtain rfl := Option.some.inj hnext
    rw [← openings_member]
    exact .item nofun
  | itemEnd => exact .of_separator?_array hstep
  | memberEnd => exact .of_separator?_object hstep
  | nothing => cases hstep

/-- What the machine has read after more tokens. -/
theorem HasRead.run (h : HasRead m ts) {ts' : List Token} (hrun : ts'.foldlM step? m = some m') :
    HasRead m' (ts ++ ts') := by
  induction ts' generalizing m ts with
  | nil =>
    obtain rfl := Option.some.inj hrun
    rwa [List.append_nil]
  | cons t rest ih =>
    rw [List.foldlM_cons] at hrun
    obtain ⟨next, hstep, hrest⟩ := Option.bind_eq_some_iff.mp hrun
    rw [List.append_cons]
    exact ih (h.step hstep) hrest

/-! ### What the machine reads -/

theorem foldlM_step?_append (ts ts' : List Token) (m : Machine) :
    (ts ++ ts').foldlM step? m = (ts.foldlM step? m).bind (ts'.foldlM step? ·) :=
  List.foldlM_append

theorem foldlM_step?_singleton (t : Token) (m : Machine) : [t].foldlM step? m = m.step? t :=
  Option.bind_fun_some _

section

-- what arrays and objects have in common: how the frame keeps the parts that are done, where the
-- next part may come, and what the frame becomes when it is closed
variable {α : Type} {frame : List α → Frame} {expected : Bool → Expected} {part : α → List Token}
  {whole : List α → Written} {closing : Token} {rest : List Frame} {parts : List α}

/-- The machine reads parts, each followed by a comma, if it reads each of them. -/
theorem foldlM_parts
    (hcomma : ∀ done, step? ⟨frame done :: rest, .separator⟩ .comma =
      some ⟨frame done :: rest, expected false⟩)
    (hparts : ∀ a ∈ parts, ∀ done closable,
      (part a).foldlM step? ⟨frame done :: rest, expected closable⟩ =
        some ⟨frame (a :: done) :: rest, .separator⟩)
    (done : List α) (closable : Bool) : ∃ closable',
      (parts.flatMap fun a => part a ++ [Token.comma]).foldlM step?
        ⟨frame done :: rest, expected closable⟩ =
          some ⟨frame (parts.reverse ++ done) :: rest, expected closable'⟩ := by
  induction parts generalizing done closable with
  | nil => exact ⟨closable, rfl⟩
  | cons a parts ih =>
    obtain ⟨ha, hparts⟩ := List.forall_mem_cons.mp hparts
    obtain ⟨closable', hrest⟩ := ih hparts (a :: done) false
    refine ⟨closable', ?_⟩
    rw [List.flatMap_cons, foldlM_step?_append, foldlM_step?_append, ha, Option.bind_some,
      foldlM_step?_singleton, hcomma, Option.bind_some, hrest, List.reverse_cons, List.append_assoc,
      List.singleton_append]

variable (frame expected part whole closing) in
/-- The machine reads an array or object that has parts if it reads each of them. -/
theorem foldlM_enclosed {last : α}
    (hcomma : ∀ done, step? ⟨frame done :: rest, .separator⟩ .comma =
      some ⟨frame done :: rest, expected false⟩)
    (hclosing : ∀ done, step? ⟨frame done :: rest, .separator⟩ closing =
      complete? (whole done.reverse) rest)
    (hparts : ∀ a ∈ parts ++ [last], ∀ done closable,
      (part a).foldlM step? ⟨frame done :: rest, expected closable⟩ =
        some ⟨frame (a :: done) :: rest, .separator⟩) :
    ((parts.flatMap fun a => part a ++ [Token.comma]) ++ part last ++ [closing]).foldlM step?
      ⟨frame [] :: rest, expected true⟩ = complete? (whole (parts ++ [last])) rest := by
  obtain ⟨hparts, hlast⟩ := List.forall_mem_append.mp hparts
  obtain ⟨closable, hrun⟩ := foldlM_parts hcomma hparts [] true
  rw [foldlM_step?_append, foldlM_step?_append, hrun, Option.bind_some,
    hlast last (List.mem_singleton_self last), Option.bind_some, foldlM_step?_singleton, hclosing,
    List.append_nil, List.reverse_cons, List.reverse_reverse]

end

end Machine

namespace Written

open Machine

/-- The machine reads a text by its tokens, whatever is open around it. -/
theorem foldlM_tokens (w : Written) (frames : List Frame) (closable : Bool) :
    w.tokens.foldlM Machine.step? ⟨frames, .item closable⟩ = Machine.complete? w frames := by
  induction w using induct generalizing frames closable with
  | null | bool | number | string => exact foldlM_step?_singleton _ _
  | array items ih =>
    rcases List.eq_nil_or_concat' items with rfl | ⟨items, w, rfl⟩
    · exact foldlM_step?_singleton .closeArray ⟨.array [] :: frames, .item true⟩
    · rw [tokens_array_concat]
      exact foldlM_enclosed .array .item tokens .array .closeArray (fun _ => rfl) (fun _ => rfl)
        fun w hw done closable => ih w hw (.array done :: frames) closable
  | object members ih =>
    rcases List.eq_nil_or_concat' members with rfl | ⟨members, m, rfl⟩
    · exact foldlM_step?_singleton .closeObject ⟨.object [] :: frames, .key true⟩
    · rw [tokens_object_concat]
      exact foldlM_enclosed .object .key memberTokens .object .closeObject (fun _ => rfl)
        (fun _ => rfl) fun (key, w) hm done _ => ih (key, w) hm (.member done key :: frames) false

/-- A string holds a text exactly if it consists of the tokens of the text. -/
theorem parse?_eq_some_iff {s : String} {w : Written} :
    parse? s = some w ↔ tokens? s.toList = some w.tokens := by
  constructor
  · intro h
    obtain ⟨ts, hts, h⟩ := Option.bind_eq_some_iff.mp h
    obtain ⟨m, hrun, hresult⟩ := Option.bind_eq_some_iff.mp h
    have hread : m.HasRead ts := hasRead_start.run hrun
    rw [hts]
    cases hread with
    | nothing =>
      obtain rfl := Option.some.inj hresult
      rfl
    | item | key | colon | itemEnd | memberEnd => cases hresult
  · intro h
    have hrun : w.tokens.foldlM Machine.step? Machine.start = some ⟨[], .nothing w⟩ :=
      w.foldlM_tokens [] false
    rw [parse?, h, Option.bind_eq_bind, Option.bind_some, hrun]
    rfl

end Written

end Harvest.Json
