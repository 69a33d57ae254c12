import Harvest.Proofs.Json.Grammar

/-!
# Parts of JSON texts

Every token that is read from a string can be written by itself, and what has been read before does
not change how it is read. So any tokens of a string, with a blank behind each, make another string,
and a part of a JSON text can stand in a text of its own.

## Main definitions

* `Json.Lexer.after` — a reader that has read other tokens before
* `Json.Lexer.Spells` — a string is read as one token
* `Json.Token.Spelled`, `Json.Written.Spelled` — tokens that come from a string, and texts of them

## Main results

* `Json.Lexer.step?_after` — earlier tokens do not matter
* `Json.spelled_of_tokens?`, `Json.exists_tokens?` — the tokens of strings are the spelled ones
* `Json.Written.spelled_of_parse?`, `Json.Written.Spelled.item`, `Json.Written.Spelled.member` — the
  parts of a text are spelled
* `Json.Written.Spelled.exists_parse?` — a spelled part can stand alone in an array
-/

namespace Harvest.Json

namespace Lexer

variable {l l' : Lexer} {u u' : Unfinished} {ts before : List Token} {t : Token} {c : Char}
  {s : List Char}

/-! ### Earlier tokens -/

/-- A reader that has read other tokens before. -/
def after (l : Lexer) (before : List Token) : Lexer := ⟨l.tokens ++ before, l.unfinished⟩

theorem begin?_append (ts before : List Token) (c : Char) :
    begin? (ts ++ before) c = (begin? ts c).map (·.after before) := by
  simp only [begin?, apply_ite (Option.map _), Option.map_some, Option.map_none, after,
    List.cons_append]

theorem finish?_after (l : Lexer) (before : List Token) :
    (l.after before).finish? = l.finish?.map (· ++ before) := by
  obtain ⟨ts, u⟩ := l
  cases u with
  | none => rfl
  | word | number => simp only [finish?, after, Option.map_map, Function.comp_def, List.cons_append]
  | string | escape | unit => rfl

/-- Earlier tokens do not matter for what a character does. -/
theorem step?_after (l : Lexer) (before : List Token) (c : Char) :
    (l.after before).step? c = (l.step? c).map (·.after before) := by
  have hfinish : ((l.after before).finish?.bind (begin? · c)) =
      (l.finish?.bind (begin? · c)).map (·.after before) := by
    rw [finish?_after, Option.bind_map, Option.map_bind]
    exact congrArg _ (funext fun ts => begin?_append ts before c)
  obtain ⟨ts, u⟩ := l
  cases u with
  | none => exact begin?_append ts before c
  | word | number =>
    unfold step?
    simp only [after] at hfinish ⊢
    rw [hfinish]
    split_ifs <;> rfl
  | string =>
    unfold step?
    simp only [after]
    split_ifs <;> rfl
  | escape | unit =>
    unfold step?
    simp only [after]
    split_ifs <;> simp only [Option.map_map, Option.map_some, Function.comp_def]

theorem foldlM_after (l : Lexer) (before : List Token) (s : List Char) :
    s.foldlM step? (l.after before) = (s.foldlM step? l).map (·.after before) := by
  induction s generalizing l with
  | nil => rfl
  | cons c rest ih =>
    simp only [List.foldlM_cons, step?_after, Option.bind_eq_bind, Option.bind_map, Option.map_bind]
    exact congrArg _ (funext ih)

/-! ### Spelled tokens -/

/-- A string is read as one token if there is a blank behind it. -/
def Spells (s : List Char) (t : Token) : Prop :=
  (s ++ [' ']).foldlM step? start = some ⟨[t], .none⟩

end Lexer

/-- A token that comes from a string. -/
structure Token.Spelled (t : Token) : Prop where
  /-- The token can be written. -/
  text : ∃ s, Lexer.Spells s t
  /-- If the token is a number, it is written as one. -/
  number : ∀ n, t = .number n → ∃ s, NumberText.ofChars? s = some n

namespace Lexer

variable {l l' : Lexer} {u : Unfinished} {ts before : List Token} {t : Token} {c : Char}
  {s : List Char}

theorem foldlM_step?_append (s s' : List Char) (l : Lexer) :
    (s ++ s').foldlM step? l = (s.foldlM step? l).bind (s'.foldlM step? ·) :=
  List.foldlM_append

theorem foldlM_step?_concat (s : List Char) (c : Char) (l : Lexer) :
    (s ++ [c]).foldlM step? l = (s.foldlM step? l).bind (step? · c) := by
  rw [foldlM_step?_append]
  exact congrArg _ (funext fun _ => Option.bind_fun_some _)

/-- The tokens of a reader are spelled, and so is the beginning of the unfinished one. -/
structure Traced (l : Lexer) : Prop where
  /-- The finished tokens come from strings. -/
  tokens : ∀ t ∈ l.tokens, t.Spelled
  /-- The unfinished token comes from a string. -/
  begun : ∃ s : List Char, s.foldlM step? start = some ⟨[], l.unfinished⟩

theorem Traced.after (h : l.Traced) (hbefore : ∀ t ∈ before, t.Spelled) :
    (l.after before).Traced :=
  ⟨List.forall_mem_append.mpr ⟨h.tokens, hbefore⟩, h.begun⟩

/-- Between tokens, the reader is traced if its tokens are spelled. -/
theorem traced_none (h : ∀ t ∈ ts, t.Spelled) : Traced ⟨ts, .none⟩ := ⟨h, [], rfl⟩

/-- A character that finishes no token continues the unfinished one. -/
theorem traced_of_eq_nil (hbegun : s.foldlM step? start = some ⟨[], u⟩)
    (hstep : step? ⟨[], u⟩ c = some l) (htokens : l.tokens = []) : l.Traced := by
  obtain ⟨ts, u'⟩ := l
  obtain rfl : ts = [] := htokens
  refine ⟨List.forall_mem_nil _, s ++ [c], ?_⟩
  rwa [foldlM_step?_concat, hbegun]

/-- A character that finishes the token behind a string spells it. -/
theorem spells_of_step? (hbegun : s.foldlM step? start = some ⟨[], u⟩)
    (hstep : step? ⟨[], u⟩ c = some ⟨[t], .none⟩) : Spells (s ++ [c]) t := by
  rw [Spells, foldlM_step?_concat, foldlM_step?_concat, hbegun, Option.bind_some, hstep]
  rfl

/-- A string whose token can end with it spells the token. -/
theorem spells_of_finish? (hbegun : s.foldlM step? start = some ⟨[], u⟩)
    (hfinish : finish? ⟨[], u⟩ = some [t]) : Spells s t := by
  rw [Spells, foldlM_step?_concat, hbegun]
  -- a blank ends words and numbers, and there is no other token that can end here
  have hblank : (finish? ⟨[], u⟩).bind (begin? · ' ') = some ⟨[t], .none⟩ := by
    rw [hfinish]
    rfl
  cases u with
  | none => cases hfinish
  | word | number => exact hblank
  | string | escape | unit => cases hfinish

/-- A character between tokens is one itself, unless it only begins one. -/
theorem begin?_eq_some (h : begin? [] c = some l) :
    l.tokens = [] ∨ ∃ t, l = ⟨[t], .none⟩ ∧ ∀ n, t ≠ .number n := by
  unfold begin? at h
  split_ifs at h
  all_goals
    obtain rfl := Option.some.inj h
    first
    | exact .inl rfl
    | exact .inr ⟨_, rfl, nofun⟩

theorem traced_of_begin? (hts : ∀ t ∈ ts, t.Spelled) (h : begin? ts c = some l) : l.Traced := by
  rw [← List.nil_append ts, begin?_append] at h
  obtain ⟨l₀, hbegin, rfl⟩ := Option.map_eq_some_iff.mp h
  refine Traced.after ?_ hts
  rcases begin?_eq_some hbegin with htokens | ⟨t, rfl, hnumber⟩
  · exact traced_of_eq_nil (s := []) rfl hbegin htokens
  · have hspells : Spells [c] t := spells_of_step? (s := []) rfl hbegin
    exact traced_none (List.forall_mem_singleton.mpr
      ⟨⟨[c], hspells⟩, fun n hn => absurd hn (hnumber n)⟩)

/-- The tokens of a reader are still spelled when the unfinished one has ended. -/
theorem Traced.finish? (h : l.Traced) (hfinish : l.finish? = some ts) : ∀ t ∈ ts, t.Spelled := by
  obtain ⟨done, u⟩ := l
  obtain ⟨hdone, s, hbegun⟩ := h
  cases u with
  | none =>
    obtain rfl := Option.some.inj hfinish
    exact hdone
  | word letters =>
    obtain ⟨t, ht, rfl⟩ := Option.map_eq_some_iff.mp hfinish
    have hspells : Spells s t := spells_of_finish? hbegun (by simp [Lexer.finish?, ht])
    refine List.forall_mem_cons.mpr ⟨⟨⟨s, hspells⟩, fun n hn => ?_⟩, hdone⟩
    unfold wordToken? at ht
    split_ifs at ht <;> cases hn.symm.trans (Option.some.inj ht).symm
  | number chars =>
    obtain ⟨n, hn, rfl⟩ := Option.map_eq_some_iff.mp hfinish
    have hspells : Spells s (.number n) := spells_of_finish? hbegun (by simp [Lexer.finish?, hn])
    refine List.forall_mem_cons.mpr ⟨⟨⟨s, hspells⟩, fun n' hn' => ?_⟩, hdone⟩
    exact ⟨chars.reverse, Token.number.inj hn' ▸ hn⟩
  | string | escape | unit => cases hfinish

/-- A character behind the beginning of a token leaves the reader traced. -/
theorem traced_of_step? (hbegun : s.foldlM step? start = some ⟨[], u⟩)
    (hstep : step? ⟨[], u⟩ c = some l) : l.Traced := by
  by_cases htokens : l.tokens = []
  · exact traced_of_eq_nil hbegun hstep htokens
  -- behind a word or a number, the character has also begun what comes next
  have hend {ts : List Token} (hfinish : Lexer.finish? ⟨[], u⟩ = some ts)
      (hbegin : begin? ts c = some l) : l.Traced :=
    traced_of_begin? (Traced.finish? ⟨List.forall_mem_nil _, s, hbegun⟩ hfinish) hbegin
  cases u with
  | none => exact hend rfl hstep
  | word | number =>
    unfold step? at hstep
    dsimp only at hstep
    split_ifs at hstep
    · exact absurd (Option.some.inj hstep ▸ rfl) htokens
    · obtain ⟨ts, hfinish, hbegin⟩ := Option.bind_eq_some_iff.mp hstep
      exact hend hfinish hbegin
  | string pieces =>
    have hspells := spells_of_step? (t := .string pieces.reverse) (c := '"') hbegun rfl
    unfold step? at hstep
    dsimp only at hstep
    split_ifs at hstep
    · obtain rfl := Option.some.inj hstep
      exact traced_none (List.forall_mem_singleton.mpr ⟨⟨_, hspells⟩, nofun⟩)
    all_goals exact absurd (Option.some.inj hstep ▸ rfl) htokens
  | escape =>
    unfold step? at hstep
    dsimp only at hstep
    split_ifs at hstep
    · exact absurd (Option.some.inj hstep ▸ rfl) htokens
    · obtain ⟨d, -, rfl⟩ := Option.map_eq_some_iff.mp hstep
      exact absurd rfl htokens
  | unit =>
    obtain ⟨d, -, rfl⟩ := Option.map_eq_some_iff.mp hstep
    split_ifs at htokens <;> exact absurd rfl htokens

theorem Traced.step (h : l.Traced) (hstep : l.step? c = some l') : l'.Traced := by
  obtain ⟨ts, u⟩ := l
  obtain ⟨hts, s, hbegun⟩ := h
  -- the step is that of a reader without tokens, whose tokens are put back afterwards
  have hsplit : (Lexer.after ⟨[], u⟩ ts).step? c = some l' := hstep
  rw [step?_after] at hsplit
  obtain ⟨l₀, hstep₀, rfl⟩ := Option.map_eq_some_iff.mp hsplit
  exact (traced_of_step? hbegun hstep₀).after hts

theorem Traced.run (h : l.Traced) (hrun : s.foldlM step? l = some l') : l'.Traced := by
  induction s generalizing l with
  | nil => exact Option.some.inj hrun ▸ h
  | cons c rest ih =>
    obtain ⟨next, hstep, hrest⟩ := Option.bind_eq_some_iff.mp hrun
    exact ih (h.step hstep) hrest

/-- Spelled tokens are read from a string. -/
theorem exists_run (h : ∀ t ∈ ts, t.Spelled) :
    ∃ s : List Char, s.foldlM step? start = some ⟨ts.reverse, .none⟩ := by
  induction ts with
  | nil => exact ⟨[], rfl⟩
  | cons t rest ih =>
    obtain ⟨ht, hrest⟩ := List.forall_mem_cons.mp h
    obtain ⟨s, hs⟩ := ht.text
    obtain ⟨s', hs'⟩ := ih hrest
    -- the blank keeps the token apart from the next one
    refine ⟨s ++ [' '] ++ s', ?_⟩
    rw [foldlM_step?_append, hs, Option.bind_some, List.reverse_cons]
    have hafter := foldlM_after start [t] s'
    rwa [hs'] at hafter

end Lexer

/-! ### Tokens of strings -/

variable {ts : List Token} {s : List Char}

/-- The tokens of a string are spelled. -/
theorem spelled_of_tokens? (h : tokens? s = some ts) : ∀ t ∈ ts, t.Spelled := by
  obtain ⟨done, hrun, rfl⟩ := Option.map_eq_some_iff.mp h
  obtain ⟨l, hl, hfinish⟩ := Option.bind_eq_some_iff.mp hrun
  have htraced := (Lexer.traced_none (List.forall_mem_nil _)).run hl
  exact fun t ht => htraced.finish? hfinish t (List.mem_reverse.mp ht)

/-- Spelled tokens are those of a string. -/
theorem exists_tokens? (h : ∀ t ∈ ts, t.Spelled) : ∃ s, tokens? s = some ts := by
  obtain ⟨s, hrun⟩ := Lexer.exists_run h
  refine ⟨s, ?_⟩
  rw [tokens?, hrun, Option.bind_some]
  exact congrArg some (List.reverse_reverse ts)

theorem spelled_openArray : Token.openArray.Spelled := ⟨⟨['['], rfl⟩, nofun⟩

theorem spelled_closeArray : Token.closeArray.Spelled := ⟨⟨[']'], rfl⟩, nofun⟩

/-! ### Parts of texts -/

namespace Written

variable {w : Written} {items : List Written} {members : List (StringText × Written)}
  {m : StringText × Written} {t : Token}

/-- A text whose tokens come from strings. -/
def Spelled (w : Written) : Prop := ∀ t ∈ w.tokens, t.Spelled

/-- What a string holds is spelled. -/
theorem spelled_of_parse? {text : String} (h : parse? text = some w) : w.Spelled :=
  spelled_of_tokens? (parse?_eq_some_iff.mp h)

theorem mem_intercalate {α : Type} {sep part : List α} {parts : List (List α)} {a : α}
    (hpart : part ∈ parts) (ha : a ∈ part) : a ∈ sep.intercalate parts := by
  induction parts with
  | nil => cases hpart
  | cons first rest ih =>
    cases rest with
    | nil => rwa [List.intercalate_singleton, ← List.mem_singleton.mp hpart]
    | cons second rest =>
      rw [List.intercalate_cons_cons]
      rcases List.mem_cons.mp hpart with rfl | hrest
      · exact List.mem_append_left _ (List.mem_append_left _ ha)
      · exact List.mem_append_right _ (ih hrest)

/-- The items of a spelled array are spelled. -/
theorem Spelled.item (h : (array items).Spelled) (hw : w ∈ items) : w.Spelled := by
  intro t ht
  refine h t ?_
  rw [tokens, itemTokens_eq_map]
  exact List.mem_cons_of_mem _ (List.mem_append_left _
    (mem_intercalate (List.mem_map_of_mem hw) ht))

/-- The values of the members of a spelled object are spelled. -/
theorem Spelled.member (h : (object members).Spelled) (hm : m ∈ members) : m.2.Spelled := by
  obtain ⟨key, w⟩ := m
  intro t ht
  refine h t ?_
  rw [tokens, membersTokens_eq_map]
  refine List.mem_cons_of_mem _ (List.mem_append_left _
    (mem_intercalate (List.mem_map_of_mem hm) ?_))
  exact List.mem_cons_of_mem _ (List.mem_cons_of_mem _ ht)

/-- A spelled number is written as one. -/
theorem Spelled.number {n : NumberText} (h : (number n).Spelled) :
    ∃ s, NumberText.ofChars? s = some n :=
  (h _ (List.mem_singleton_self _)).number n rfl

/-- A spelled text can stand alone in an array. -/
theorem Spelled.exists_parse? (h : w.Spelled) : ∃ text, parse? text = some (.array [w]) := by
  have htokens : (array [w]).tokens = .openArray :: (w.tokens ++ [.closeArray]) := by
    rw [tokens, itemTokens_eq_map, List.map_singleton, List.intercalate_singleton]
  have hspelled : ∀ t ∈ (array [w]).tokens, t.Spelled := by
    rw [htokens]
    exact List.forall_mem_cons.mpr ⟨spelled_openArray,
      List.forall_mem_append.mpr ⟨h, List.forall_mem_singleton.mpr spelled_closeArray⟩⟩
  obtain ⟨s, hs⟩ := exists_tokens? hspelled
  exact ⟨String.ofList s, parse?_eq_some_iff.mpr (by rwa [String.toList_ofList])⟩

end Written

end Harvest.Json
