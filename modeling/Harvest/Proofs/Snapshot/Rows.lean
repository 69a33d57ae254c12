import Harvest.Proofs.Json.Spelling
import Harvest.Proofs.Json.Values
import Harvest.Proofs.Store.Streams
import Harvest.Proofs.Text.LetterCase

/-!
# Rows of lists

An unpacked list is an array of rows or an object with such an array under a certain key, and both
are read alike. A row is judged by its own members: it yields the entry that it would yield if it
stood alone, wherever it stands. A text that is no list at all is refused for good.

## Main definitions

* `Snapshot.HoldsRows`, `Snapshot.LacksRows` — values that are lists of rows, and those without rows
* `Snapshot.IsRow` — rows that are entries
* `Snapshot.Yields` — what a row yields if it stands alone

## Main results

* `Json.Number.write_ne_empty` — numbers have a text
* `Snapshot.isSome_entryOfRow?_iff` — which rows are entries
* `Snapshot.HoldsRows.alone` — each row of a list can stand alone
* `Snapshot.rows_judged_alone` — what is read from a text
-/

namespace Harvest

/-! ### Texts of numbers -/

namespace FloatFormat

variable {f : FloatFormat}

theorem positional_ne_empty (h : f.wholeEnd ≠ "") (digits : List Char) (power : Int) :
    f.positional digits power ≠ "" := by
  unfold positional
  dsimp only
  split_ifs <;> simp [h]

theorem scientific_ne_empty (digits : List Char) (power : Int) :
    f.scientific digits power ≠ "" := by
  simp [scientific]

theorem write_ne_empty (h : f.wholeEnd ≠ "") (negative : Bool) (x : Binary64) :
    f.write negative x ≠ "" := by
  unfold write
  dsimp only
  split_ifs <;> simp [positional_ne_empty h, scientific_ne_empty]

end FloatFormat

theorem Json.Number.write_ne_empty (n : Json.Number) : n.write ≠ "" := by
  cases n with
  | int n => cases n <;> simp [write, toString, Int.repr]
  | float negative x => exact FloatFormat.write_ne_empty (by decide) negative x

namespace Snapshot

open Json (Value Written)

variable {row v w : Value} {rows : List Value} {text : String} {e : Entry}

/-! ### Rows that are entries -/

/-- A text of forty hexadecimal digits in either case. -/
def IsHashInEitherCase (s : String) : Prop :=
  s.toList.length = 40 ∧
    ∀ ch ∈ s.toList, ch.isDigit ∨ 'a' ≤ ch ∧ ch ≤ 'f' ∨ 'A' ≤ ch ∧ ch ≤ 'F'

/-- A row is an entry: it has a release name, which is a text that is not empty or a number, and a
hash. -/
structure IsRow (row : Value) : Prop where
  filename : (∃ s, row.LastMember "filename" (.string s) ∧ s ≠ "") ∨
    ∃ n, row.LastMember "filename" (.number n)
  hash : ∃ s, row.LastMember "hash" (.string s) ∧ IsHashInEitherCase s

theorem isSome_filenameOfValue?_iff : (filenameOfValue? v).isSome ↔
    (∃ s, v = .string s ∧ s ≠ "") ∨ ∃ n, v = .number n := by
  cases v with
  | string s => by_cases hs : s = "" <;> simp [filenameOfValue?, hs]
  | number n => simp [filenameOfValue?]
  | null | bool | array | object => simp [filenameOfValue?]

theorem all_isHexDigit_iff {s : List Char} : s.all isHexDigit = true ↔
    ∀ ch ∈ s, ch.isDigit ∨ 'a' ≤ ch ∧ ch ≤ 'f' ∨ 'A' ≤ ch ∧ ch ≤ 'F' := by
  simp only [List.all_eq_true, isHexDigit, Bool.or_eq_true, Bool.and_eq_true, decide_eq_true_eq,
    or_assoc]

theorem hashOfValue?_eq_some_iff {h : String} : hashOfValue? v = some h ↔
    ∃ s, v = .string s ∧ IsHashInEitherCase s ∧ Text.asciiLowerString s = h := by
  cases v with
  | string s =>
    simp only [hashOfValue?, all_isHexDigit_iff, Option.ite_none_right_eq_some, Option.some.injEq]
    constructor
    · rintro ⟨hs, rfl⟩
      exact ⟨s, rfl, hs, rfl⟩
    · rintro ⟨_, ⟨⟩, hs, rfl⟩
      exact ⟨hs, rfl⟩
  | number | null | bool | array | object => simp [hashOfValue?]

theorem entryOfRow?_eq_some_iff : entryOfRow? row = some e ↔
    (∃ v, row.field? "filename" = some v ∧ filenameOfValue? v = some e.filename) ∧
    (∃ v, row.field? "hash" = some v ∧ hashOfValue? v = some e.infoHash) ∧
    (((row.field? "bytes").or (row.field? "size")).map sizeOfValue).getD 0 = e.size := by
  obtain ⟨filename, infoHash, size⟩ := e
  simp only [entryOfRow?, Option.bind_eq_bind, Option.bind_eq_some_iff, Option.pure_def,
    Option.some.injEq, Entry.mk.injEq]
  constructor
  · rintro ⟨v, hv, filename, hfilename, w, hw, infoHash, hhash, rfl, rfl, rfl⟩
    exact ⟨⟨v, hv, hfilename⟩, ⟨w, hw, hhash⟩, rfl⟩
  · rintro ⟨⟨v, hv, hfilename⟩, ⟨w, hw, hhash⟩, rfl⟩
    exact ⟨v, hv, filename, hfilename, w, hw, infoHash, hhash, rfl, rfl, rfl⟩

/-- A row yields an entry exactly if it is one. -/
theorem isSome_entryOfRow?_iff : (entryOfRow? row).isSome ↔ IsRow row := by
  rw [Option.isSome_iff_exists]
  constructor
  · rintro ⟨e, he⟩
    obtain ⟨⟨v, hv, hfilename⟩, ⟨w, hw, hhash⟩, -⟩ := entryOfRow?_eq_some_iff.mp he
    obtain ⟨s, rfl, hs, -⟩ := hashOfValue?_eq_some_iff.mp hhash
    refine ⟨?_, s, Value.field?_eq_some_iff.mp hw, hs⟩
    rcases isSome_filenameOfValue?_iff.mp (Option.isSome_of_eq_some hfilename) with
      ⟨s, rfl, hne⟩ | ⟨n, rfl⟩
    · exact .inl ⟨s, Value.field?_eq_some_iff.mp hv, hne⟩
    · exact .inr ⟨n, Value.field?_eq_some_iff.mp hv⟩
  · rintro ⟨hfilename, s, hhash, hs⟩
    have hname : ∃ v, row.field? "filename" = some v ∧ (filenameOfValue? v).isSome := by
      rcases hfilename with ⟨s, hlast, hne⟩ | ⟨n, hlast⟩
      · exact ⟨_, Value.field?_eq_some_iff.mpr hlast,
          isSome_filenameOfValue?_iff.mpr (.inl ⟨s, rfl, hne⟩)⟩
      · exact ⟨_, Value.field?_eq_some_iff.mpr hlast,
          isSome_filenameOfValue?_iff.mpr (.inr ⟨n, rfl⟩)⟩
    obtain ⟨v, hv, hsome⟩ := hname
    obtain ⟨filename, hfilename⟩ := Option.isSome_iff_exists.mp hsome
    exact ⟨⟨filename, Text.asciiLowerString s, _⟩, entryOfRow?_eq_some_iff.mpr
      ⟨⟨v, hv, hfilename⟩, ⟨_, Value.field?_eq_some_iff.mpr hhash,
        hashOfValue?_eq_some_iff.mpr ⟨s, rfl, hs, rfl⟩⟩, rfl⟩⟩

theorem filename_ne_empty (h : entryOfRow? row = some e) : e.filename ≠ "" := by
  obtain ⟨⟨v, -, hfilename⟩, -, -⟩ := entryOfRow?_eq_some_iff.mp h
  cases v with
  | string s =>
    by_cases hs : s = ""
    · simp [filenameOfValue?, hs] at hfilename
    · obtain rfl : s = e.filename := by simpa [filenameOfValue?, hs] using hfilename
      exact hs
  | number n =>
    have hwrite : n.write = e.filename := Option.some.inj hfilename
    exact hwrite ▸ n.write_ne_empty
  | null | bool | array | object => cases hfilename

/-- The hash of an entry is that of its row in lower case. -/
theorem infoHash_of_entryOfRow? (h : entryOfRow? row = some e) :
    ∃ s, row.LastMember "hash" (.string s) ∧ Text.EqUpToCase s e.infoHash := by
  obtain ⟨-, ⟨v, hv, hhash⟩, -⟩ := entryOfRow?_eq_some_iff.mp h
  obtain ⟨s, rfl, -, hlower⟩ := hashOfValue?_eq_some_iff.mp hhash
  exact ⟨s, Value.field?_eq_some_iff.mp hv, hlower ▸ Text.eqUpToCase_asciiLowerString s⟩

/-! ### Lists of rows -/

/-- A value is a list of rows: an array of them, or an object whose last member under the key of the
rows is such an array. -/
inductive HoldsRows : Value → List Value → Prop
  | bare (rows : List Value) : HoldsRows (.array rows) rows
  | wrapped {v : Value} {rows : List Value} :
    v.LastMember "torrents" (.array rows) → HoldsRows v rows

/-- An object has nothing under the key of the rows. -/
def LacksRows (v : Value) : Prop :=
  ∃ members, v = .object members ∧ ∀ m ∈ members, m.1 ≠ "torrents"

theorem rowsOfValue_eq_ok_iff : rowsOfValue v = .ok rows ↔
    HoldsRows v rows ∨ LacksRows v ∧ rows = [] := by
  constructor
  · intro h
    cases v with
    | array rows' =>
      obtain rfl : rows' = rows := Except.ok.inj h
      exact .inl (.bare rows')
    | object members =>
      rw [rowsOfValue] at h
      split at h
      next rows' hlookup =>
        obtain rfl : rows' = rows := Except.ok.inj h
        exact .inl (.wrapped (Value.field?_eq_some_iff.mp hlookup))
      next => cases h
      next hlookup =>
        exact .inr ⟨⟨members, rfl, Value.lookup_eq_none_iff.mp hlookup⟩, (Except.ok.inj h).symm⟩
    | null | bool | number | string => cases h
  · rintro ((rows | hlast) | ⟨⟨members, rfl, hmembers⟩, rfl⟩)
    · rfl
    · obtain ⟨before, after, rfl, hafter⟩ := hlast
      rw [rowsOfValue, Value.lookup_eq_some_iff.mpr ⟨before, after, rfl, hafter⟩]
    · rw [rowsOfValue, Value.lookup_eq_none_iff.mpr hmembers]

theorem ne_empty_of_parse? (h : Value.parse? text = some v) : text ≠ "" := by
  rintro rfl
  cases h

theorem entriesOfJson_of_parse? (h : Value.parse? text = some v) :
    entriesOfJson text = (rowsOfValue v).map entriesOfRows := by
  have hempty : text.isEmpty = false := by simpa using ne_empty_of_parse? h
  rw [entriesOfJson, hempty, h]
  rfl

theorem HoldsRows.entriesOfJson (h : HoldsRows v rows) (hparse : Value.parse? text = some v) :
    entriesOfJson text = .ok (entriesOfRows rows) := by
  rw [entriesOfJson_of_parse? hparse, rowsOfValue_eq_ok_iff.mpr (.inl h)]
  rfl

/-- A text that is no list is malformed. -/
theorem exists_malformation (hne : text ≠ "")
    (hother : ∀ v, Value.parse? text = some v → ¬LacksRows v ∧ ∀ rows, ¬HoldsRows v rows) :
    ∃ m, Snapshot.entriesOfJson text = .error m := by
  have hempty : text.isEmpty = false := by simpa using hne
  cases hparse : Value.parse? text with
  | none => exact ⟨.notJson, by rw [Snapshot.entriesOfJson, hempty, hparse]; rfl⟩
  | some v =>
    obtain ⟨hlacks, hholds⟩ := hother v hparse
    rw [entriesOfJson_of_parse? hparse]
    cases hrows : rowsOfValue v with
    | error m => exact ⟨m, rfl⟩
    | ok rows =>
      rcases rowsOfValue_eq_ok_iff.mp hrows with h | ⟨h, -⟩
      · exact absurd h (hholds rows)
      · exact absurd h hlacks

/-! ### Rows that stand alone -/

/-- Each row of an array has a text of its own. -/
theorem exists_item {w : Written} (hw : w.Spelled)
    (hvalue : w.value? Json.maxDepth = some (.array rows)) (hrow : row ∈ rows) :
    ∃ item : Written, item.Spelled ∧ item.value? (Json.maxDepth - 1) = some row := by
  obtain ⟨-, items, rfl, hitems⟩ := Written.eq_array_of_value? hvalue
  obtain ⟨item, hmem, hitem⟩ := Json.exists_of_forall₂ hitems hrow
  exact ⟨item, hw.item hmem, hitem⟩

/-- Each row of a list has a text of its own. -/
theorem HoldsRows.exists_item {w : Written} (h : HoldsRows v rows) (hw : w.Spelled)
    (hvalue : w.value? Json.maxDepth = some v) (hrow : row ∈ rows) :
    ∃ item : Written, item.Spelled ∧ item.value? (Json.maxDepth - 1) = some row := by
  cases h with
  | bare => exact Snapshot.exists_item hw hvalue hrow
  | wrapped hlast =>
    have hrel := Written.field?_rel hvalue "torrents"
    rw [Value.field?_eq_some_iff.mpr hlast] at hrel
    generalize hfield : w.field? "torrents" = field at hrel
    cases hrel with
    | some hvalue' => exact Snapshot.exists_item (hw.field? hfield) hvalue' hrow

/-- The row stands alone in a text, and whatever stands alone with it yields the entry, if there is
one. -/
structure Yields (row : Value) (found : Option Entry) : Prop where
  /-- The row can stand alone. -/
  alone : ∃ text, Value.parse? text = some (.array [row])
  /-- A text in which the row stands alone holds just the entry, if there is one. -/
  entries : ∀ text, Value.parse? text = some (.array [row]) →
    Snapshot.entriesOfJson text = .ok found.toList

theorem entriesOfJson_singleton (h : Value.parse? text = some (.array [row])) :
    Snapshot.entriesOfJson text = .ok (entryOfRow? row).toList := by
  rw [(HoldsRows.bare [row]).entriesOfJson h, entriesOfRows]
  cases hrow : entryOfRow? row with
  | none => rw [List.filterMap_cons_none hrow]; rfl
  | some e => rw [List.filterMap_cons_some hrow]; rfl

/-- Each row of a list can stand alone, and yields what it yields in the list. -/
theorem HoldsRows.alone (h : HoldsRows v rows) (hparse : Value.parse? text = some v) :
    ∀ row ∈ rows, Yields row (entryOfRow? row) := by
  obtain ⟨w, hw, hvalue⟩ := Option.bind_eq_some_iff.mp hparse
  intro row hrow
  obtain ⟨item, hspelled, hitem⟩ := h.exists_item (Written.spelled_of_parse? hw) hvalue hrow
  -- alone in an array, the row is nested no deeper than before
  obtain ⟨text', htext'⟩ := hspelled.exists_parse?
  have hvalue' : (Written.array [item]).value? Json.maxDepth = some (.array [row]) :=
    Written.value?_array_iff.mpr ⟨by decide, [row], .cons hitem .nil, rfl⟩
  refine ⟨⟨text', ?_⟩, fun text => entriesOfJson_singleton⟩
  rw [Value.parse?, htext', Option.bind_some, hvalue']

theorem Yields.eq_entryOfRow? {found : Option Entry} (h : Yields row found) :
    found = entryOfRow? row := by
  obtain ⟨text, hparse⟩ := h.alone
  have hlists := Except.ok.inj ((h.entries text hparse).symm.trans (entriesOfJson_singleton hparse))
  cases found with
  | none => exact (Option.toList_eq_nil_iff.mp hlists.symm).symm
  | some e => exact (Option.toList_eq_singleton_iff.mp hlists.symm).symm

/-- Rows are judged by themselves, in an array as in an object: each yields what it yields alone,
which is an entry exactly if it has a name and a hash, and the entries come in the order of the
rows. The empty text and an object without rows are empty lists, and every other text is refused for
good. -/
theorem rows_judged_alone :
    (∀ rows text v, Value.parse? text = some v → HoldsRows v rows →
      ∃ found, List.Forall₂ Yields rows found ∧ ∀ text' v', Value.parse? text' = some v' →
        HoldsRows v' rows → entriesOfJson text' = .ok (found.flatMap Option.toList)) ∧
    (∀ row found, Yields row found → (found.isSome ↔ IsRow row) ∧
      ∀ e ∈ found, e.filename ≠ "" ∧ IsHash e.infoHash ∧
        ∃ s, row.LastMember "hash" (.string s) ∧ Text.EqUpToCase s e.infoHash) ∧
    (entriesOfJson "" = .ok [] ∧
      ∀ text v, Value.parse? text = some v → LacksRows v → entriesOfJson text = .ok []) ∧
    ∀ text, text ≠ "" →
      (∀ v, Value.parse? text = some v → ¬LacksRows v ∧ ∀ rows, ¬HoldsRows v rows) →
      ∃ m, entriesOfJson text = .error m ∧ (PayloadError.malformed m).isPermanent = true ∧
        ∀ payload, Packed.unpack payload = .ok text →
          entriesOfPayload payload = .error (.malformed m) := by
  refine ⟨fun rows text v hparse hrows => ?_, fun row found h => ?_,
    ⟨rfl, fun text v hparse h => ?_⟩, fun text hne hother => ?_⟩
  · refine ⟨rows.map entryOfRow?, List.forall₂_map_right_iff.mpr (List.forall₂_same.mpr
      (hrows.alone hparse)), fun text' v' hparse' hrows' => ?_⟩
    rw [hrows'.entriesOfJson hparse', entriesOfRows, List.flatMap_map,
      List.filterMap_eq_flatMap_toList]
  · obtain rfl := h.eq_entryOfRow?
    exact ⟨isSome_entryOfRow?_iff, fun e he => ⟨filename_ne_empty he, isHash_of_entryOfRow he,
      infoHash_of_entryOfRow? he⟩⟩
  · rw [entriesOfJson_of_parse? hparse, rowsOfValue_eq_ok_iff.mpr (.inr ⟨h, rfl⟩)]
    rfl
  · obtain ⟨m, hm⟩ := exists_malformation hne hother
    refine ⟨m, hm, rfl, fun payload hunpack => ?_⟩
    rw [entriesOfPayload, hunpack]
    exact congrArg (Except.mapError _) hm

/-! ### A small list -/

/-- A hash in capitals. -/
def heatHash : String := String.ofList (List.replicate 40 'A')

/-- A row with a name and this hash. -/
def heatRow : Value := .object [("filename", .string "Heat"), ("hash", .string heatHash)]

/-- The row as it is written. -/
def heatText : Written := .object [(.plain "filename", .string (.plain "Heat")),
  (.plain "hash", .string (.plain heatHash))]

/-- A list with this row and one that is no entry. -/
def heatList : String :=
  "[\x7b\"filename\":\"Heat\",\"hash\":\"" ++ heatHash ++ "\"\x7d,null]"

/-- The same list inside an object. -/
def wrappedList : String := "\x7b\"torrents\":null,\"torrents\":" ++ heatList ++ "\x7d"

theorem value?_heatText (depth : Nat) : heatText.value? (depth + 1) = some heatRow := by
  simp [heatText, heatRow, Written.value?, Written.memberValues?, Written.memberValue?,
    Json.StringText.value?_plain]

/-- The value of the rows as they are written. -/
theorem value?_heatList (depth : Nat) :
    (Written.array [heatText, .null]).value? (depth + 2) = some (.array [heatRow, .null]) :=
  Written.value?_array_iff.mpr
    ⟨Nat.succ_ne_zero _, _, .cons (value?_heatText depth) (.cons rfl .nil), rfl⟩

theorem parse?_heatList : Value.parse? heatList = some (.array [heatRow, .null]) := by
  have hwritten : Written.parse? heatList = some (.array [heatText, .null]) :=
    Written.parse?_eq_some_iff.mpr (by decide +kernel)
  rw [Value.parse?, hwritten, Option.bind_some]
  exact value?_heatList 125

theorem parse?_wrappedList : Value.parse? wrappedList =
    some (.object [("torrents", .null), ("torrents", .array [heatRow, .null])]) := by
  have hwritten : Written.parse? wrappedList = some (.object
      [(.plain "torrents", .null), (.plain "torrents", .array [heatText, .null])]) :=
    Written.parse?_eq_some_iff.mpr (by decide +kernel)
  rw [Value.parse?, hwritten, Option.bind_some]
  refine Written.value?_object_iff.mpr ⟨by decide, [("torrents", .null), ("torrents", _)], ?_, rfl⟩
  exact .cons ⟨Json.StringText.value?_plain _, rfl⟩
    (.cons ⟨Json.StringText.value?_plain _, value?_heatList 124⟩ .nil)

theorem isHashInEitherCase_heatHash : IsHashInEitherCase heatHash := by
  have hletters : heatHash.toList = List.replicate 40 'A' := String.toList_ofList
  rw [IsHashInEitherCase, hletters]
  refine ⟨List.length_replicate .., fun ch hch => ?_⟩
  rw [List.eq_of_mem_replicate hch]
  decide

theorem isRow_heatRow : IsRow heatRow where
  filename := .inl ⟨"Heat", ⟨[], _, rfl, by simp⟩, by decide⟩
  hash := ⟨heatHash, ⟨[_], [], rfl, nofun⟩, isHashInEitherCase_heatHash⟩

theorem not_isRow_null : ¬IsRow .null := by
  rintro ⟨-, s, ⟨before, after, hnull, -⟩, -⟩
  cases hnull

/-- A row that is no entry does not keep the one before it from being read. -/
theorem rows_judged_alone_heat :
    Value.parse? heatList = some (.array [heatRow, .null]) ∧
    Value.parse? wrappedList =
      some (.object [("torrents", .null), ("torrents", .array [heatRow, .null])]) ∧
    (∃ e, entriesOfJson heatList = .ok [e] ∧ entriesOfJson wrappedList = .ok [e] ∧
      Text.EqUpToCase heatHash e.infoHash) ∧
    (Value.parse? "\x7b\x7d" = some (.object []) ∧ entriesOfJson "\x7b\x7d" = .ok []) ∧
    Value.parse? "[" = none ∧ ∃ m, entriesOfJson "[" = .error m := by
  obtain ⟨hlists, hrows, ⟨-, hlacks⟩, hother⟩ := rows_judged_alone
  obtain ⟨found, hyields, hread⟩ := hlists _ _ _ parse?_heatList (.bare _)
  have hobject : Value.parse? "\x7b\x7d" = some (.object []) := rfl
  have hopen : Value.parse? "[" = none := rfl
  refine ⟨parse?_heatList, parse?_wrappedList, ?_, ⟨hobject, hlacks _ _ hobject ⟨[], rfl, nofun⟩⟩,
    hopen, ?_⟩
  · obtain ⟨first, rest, hfirst, hrest, rfl⟩ := List.forall₂_cons_left_iff.mp hyields
    obtain ⟨second, last, hsecond, hlast, rfl⟩ := List.forall₂_cons_left_iff.mp hrest
    obtain rfl := List.forall₂_nil_left_iff.mp hlast
    obtain ⟨hsome, hentry⟩ := hrows _ _ hfirst
    obtain ⟨e, rfl⟩ := Option.isSome_iff_exists.mp (hsome.mpr isRow_heatRow)
    obtain rfl : second = none :=
      Option.not_isSome_iff_eq_none.mp fun h => not_isRow_null ((hrows _ _ hsecond).1.mp h)
    refine ⟨e, hread _ _ parse?_heatList (.bare _),
      hread _ _ parse?_wrappedList (.wrapped ⟨[_], [], rfl, nofun⟩), ?_⟩
    obtain ⟨-, -, s, hlast, hcase⟩ := hentry e rfl
    cases Value.field?_eq_some_iff.mpr hlast
    exact hcase
  · obtain ⟨m, hm, -⟩ := hother "[" (by decide) fun v hv => by rw [hopen] at hv; cases hv
    exact ⟨m, hm⟩

end Snapshot

end Harvest
