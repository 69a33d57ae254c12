import Harvest.Store.Media
import Mathlib.Data.List.Nodup

/-!
# Titles of the catalog

The numbers and the external ids of a catalog are unique, so either of them leads to one row. A
title that is offered gets a row of its own, unless there is one with its external id already.
Either way there is exactly one such row afterwards, and it is the one that is read.

## Main definitions

* `YearFits`, `MediaRow.IsReadable` — years that can be read
* `MediaTable.WellFormed` — numbers and external ids are unique
* `MediaRow.asRead`, `NewTitle.asRead` — what is read of a row, and of the row of a new title

## Main results

* `MediaRow.read_ok_iff`, `MediaRow.mapM_read_ok_iff` — which rows can be read
* `MediaTable.WellFormed.insert`, `MediaTable.WellFormed.addUnlessKnown` — uniqueness stays
* `MediaTable.getOrCreate_eq` — the row that is read when a title is offered
* `MediaTable.read_newRow` — what is read of a new row
* `MediaTable.search_ok_iff` — when a search succeeds, and with what
* `MediaTable.exists_of_mem_search` — the rows behind the titles that are found
-/

namespace Harvest

/-! ### Years -/

/-- The year, if there is one, fits the 32 bits with which it is read. -/
def YearFits (year : Option Int) : Prop := ∀ n, year = some n → Bits.holdsSigned 32 n = true

theorem yearFits_none : YearFits none := fun n hn => by cases hn

theorem YearFits.or {year year' : Option Int} (h : YearFits year) (h' : YearFits year') :
    YearFits (year.or year') := by
  cases year with
  | none => exact h'
  | some n => exact h

theorem narrowYear_of_fits {year : Option Int} (h : YearFits year) (column : Nat) :
    narrowYear column year = .ok year := by
  cases year with
  | none => rfl
  | some n => simp [narrowYear, h n rfl]

theorem narrowYear_ok_iff {column : Nat} {year y : Option Int} :
    narrowYear column year = .ok y ↔ YearFits year ∧ y = year := by
  constructor
  · intro h
    cases year with
    | none =>
      cases h
      exact ⟨yearFits_none, rfl⟩
    | some n =>
      unfold narrowYear at h
      by_cases hfits : Bits.holdsSigned 32 n = true
      · simp only [hfits, if_true] at h
        cases h
        refine ⟨fun k hk => ?_, rfl⟩
        cases hk
        exact hfits
      · simp only [hfits] at h
        cases h
  · rintro ⟨hfits, rfl⟩
    exact narrowYear_of_fits hfits column

/-- The years of a row can be read. -/
structure MediaRow.IsReadable (row : MediaRow) : Prop where
  year : YearFits row.year
  endYear : YearFits row.endYear

/-- What is read of a row whose years can be read. -/
def MediaRow.asRead (r : MediaRow) : CatalogTitle :=
  ⟨r.id, r.externalId, r.title, r.year, r.endYear, (MediaType.ofName? r.kind).getD .movie, r.adult⟩

namespace MediaRow

/-- A row is read as it is, if its years can be read. -/
theorem read_ok_iff {row : MediaRow} {x : CatalogTitle} :
    row.read = .ok x ↔ row.IsReadable ∧ x = row.asRead := by
  constructor
  · intro h
    unfold read at h
    cases hyear : narrowYear 3 row.year with
    | error e => rw [hyear] at h; cases h
    | ok year =>
      cases hend : narrowYear 4 row.endYear with
      | error e => rw [hyear, hend] at h; cases h
      | ok endYear =>
        rw [hyear, hend] at h
        cases h
        obtain ⟨hfits, rfl⟩ := narrowYear_ok_iff.mp hyear
        obtain ⟨hfits', rfl⟩ := narrowYear_ok_iff.mp hend
        exact ⟨⟨hfits, hfits'⟩, rfl⟩
  · rintro ⟨⟨hfits, hfits'⟩, rfl⟩
    rw [read, narrowYear_of_fits hfits, narrowYear_of_fits hfits']
    rfl

/-- A row is read under its number, with its external id and its mark for adults. -/
theorem read_ok {row : MediaRow} {title : CatalogTitle} (h : row.read = .ok title) :
    title.id = row.id ∧ title.externalId = row.externalId ∧ title.adult = row.adult := by
  obtain ⟨-, rfl⟩ := read_ok_iff.mp h
  exact ⟨rfl, rfl, rfl⟩

theorem IsReadable.exists_read {row : MediaRow} (h : row.IsReadable) : ∃ t, row.read = .ok t :=
  ⟨row.asRead, read_ok_iff.mpr ⟨h, rfl⟩⟩

/-- Rows are read one by one, unless one of them cannot be read. -/
theorem mapM_read_ok_iff {rows : List MediaRow} {ts : List CatalogTitle} :
    rows.mapM read = .ok ts ↔ (∀ r ∈ rows, r.IsReadable) ∧ ts = rows.map asRead := by
  induction rows generalizing ts with
  | nil =>
    constructor
    · intro h
      cases h
      exact ⟨List.forall_mem_nil _, rfl⟩
    · rintro ⟨-, rfl⟩
      rfl
  | cons r rows ih =>
    rw [List.mapM_cons, List.forall_mem_cons, List.map_cons]
    constructor
    · intro h
      cases hr : r.read with
      | error e => rw [hr] at h; cases h
      | ok x =>
        cases hrows : rows.mapM read with
        | error e => rw [hr, hrows] at h; cases h
        | ok xs =>
          rw [hr, hrows] at h
          cases h
          obtain ⟨hreadable, rfl⟩ := read_ok_iff.mp hr
          obtain ⟨hall, rfl⟩ := ih.mp hrows
          exact ⟨⟨hreadable, hall⟩, rfl⟩
    · rintro ⟨⟨hr, hrows⟩, rfl⟩
      rw [read_ok_iff.mpr ⟨hr, rfl⟩, ih.mpr ⟨hrows, rfl⟩]
      rfl

end MediaRow

/-! ### Unique numbers and ids -/

namespace MediaTable

/-- The numbers are given out in order, and no external id is given twice. -/
structure WellFormed (t : MediaTable) : Prop where
  ids : t.rows.Pairwise (·.id < ·.id)
  id_le : ∀ r ∈ t.rows, r.id ≤ t.lastId
  externalIds : (t.rows.filterMap (·.externalId)).Nodup

variable {t : MediaTable} {r r' : MediaRow} {n : NewTitle} {m : MediaType} {x : String}

theorem find?_eq_some (h : t.find? x = some r) : r ∈ t.rows ∧ r.externalId = some x := by
  have hx := List.find?_some h
  exact ⟨List.mem_of_find?_eq_some h, beq_iff_eq.mp hx⟩

theorem find?_eq_none_iff : t.find? x = none ↔ ∀ r ∈ t.rows, r.externalId ≠ some x := by
  simp [find?, List.find?_eq_none]

namespace WellFormed

/-- A number leads to one row. -/
theorem eq_of_id (h : t.WellFormed) (hr : r ∈ t.rows) (hr' : r' ∈ t.rows) (hid : r.id = r'.id) :
    r = r' := by
  have hnodup : (t.rows.map (·.id)).Nodup := List.pairwise_map.mpr (h.ids.imp Nat.ne_of_lt)
  exact List.inj_on_of_nodup_map hnodup hr hr' hid

/-- An external id leads to one row. -/
theorem eq_of_externalId (h : t.WellFormed) (hr : r ∈ t.rows) (hr' : r' ∈ t.rows)
    (hx : r.externalId = some x) (hx' : r'.externalId = some x) : r = r' := by
  have hne : t.rows.Pairwise fun a b => a.externalId = some x → b.externalId = some x → a = b :=
    (List.pairwise_filterMap.mp h.externalIds).imp fun hab ha hb => absurd rfl (hab x ha x hb)
  have hflip := hne.imp fun hab hb ha => (hab ha hb).symm
  exact List.Pairwise.forall_of_forall_of_flip (fun _ _ _ _ => rfl) hne hflip hr hr' hx hx'

theorem find?_of_mem (h : t.WellFormed) (hr : r ∈ t.rows) (hx : r.externalId = some x) :
    t.find? x = some r := by
  cases hfind : t.find? x with
  | none => exact absurd hx (find?_eq_none_iff.mp hfind r hr)
  | some r' =>
    obtain ⟨hr', hx'⟩ := find?_eq_some hfind
    rw [h.eq_of_externalId hr hr' hx hx']

theorem externalIdOf_of_mem (h : t.WellFormed) (hr : r ∈ t.rows) :
    t.externalIdOf r.id = r.externalId := by
  unfold externalIdOf
  cases hfind : t.rows.find? fun row => (row.id : Int) == r.id with
  | none => simpa using List.find?_eq_none.mp hfind r hr
  | some r' =>
    have hid := List.find?_some hfind
    have heq : r' = r :=
      h.eq_of_id (List.mem_of_find?_eq_some hfind) hr (Int.ofNat_inj.mp (beq_iff_eq.mp hid))
    rw [heq]
    rfl

/-- One more row, with the next number and a new external id. -/
theorem append (h : t.WellFormed) (hid : r.id = t.lastId + 1)
    (hx : ∀ x, r.externalId = some x → t.find? x = none) :
    WellFormed ⟨t.rows ++ [r], t.lastId + 1⟩ where
  ids := by
    refine List.pairwise_append.mpr ⟨h.ids, List.pairwise_singleton _ r, fun a ha b hb => ?_⟩
    rw [List.mem_singleton.mp hb, hid]
    exact Nat.lt_succ_of_le (h.id_le a ha)
  id_le a ha := by
    rcases List.mem_append.mp ha with ha | ha
    · exact Nat.le_succ_of_le (h.id_le a ha)
    · exact Nat.le_of_eq (List.mem_singleton.mp ha ▸ hid)
  externalIds := by
    rw [List.filterMap_append]
    refine List.nodup_append.mpr ⟨h.externalIds, ?_, fun a ha b hb hab => ?_⟩
    · cases hr : r.externalId <;> simp [hr]
    · obtain ⟨r', hr', ha⟩ := List.mem_filterMap.mp ha
      obtain ⟨r'', hr'', hb⟩ := List.mem_filterMap.mp hb
      rw [List.mem_singleton.mp hr''] at hb
      exact find?_eq_none_iff.mp (hx b hb) r' hr' (hab ▸ ha)

theorem insert {id : Nat} {t' : MediaTable} (h : t.WellFormed) (hr : t.insert r = .ok (id, t')) :
    t'.WellFormed := by
  unfold MediaTable.insert at hr
  dsimp only at hr
  split at hr
  · cases hr
  next hnew =>
    cases hr
    refine h.append rfl fun x hx => ?_
    have hnone : (r.externalId.bind t.find?).isSome = false := eq_false_of_ne_true hnew
    rw [show r.externalId = some x from hx] at hnone
    exact Option.isNone_iff_eq_none.mp (by simpa using hnone)

theorem addUnlessKnown (h : t.WellFormed) (n : NewTitle) (m : MediaType) :
    (t.addUnlessKnown n m).WellFormed := by
  unfold MediaTable.addUnlessKnown
  dsimp only
  split
  · -- the number is used up all the same
    exact ⟨h.ids, fun a ha => Nat.le_succ_of_le (h.id_le a ha), h.externalIds⟩
  next hnew =>
    refine h.append rfl fun x hx => ?_
    cases hx
    simpa using hnew

end WellFormed

/-! ### Titles that are offered -/

theorem rows_addUnlessKnown_of_new (hnew : t.find? n.externalId = none) :
    (t.addUnlessKnown n m).rows = t.rows ++ [newRow (t.lastId + 1) n m] := by
  unfold addUnlessKnown
  dsimp only
  rw [hnew]
  rfl

theorem rows_addUnlessKnown_of_known (hknown : t.find? n.externalId = some r) :
    (t.addUnlessKnown n m).rows = t.rows := by
  unfold addUnlessKnown
  dsimp only
  rw [hknown]
  rfl

/-- After a title has been offered, there is a row with its external id: the one that was there
before, or else a new one. -/
theorem find?_addUnlessKnown (t : MediaTable) (n : NewTitle) (m : MediaType) :
    (t.addUnlessKnown n m).find? n.externalId =
      some ((t.find? n.externalId).getD (newRow (t.lastId + 1) n m)) := by
  cases hknown : t.find? n.externalId with
  | some r =>
    rw [find?, rows_addUnlessKnown_of_known hknown]
    exact hknown
  | none =>
    rw [find?, rows_addUnlessKnown_of_new hknown, List.find?_append]
    unfold find? at hknown
    rw [hknown, Option.none_or]
    exact List.find?_cons_of_pos (beq_self_eq_true (some n.externalId))

/-- No other external id is touched. -/
theorem find?_addUnlessKnown_of_ne (t : MediaTable) (m : MediaType) (hne : n.externalId ≠ x) :
    (t.addUnlessKnown n m).find? x = t.find? x := by
  cases hknown : t.find? n.externalId with
  | some r => rw [find?, rows_addUnlessKnown_of_known hknown, find?]
  | none =>
    have hother : ((newRow (t.lastId + 1) n m).externalId == some x) = false :=
      beq_eq_false_iff_ne.mpr fun heq => hne (Option.some.inj heq)
    rw [find?, rows_addUnlessKnown_of_new hknown, List.find?_append,
      List.find?_singleton, hother, find?]
    exact Option.or_none

@[simp] theorem lastId_addUnlessKnown (t : MediaTable) (n : NewTitle) (m : MediaType) :
    (t.addUnlessKnown n m).lastId = t.lastId + 1 := by
  unfold addUnlessKnown
  dsimp only
  split <;> rfl

/-- A title with a year that can be read keeps the rows readable. -/
theorem readable_addUnlessKnown (hrows : ∀ row ∈ t.rows, row.IsReadable) (hn : YearFits n.year)
    (m : MediaType) : ∀ row ∈ (t.addUnlessKnown n m).rows, row.IsReadable := by
  intro row hrow
  cases hknown : t.find? n.externalId with
  | some r =>
    rw [rows_addUnlessKnown_of_known hknown] at hrow
    exact hrows row hrow
  | none =>
    rw [rows_addUnlessKnown_of_new hknown] at hrow
    rcases List.mem_append.mp hrow with hrow | hrow
    · exact hrows row hrow
    · rw [List.mem_singleton.mp hrow]
      exact ⟨hn, yearFits_none⟩

/-- What is read is the row that was there before, or else the new one. -/
theorem getOrCreate_eq (t : MediaTable) (n : NewTitle) (m : MediaType) :
    t.getOrCreate n m = (((t.find? n.externalId).getD (newRow (t.lastId + 1) n m)).read.map some,
      t.addUnlessKnown n m) := by
  rw [getOrCreate, readByExternalId, find?_addUnlessKnown]

end MediaTable

/-- What is read of the row of a new title. -/
def NewTitle.asRead (n : NewTitle) (id : Nat) (m : MediaType) : CatalogTitle :=
  ⟨id, some n.externalId, n.title, n.year, none, m, false⟩

theorem MediaTable.read_newRow {n : NewTitle} (hn : YearFits n.year) (id : Nat) (m : MediaType) :
    (newRow id n m).read = .ok (n.asRead id m) := by
  unfold MediaRow.read newRow
  dsimp only
  rw [narrowYear_of_fits hn, narrowYear_of_fits yearFits_none, MediaType.ofName?_name]
  rfl

/-! ### Titles that are found -/

namespace MediaTable

variable {t : MediaTable} {row : MediaRow} {title : String} {m : MediaType} {limit : Nat}
  {found : List CatalogTitle} {x : CatalogTitle}

/-- Ranking leaves no title out. -/
theorem rank_perm (title : String) (ts : List CatalogTitle) : (rank title ts).Perm ts := by
  have hperm := (List.mergeSort_perm
    (ts.map fun t => (Title.bestSimilarity title.toList t.title.toList, t)) ranksBefore).map (·.2)
  rw [List.map_map] at hperm
  exact hperm.trans (.of_eq (List.map_id _))

/-- A search succeeds unless the word is too long or a row that has to be ranked cannot be read. -/
theorem search_ok_iff : t.search title m limit = .ok found ↔
    (Catalog.isTooLong (Catalog.searchToken title.toList) &&
      t.rows.any (·.kind == m.name)) = false ∧
    (∀ r ∈ t.scan m (Catalog.searchToken title.toList), r.IsReadable) ∧
    found = (rank title
      ((t.scan m (Catalog.searchToken title.toList)).map MediaRow.asRead)).take limit := by
  unfold search
  dsimp only
  by_cases hlong : (Catalog.isTooLong (Catalog.searchToken title.toList) &&
      t.rows.any (·.kind == m.name)) = true
  · rw [if_pos hlong]
    refine iff_of_false (fun h => by cases h) fun h => ?_
    exact absurd hlong (ne_true_of_eq_false h.1)
  · rw [if_neg hlong]
    cases hread : (t.scan m (Catalog.searchToken title.toList)).mapM MediaRow.read with
    | error e =>
      refine iff_of_false (fun h => by cases h) fun h => ?_
      rw [MediaRow.mapM_read_ok_iff.mpr ⟨h.2.1, rfl⟩] at hread
      cases hread
    | ok ts =>
      obtain ⟨hall, rfl⟩ := MediaRow.mapM_read_ok_iff.mp hread
      constructor
      · intro h
        cases h
        exact ⟨eq_false_of_ne_true hlong, hall, rfl⟩
      · rintro ⟨-, -, rfl⟩
        rfl

/-- A title that is found was read from a row of the kind that was looked for. -/
theorem exists_of_mem_search (h : t.search title m limit = .ok found) (hx : x ∈ found) :
    ∃ row ∈ t.rows, row.kind = m.name ∧ row.read = .ok x := by
  obtain ⟨-, hall, rfl⟩ := search_ok_iff.mp h
  have hranked := (rank_perm title _).mem_iff.mp (List.mem_of_mem_take hx)
  obtain ⟨row, hrow, rfl⟩ := List.mem_map.mp hranked
  obtain ⟨hmem, hkind⟩ := List.mem_filter.mp (List.mem_of_mem_take hrow)
  exact ⟨row, hmem, beq_iff_eq.mp (Bool.and_eq_true_iff.mp hkind).1,
    MediaRow.read_ok_iff.mpr ⟨hall row hrow, rfl⟩⟩

end MediaTable

end Harvest
