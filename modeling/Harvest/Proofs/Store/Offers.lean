import Harvest.Proofs.Store.Catalog

/-!
# Titles that are offered in a row

Whatever titles are offered to the catalog one after the other, the first one with an external id
gets the row, unless there was one before, and all of them are answered with this row. Nothing that
stands in the catalog is changed, and an offer that is repeated adds nothing.

## Main definitions

* `Offer` — a title that is offered, and its kind
* `MediaTable.offerAll` — offers in a row, with their answers
* `MediaTable.written?` — the row that an external id leads to after some offers
* `Offer.IsAnswered`, `MediaTable.Offered` — what becomes of offers

## Main results

* `MediaTable.find?_offerAll` — the first offer with an external id counts
* `MediaTable.answers_offerAll` — later offers do not change what earlier ones were answered
* `MediaTable.offered_offerAll` — what becomes of offers over a catalog that can be read
-/

namespace Harvest

/-- A title that is offered to the catalog, and its kind. -/
structure Offer where
  title : NewTitle
  kind : MediaType
  deriving DecidableEq, Repr

namespace Offer

/-- The external id of the title. -/
def externalId (o : Offer) : String := o.title.externalId

/-- The row of the title under a number. -/
def row (o : Offer) (id : Nat) : MediaRow := MediaTable.newRow id o.title o.kind

/-- The row of the first of some offers with an external id, where the offers use up the numbers from
a certain one on. -/
def firstRow? (os : List Offer) (id : Nat) (x : String) : Option MediaRow :=
  ((os.zipIdx id).find? (·.1.externalId == x)).map fun p => p.1.row p.2

variable {o : Offer} {x : String}

theorem firstRow?_cons_of_eq (os : List Offer) (id : Nat) (hx : o.externalId = x) :
    firstRow? (o :: os) id x = some (o.row id) := by
  simp [firstRow?, List.zipIdx_cons, hx]

theorem firstRow?_cons_of_ne (os : List Offer) (id : Nat) (hx : o.externalId ≠ x) :
    firstRow? (o :: os) id x = firstRow? os (id + 1) x := by
  simp [firstRow?, List.zipIdx_cons, hx]

end Offer

namespace MediaTable

/-- The answer to an offer, and the table afterwards. -/
def offer (t : MediaTable) (o : Offer) : Except StoreError (Option CatalogTitle) × MediaTable :=
  t.getOrCreate o.title o.kind

/-- The answers to some offers in a row, and the table afterwards. -/
def offerAll (t : MediaTable) :
    List Offer → List (Except StoreError (Option CatalogTitle)) × MediaTable
  | [] => ([], t)
  | o :: os =>
    let (answer, t) := t.offer o
    let (answers, t) := t.offerAll os
    (answer :: answers, t)

/-- The row that an external id leads to after some offers: the one that was there before, or else
that of the first offer with this id. -/
def written? (t : MediaTable) (os : List Offer) (x : String) : Option MediaRow :=
  (t.find? x).or (Offer.firstRow? os (t.lastId + 1) x)

variable {t : MediaTable} {o : Offer} {os : List Offer} {x : String} {row : MediaRow}

theorem offer_snd (t : MediaTable) (o : Offer) :
    (t.offer o).2 = t.addUnlessKnown o.title o.kind := rfl

theorem offer_fst (t : MediaTable) (o : Offer) :
    (t.offer o).1 = (t.offer o).2.readByExternalId o.externalId := rfl

theorem offerAll_cons_fst (t : MediaTable) (o : Offer) (os : List Offer) :
    (t.offerAll (o :: os)).1 = (t.offer o).1 :: ((t.offer o).2.offerAll os).1 := rfl

theorem offerAll_cons_snd (t : MediaTable) (o : Offer) (os : List Offer) :
    (t.offerAll (o :: os)).2 = ((t.offer o).2.offerAll os).2 := rfl

/-- After an offer there is a row with its external id. -/
theorem find?_offer (t : MediaTable) (o : Offer) : (t.offer o).2.find? o.externalId =
    some ((t.find? o.externalId).getD (o.row (t.lastId + 1))) :=
  find?_addUnlessKnown t o.title o.kind

/-- After some offers an external id leads to the row that was there before, or else to that of the
first offer with this id. -/
theorem find?_offerAll (t : MediaTable) (os : List Offer) (x : String) :
    (t.offerAll os).2.find? x = t.written? os x := by
  induction os generalizing t with
  | nil => exact Option.or_none.symm
  | cons o os ih =>
    rw [offerAll_cons_snd, ih, written?, written?]
    by_cases hx : o.externalId = x
    · -- the first offer settles what its own id leads to
      rw [Offer.firstRow?_cons_of_eq os _ hx]
      subst hx
      rw [find?_offer, Option.some_or]
      cases t.find? o.externalId <;> rfl
    · rw [Offer.firstRow?_cons_of_ne os _ hx, offer_snd, find?_addUnlessKnown_of_ne _ _ hx,
        lastId_addUnlessKnown]

/-- What an external id leads to is not changed by offers. -/
theorem find?_offerAll_of_some (h : t.find? x = some row) (os : List Offer) :
    (t.offerAll os).2.find? x = some row := by
  rw [find?_offerAll, written?, h, Option.some_or]

theorem exists_find?_offerAll (ho : o ∈ os) (t : MediaTable) :
    ∃ row, (t.offerAll os).2.find? o.externalId = some row := by
  induction os generalizing t with
  | nil => cases ho
  | cons o' os ih =>
    rw [offerAll_cons_snd]
    rcases List.mem_cons.mp ho with rfl | ho
    · exact ⟨_, find?_offerAll_of_some (find?_offer t o) os⟩
    · exact ih ho _

/-- Every offer is answered with the row that its external id leads to in the end. -/
theorem answers_offerAll (t : MediaTable) (os : List Offer) : (t.offerAll os).1 =
    os.map fun o => (t.offerAll os).2.readByExternalId o.externalId := by
  induction os generalizing t with
  | nil => rfl
  | cons o os ih =>
    have hfirst := find?_offerAll_of_some (find?_offer t o) os
    rw [offerAll_cons_fst, offerAll_cons_snd, ih, List.map_cons, offer_fst, readByExternalId,
      find?_offer, readByExternalId, hfirst]

/-- Nothing is changed by offers, and the ids stay unique. -/
theorem WellFormed.offerAll (h : t.WellFormed) (os : List Offer) :
    (t.offerAll os).2.WellFormed ∧ t.rows <+: (t.offerAll os).2.rows := by
  induction os generalizing t with
  | nil => exact ⟨h, List.prefix_rfl⟩
  | cons o os ih =>
    obtain ⟨hwf, hkept⟩ := ih (h.addUnlessKnown o.title o.kind)
    exact ⟨hwf, (t.rows_addUnlessKnown o.title o.kind).trans hkept⟩

theorem readable_offerAll (hrows : ∀ row ∈ t.rows, row.IsReadable)
    (hos : ∀ o ∈ os, YearFits o.title.year) :
    ∀ row ∈ (t.offerAll os).2.rows, row.IsReadable := by
  induction os generalizing t with
  | nil => exact hrows
  | cons o os ih =>
    obtain ⟨ho, hos⟩ := List.forall_mem_cons.mp hos
    exact ih (readable_addUnlessKnown hrows ho o.kind) hos

/-- An offer whose external id is known adds no row. -/
theorem rows_offer_of_known (h : t.find? o.externalId = some row) : (t.offer o).2.rows = t.rows :=
  rows_addUnlessKnown_of_known h

end MediaTable

/-- The offer is answered with what is read of the row with its external id. The same offer would be
answered alike, and no row would be added. -/
structure Offer.IsAnswered (o : Offer) (t : MediaTable)
    (answer : Except StoreError (Option CatalogTitle)) : Prop where
  row : ∃ row title, t.find? o.externalId = some row ∧ row.externalId = some o.externalId ∧
    row.read = .ok title ∧ answer = .ok (some title)
  again : (t.offer o).1 = answer
  rows : (t.offer o).2.rows = t.rows

namespace MediaTable

/-- What becomes of some offers: their answers, and the table afterwards. -/
structure Offered (t : MediaTable) (os : List Offer)
    (answers : List (Except StoreError (Option CatalogTitle))) (t' : MediaTable) : Prop where
  /-- External ids stay unique. -/
  wellFormed : t'.WellFormed
  /-- No row is changed. -/
  kept : t.rows <+: t'.rows
  /-- An external id leads to the row that was there before, or else to that of the first offer. -/
  find? : ∀ x, t'.find? x = t.written? os x
  /-- All offers are answered with these rows. -/
  answered : List.Forall₂ (·.IsAnswered t' ·) os answers

variable {t : MediaTable} {o : Offer} {os : List Offer} {row : MediaRow}

/-- An offer whose external id leads to a row that can be read is answered with it. -/
theorem isAnswered_of_find? (h : t.find? o.externalId = some row) (hrow : row.IsReadable) :
    o.IsAnswered t (t.readByExternalId o.externalId) := by
  obtain ⟨title, hread⟩ := hrow.exists_read
  refine ⟨⟨row, title, h, (find?_eq_some h).2, hread, ?_⟩, ?_, rows_offer_of_known h⟩
  · rw [readByExternalId, h]
    exact congrArg (·.map some) hread
  · rw [offer_fst, readByExternalId, find?_offer, h, Option.getD_some, readByExternalId, h]

/-- What becomes of offers with years that can be read. -/
theorem offered_offerAll (hwf : t.WellFormed) (hrows : ∀ row ∈ t.rows, row.IsReadable)
    (hos : ∀ o ∈ os, YearFits o.title.year) :
    t.Offered os (t.offerAll os).1 (t.offerAll os).2 := by
  obtain ⟨hwf', hkept⟩ := hwf.offerAll os
  refine ⟨hwf', hkept, t.find?_offerAll os, ?_⟩
  rw [answers_offerAll, List.forall₂_map_right_iff]
  refine List.forall₂_same.mpr fun o ho => ?_
  obtain ⟨row, hrow⟩ := exists_find?_offerAll ho t
  exact isAnswered_of_find? hrow (readable_offerAll hrows hos row (find?_eq_some hrow).1)

end MediaTable

end Harvest
