import Harvest.Proofs.Crawl.Outage
import Harvest.Proofs.Search.Stored

/-!
# The titles that names are linked to

A name is linked to a row of the catalog. A row that the catalog is searched for is judged itself:
it is of the kind that is looked for and not for adults. A result of the external search is judged
in place of the row, and the row may be another one: the one that had the external id of the result
before. So a name can be linked to a row that may not be linked to, and it is so exactly if there
was such a row with that external id.

## Main definitions

* `MediaRow.Suits` — a row that names of a kind may be linked to

## Main results

* `Crawler.suits_of_resolveInCatalog` — the catalog itself leads to rows that suit
* `Crawler.exists_of_linkFirst` — the external search leads to the row with the id of a result
* `Crawler.resolve_suits_iff` — when a name is linked to a row that suits
-/

namespace Harvest

open CrawlStep

/-- A row that names of a kind may be linked to: it is of that kind, as it is read, and not for
adults. -/
structure MediaRow.Suits (row : MediaRow) (m : MediaType) : Prop where
  kind : (MediaType.ofName? row.kind).getD .movie = m
  adult : row.adult = false

theorem MediaRow.suits_of_kind {row : MediaRow} {m : MediaType} (hkind : row.kind = m.name)
    (hadult : row.adult = false) : row.Suits m where
  kind := by rw [hkind, MediaType.ofName?_name, Option.getD_some]
  adult := hadult

theorem MediaTable.suits_newRow (id : Nat) (n : NewTitle) (m : MediaType) :
    (newRow id n m).Suits m := MediaRow.suits_of_kind rfl rfl

namespace Crawler

variable {c : Crawler} {s t : Crawl} {r : ResolutionRequest} {table : MediaTable} {id : String}

theorem catalog_eq (hmedia : s.db.media = some table) : s.db.catalog = .ok table := by
  rw [Database.catalog, hmedia]
  rfl

/-- The external id of a row is looked up under its number. -/
theorem externalId_of_canonicalId {row : MediaRow} (hmedia : s.db.media = some table)
    (hwf : table.WellFormed) (hrow : row ∈ table.rows)
    (h : canonicalId row.id s = (.ok (some id), t)) : row.externalId = some id := by
  obtain ⟨rfl, hid⟩ := query_ok h
  rw [Database.externalIdOf, catalog_eq hmedia] at hid
  exact (hwf.externalIdOf_of_mem hrow).symm.trans (Except.ok.inj hid)

/-- A title that is considered was read from a row of the kind of the request. -/
theorem exists_of_mem_considered (hmedia : s.db.media = some table) {title : CatalogTitle}
    (h : title ∈ c.considered r s.db) :
    ∃ row ∈ table.rows, row.kind = r.key.mediaType.name ∧ row.read = .ok title := by
  unfold considered at h
  cases hsearch : s.db.searchMedia r.title r.key.mediaType c.settings.localLimit with
  | error e => rw [hsearch] at h; cases h
  | ok ts =>
    rw [hsearch] at h
    rw [Database.searchMedia, catalog_eq hmedia] at hsearch
    dsimp only [Except.bind] at hsearch
    exact MediaTable.exists_of_mem_search hsearch h

/-- Nothing is changed when the catalog is searched. -/
theorem eq_of_resolveInCatalog {found : Option String}
    (h : c.resolveInCatalog r s = (.ok found, t)) : t = s := by
  obtain ⟨ts, u, hts, hlink⟩ := bind_ok h
  obtain ⟨rfl, -⟩ := query_ok hts
  cases hfind : ts.find? (c.acceptsTitle r) with
  | none =>
    rw [hfind] at hlink
    exact (pure_ok hlink).2
  | some title =>
    rw [hfind] at hlink
    exact (query_ok hlink).1

/-- The catalog itself leads to a row that suits. -/
theorem suits_of_resolveInCatalog (hmedia : s.db.media = some table) (hwf : table.WellFormed)
    (h : c.resolveInCatalog r s = (.ok (some id), t)) :
    ∃ row ∈ table.rows, row.externalId = some id ∧ row.Suits r.key.mediaType := by
  obtain ⟨ts, u, hts, hlink⟩ := bind_ok h
  obtain ⟨rfl, hts⟩ := query_ok hts
  cases hfind : ts.find? (c.acceptsTitle r) with
  | none => rw [hfind] at hlink; cases hlink
  | some title =>
    have hmem : title ∈ c.considered r u.db := by
      rw [Except.ok.inj hts]
      exact List.mem_of_find?_eq_some hfind
    obtain ⟨row, hrow, hkind, hread⟩ := exists_of_mem_considered hmedia hmem
    obtain ⟨hid, -, hadult⟩ := MediaRow.read_ok hread
    rw [hfind] at hlink
    dsimp only at hlink
    rw [hid] at hlink
    have haccepts := List.find?_some hfind
    obtain ⟨-, htitle, -⟩ := Candidate.of_accepts (Bool.and_eq_true_iff.mp haccepts).2
    exact ⟨row, hrow, externalId_of_canonicalId hmedia hwf hrow hlink,
      MediaRow.suits_of_kind hkind (hadult.symm.trans htitle)⟩

/-- The external search leads to the row with the id of a result: the row that was there before, or
else a new one. -/
theorem exists_of_linkFirst {m : MediaType} {ns : List NewTitle} (hmedia : s.db.media = some table)
    (hwf : table.WellFormed) (h : linkFirst m ns s = (.ok (some id), t)) :
    ∃ n ∈ ns, n.externalId = id ∧ t.db.media = some (table.addUnlessKnown n m) := by
  cases ns with
  | nil => cases h
  | cons n ns =>
    obtain ⟨found, u, hfound, hlink⟩ := bind_ok h
    obtain ⟨d, hd, rfl⟩ := perform_ok hfound
    rw [Database.getOrCreateMedia, catalog_eq hmedia] at hd
    dsimp only at hd
    rw [MediaTable.getOrCreate_eq] at hd
    -- the row that is read has the external id of the title
    obtain ⟨hrow, hx⟩ := MediaTable.find?_eq_some (table.find?_addUnlessKnown n m)
    cases hread : ((table.find? n.externalId).getD (MediaTable.newRow (table.lastId + 1) n m)).read
      with
    | error e => rw [hread] at hd; cases hd
    | ok title =>
      rw [hread] at hd
      cases hd
      obtain ⟨hid, -, -⟩ := MediaRow.read_ok hread
      dsimp only at hlink
      rw [hid] at hlink
      have hx' := externalId_of_canonicalId rfl (hwf.addUnlessKnown n m) hrow hlink
      obtain ⟨rfl, -⟩ := query_ok hlink
      exact ⟨n, List.mem_cons_self, Option.some.inj (hx.symm.trans hx'), rfl⟩

/-- When a name is linked to a row of the catalog, the row is of the kind of the name and not for
adults exactly if no row that the catalog had under the external id before was of another kind or
for adults. If the catalog itself leads to the row, it always suits. -/
theorem resolve_suits_iff (hmedia : s.db.media = some table) (hwf : table.WellFormed)
    (h : c.resolve r s = (.ok (some id), t)) :
    ∃ table' row, t.db.media = some table' ∧ table'.WellFormed ∧ table'.find? id = some row ∧
      ((c.resolveInCatalog r s).1 = .ok (some id) → row.Suits r.key.mediaType) ∧
      (row.Suits r.key.mediaType ↔
        ∀ old ∈ table.rows, old.externalId = some id → old.Suits r.key.mediaType) := by
  obtain ⟨found, u, hfound, hlink⟩ := bind_ok h
  obtain rfl := eq_of_resolveInCatalog hfound
  cases found with
  | some id' =>
    obtain ⟨hid, rfl⟩ := pure_ok hlink
    cases hid
    obtain ⟨row, hrow, hx, hsuits⟩ := suits_of_resolveInCatalog hmedia hwf hfound
    refine ⟨table, row, hmedia, hwf, hwf.find?_of_mem hrow hx, fun _ => hsuits,
      iff_of_true hsuits fun old hold hx' => ?_⟩
    rwa [hwf.eq_of_externalId hold hrow hx' hx]
  | none =>
    have hlocal : (c.resolveInCatalog r u).1 ≠ .ok (some id) := by
      rw [hfound]
      exact fun hsome => nomatch hsome
    obtain ⟨answer, v, hask, hlink⟩ := bind_ok hlink
    cases hask
    cases hanswer : c.search u.queries (c.queryOf r) with
    | failed => rw [hanswer] at hlink; cases hlink
    | timedOut => rw [hanswer] at hlink; cases hlink
    | found results =>
      rw [hanswer] at hlink
      have hdb : ({ u with queries := u.queries ++ [c.queryOf r] } : Crawl).db.media = some table :=
        hmedia
      obtain ⟨n, -, rfl, ht⟩ := exists_of_linkFirst hdb hwf hlink
      refine ⟨_, _, ht, hwf.addUnlessKnown n _, table.find?_addUnlessKnown n _,
        fun hsome => absurd hsome hlocal, ?_⟩
      cases hold : table.find? n.externalId with
      | none =>
        -- the row is a new one
        have hnone := MediaTable.find?_eq_none_iff.mp hold
        exact iff_of_true (MediaTable.suits_newRow _ n _) fun old hmem hx =>
          absurd hx (hnone old hmem)
      | some old =>
        obtain ⟨hmem, hx⟩ := MediaTable.find?_eq_some hold
        rw [Option.getD_some]
        exact ⟨fun hsuits old' hmem' hx' => hwf.eq_of_externalId hmem hmem' hx hx' ▸ hsuits,
          fun hall => hall old hmem hx⟩

end Crawler

/-! ### A small example -/

/-- A row for adults that has the external id of another film. -/
def MediaRow.mistaken : MediaRow where
  id := 1
  externalId := some "tt1"
  title := "Heat"
  year := none
  endYear := none
  kind := "movie"
  adult := true

/-- A catalog of this row. -/
def MediaTable.mistaken : MediaTable := ⟨[.mistaken], 1⟩

theorem MediaTable.wellFormed_mistaken : MediaTable.mistaken.WellFormed where
  ids := List.pairwise_singleton _ _
  id_le := List.forall_mem_singleton.mpr (Nat.le_refl 1)
  externalIds := List.nodup_singleton "tt1"

/-- A crawl over a new database with this catalog. -/
def Crawl.mistaken : Crawl where
  db := { Database.fresh with media := some .mistaken }

/-- The request to link the film. -/
def ResolutionRequest.heat : ResolutionRequest := .ofTitle "Heat" none .movie "Heat"

namespace Crawler

/-- The catalog passes over the row, which is for adults, but the search leads to it. -/
theorem mistaken_linked :
    (healed.resolveInCatalog .heat .mistaken).1 = .ok none ∧
    (healed.resolve .heat .mistaken).1 = .ok (some "tt1") ∧
    (healed.resolve .heat .mistaken).2.db.media.bind (·.find? "tt1") = some .mistaken ∧
    ¬MediaRow.mistaken.Suits ResolutionRequest.heat.key.mediaType := by
  refine ⟨by decide +kernel, by decide +kernel, by decide +kernel, fun hsuits => ?_⟩
  cases hsuits.adult

theorem mistaken_suits_iff :
    Crawl.mistaken.db.media = some .mistaken ∧ MediaTable.mistaken.WellFormed ∧
    healed.resolve .heat .mistaken = (.ok (some "tt1"), (healed.resolve .heat .mistaken).2) ∧
    ∃ table' row, (healed.resolve .heat .mistaken).2.db.media = some table' ∧
      table'.WellFormed ∧ table'.find? "tt1" = some row ∧
      ((healed.resolveInCatalog .heat .mistaken).1 = .ok (some "tt1") → row.Suits .movie) ∧
      (row.Suits .movie ↔
        ∀ old ∈ MediaTable.mistaken.rows, old.externalId = some "tt1" → old.Suits .movie) := by
  have hlinked :
      healed.resolve .heat .mistaken = (.ok (some "tt1"), (healed.resolve .heat .mistaken).2) :=
    Prod.ext (by decide +kernel) rfl
  have hmedia : Crawl.mistaken.db.media = some .mistaken := rfl
  exact ⟨hmedia, MediaTable.wellFormed_mistaken, hlinked,
    resolve_suits_iff hmedia MediaTable.wellFormed_mistaken hlinked⟩

end Crawler

end Harvest
