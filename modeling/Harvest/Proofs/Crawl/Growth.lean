import Harvest.Proofs.Crawl.Links
import Harvest.Proofs.Crawl.Working
import Harvest.Proofs.Store.Offers

/-!
# How the catalog grows

When a name is linked, no title of the catalog is changed. One title is added at most: a result of
the external search that was accepted for the name, and the name is linked to it. If the name has no
title, or one that the catalog has already, then nothing is added; in the latter case nothing is
asked of the external search either. Titles come in by offers, of which the first one with an
external id counts.

## Main definitions

* `Crawler.LinkedOver` — what linking a name makes of the catalog

## Main results

* `Crawler.exists_resolveInCatalog` — over a catalog the catalog itself can always be asked
* `Crawler.linkFirst_cons` — the first title that is offered settles the link
* `Crawler.exists_linkedOver` — what linking a name makes of the catalog
* `Crawler.catalog_grows` — the same together with what becomes of offers in a row
-/

namespace Harvest

open CrawlStep

namespace Crawler

variable {c : Crawler} {s t : Crawl} {r : ResolutionRequest} {table table' : MediaTable}

theorem canonicalId_run (hmedia : s.db.media = some table) (id : Nat) :
    canonicalId id s = (.ok (table.externalIdOf id), s) := by
  rw [canonicalId, query, Database.externalIdOf, catalog_eq hmedia]
  rfl

/-- If there is a catalog, it can be asked for a title, and this changes nothing. -/
theorem exists_resolveInCatalog (c : Crawler) (r : ResolutionRequest)
    (hmedia : s.db.media = some table) : ∃ found, c.resolveInCatalog r s = (.ok found, s) := by
  cases hfind : (c.considered r s.db).find? (c.acceptsTitle r) with
  | some title =>
    refine ⟨table.externalIdOf title.id, (bind_eq rfl).trans ?_⟩
    rw [hfind]
    exact canonicalId_run hmedia title.id
  | none =>
    refine ⟨none, (bind_eq rfl).trans ?_⟩
    rw [hfind]
    rfl

/-- The name is linked to the first title that is offered. -/
theorem linkFirst_cons {n : NewTitle} {m : MediaType} (hmedia : s.db.media = some table)
    (hwf : table.WellFormed) (hrows : ∀ row ∈ table.rows, row.IsReadable) (hn : YearFits n.year)
    (ns : List NewTitle) : linkFirst m (n :: ns) s =
      (.ok (some n.externalId), s.withMedia (table.addUnlessKnown n m)) := by
  -- the row that is read is there afterwards
  have hfind := table.find?_addUnlessKnown n m
  obtain ⟨hrow, hx⟩ := MediaTable.find?_eq_some hfind
  obtain ⟨title, hread⟩ := (MediaTable.readable_addUnlessKnown hrows hn m _ hrow).exists_read
  have hoffer : perform .catalog (·.getOrCreateMedia n m) s =
      (.ok (some title), s.withMedia (table.addUnlessKnown n m)) := by
    rw [perform, Database.getOrCreateMedia, catalog_eq hmedia]
    dsimp only
    rw [MediaTable.getOrCreate_eq, hread]
    rfl
  refine (bind_eq hoffer).trans ?_
  dsimp only
  rw [canonicalId_run (show (s.withMedia (table.addUnlessKnown n m)).db.media = _ from rfl),
    (MediaRow.read_ok hread).1, (hwf.addUnlessKnown n m).externalIdOf_of_mem hrow, hx]

/-- What linking a name makes of the catalog. -/
structure LinkedOver (c : Crawler) (r : ResolutionRequest) (s : Crawl) (table : MediaTable)
    (result : Option String) (t : Crawl) (table' : MediaTable) : Prop where
  media : t.db.media = some table'
  /-- External ids stay unique. -/
  wellFormed : table'.WellFormed
  /-- No row is changed, and one is added at most. It is that of a result of the external search
  that was accepted for the name, and the name is linked to it. -/
  rows : table'.rows = table.rows ∨ ∃ row, table'.rows = table.rows ++ [row] ∧
    (∃ id, row.externalId = some id ∧ result = some id) ∧
    ∃ results, c.search s.queries (c.queryOf r) = .found results ∧ ∃ found ∈ results, ∃ n,
      c.acceptedTitle? r found = some n ∧
        row = MediaTable.newRow (table.lastId + 1) n r.key.mediaType
  /-- A name without a title adds nothing. -/
  untitled : result = none → table' = table
  /-- If the catalog has a title for the name, nothing is added, and nothing is asked. -/
  known : ∀ id, (c.resolveInCatalog r s).1 = .ok (some id) → result = some id ∧ t = s

/-- A name for which the catalog has a title is linked to it. -/
theorem linkedOver_of_known {id : String} (hwf : table.WellFormed) (hmedia : s.db.media = some table)
    (hfound : c.resolveInCatalog r s = (.ok (some id), s)) :
    c.LinkedOver r s table (some id) s table where
  media := hmedia
  wellFormed := hwf
  rows := .inl rfl
  untitled hnone := nomatch hnone
  known id' h := by
    rw [hfound] at h
    cases h
    exact ⟨rfl, rfl⟩

/-- A name for which neither search has a title adds nothing. -/
theorem linkedOver_none (hwf : table.WellFormed) (hmedia : t.db.media = some table)
    (hfound : c.resolveInCatalog r s = (.ok none, s)) : c.LinkedOver r s table none t table where
  media := hmedia
  wellFormed := hwf
  rows := .inl rfl
  untitled _ := rfl
  known id h := by
    rw [hfound] at h
    cases h

/-- A name for which a result is accepted is linked to the row with its external id. -/
theorem linkedOver_of_accepted {results : List SearchResult} {found : SearchResult} {n : NewTitle}
    (hwf : table.WellFormed)
    (hmedia : t.db.media = some (table.addUnlessKnown n r.key.mediaType))
    (hfound : c.resolveInCatalog r s = (.ok none, s))
    (hanswer : c.search s.queries (c.queryOf r) = .found results) (hmem : found ∈ results)
    (hn : c.acceptedTitle? r found = some n) :
    c.LinkedOver r s table (some n.externalId) t (table.addUnlessKnown n r.key.mediaType) where
  media := hmedia
  wellFormed := hwf.addUnlessKnown n _
  rows := by
    cases hknown : table.find? n.externalId with
    | some row => exact .inl (MediaTable.rows_addUnlessKnown_of_known hknown)
    | none =>
      exact .inr ⟨_, MediaTable.rows_addUnlessKnown_of_new hknown, ⟨_, rfl, rfl⟩, results, hanswer,
        found, hmem, n, hn, rfl⟩
  untitled hnone := nomatch hnone
  known id h := by
    rw [hfound] at h
    cases h

/-- Over a catalog that can be read, every name is linked or turns out to have no title, and the
catalog grows as it should. -/
theorem exists_linkedOver (hyears : c.YearsFit) (hwf : table.WellFormed)
    (hrows : ∀ row ∈ table.rows, row.IsReadable) (hmedia : s.db.media = some table)
    (hr : YearFits r.key.year) :
    ∃ result t table', c.resolve r s = (.ok result, t) ∧
      c.LinkedOver r s table result t table' := by
  obtain ⟨found, hfound⟩ := c.exists_resolveInCatalog r hmedia
  cases found with
  | some id => exact ⟨_, _, _, bind_eq hfound, linkedOver_of_known hwf hmedia hfound⟩
  | none =>
    have hasked : c.resolve r s = c.resolveBySearch r s := bind_eq hfound
    have hmedia' : (s.ask (c.queryOf r)).db.media = some table := hmedia
    by_cases hanswer : ∃ results, c.search s.queries (c.queryOf r) = .found results
    · obtain ⟨results, hanswer⟩ := hanswer
      rw [hasked, resolveBySearch_of_found hanswer]
      cases htitles : results.filterMap (c.acceptedTitle? r) with
      | nil => exact ⟨none, _, table, rfl, linkedOver_none hwf hmedia' hfound⟩
      | cons n ns =>
        -- the first accepted result settles the link
        have hmem : n ∈ results.filterMap (c.acceptedTitle? r) := htitles ▸ List.mem_cons_self
        obtain ⟨found, hresult, hn⟩ := List.mem_filterMap.mp hmem
        have hfits := yearFits_of_acceptedTitle hr (hyears _ _ _ hanswer found hresult) hn
        exact ⟨_, _, _, linkFirst_cons hmedia' hwf hrows hfits ns,
          linkedOver_of_accepted hwf rfl hfound hanswer hresult hn⟩
    · rw [hasked, resolveBySearch_of_not_found (not_exists.mp hanswer)]
      exact ⟨none, _, table, rfl, linkedOver_none hwf hmedia' hfound⟩

/-- The catalog grows by confirmed titles only, and the first one with an external id counts: when a
name is linked, and when titles are offered in a row. -/
theorem catalog_grows (c : Crawler) (hyears : c.YearsFit) (hwf : table.WellFormed)
    (hrows : ∀ row ∈ table.rows, row.IsReadable) :
    (∀ s r, s.db.media = some table → YearFits r.key.year →
      ∃ result t table', c.resolve r s = (.ok result, t) ∧
        c.LinkedOver r s table result t table') ∧
    ∀ os : List Offer, (∀ o ∈ os, YearFits o.title.year) →
      table.Offered os (table.offerAll os).1 (table.offerAll os).2 :=
  ⟨fun _ _ hmedia hr => exists_linkedOver hyears hwf hrows hmedia hr,
    fun _ hos => MediaTable.offered_offerAll hwf hrows hos⟩

end Crawler

/-! ### A small example -/

/-- A title under the external id of the row for adults, and two titles under one other id. -/
def Offer.contested : List Offer :=
  [⟨.lost, .series⟩, ⟨{ NewTitle.lost with externalId := "tt2" }, .series⟩,
    ⟨{ NewTitle.lost with externalId := "tt2", title := "Heat", year := none }, .movie⟩]

namespace Crawler

theorem yearsFit_healed : healed.YearsFit := by
  intro past q results h result hresult
  cases h
  rw [List.mem_singleton.mp hresult]
  exact yearFits_none

/-- The film is linked to the row that has its external id; of the titles that are offered, the first
one with the other id gets a row. -/
theorem catalog_grows_mistaken :
    healed.YearsFit ∧ MediaTable.mistaken.WellFormed ∧
    (∀ row ∈ MediaTable.mistaken.rows, row.IsReadable) ∧
    (∃ t table', healed.resolve .heat .mistaken = (.ok (some "tt1"), t) ∧
      healed.LinkedOver .heat .mistaken .mistaken (some "tt1") t table') ∧
    (MediaTable.mistaken.offerAll Offer.contested).1 =
      [.ok (some ⟨1, some "tt1", "Heat", none, none, .movie, true⟩),
        .ok (some ⟨3, some "tt2", "Lost", some 2004, none, .series, false⟩),
        .ok (some ⟨3, some "tt2", "Lost", some 2004, none, .series, false⟩)] ∧
    MediaTable.mistaken.Offered Offer.contested
      (MediaTable.mistaken.offerAll Offer.contested).1
      (MediaTable.mistaken.offerAll Offer.contested).2 := by
  have hrows : ∀ row ∈ MediaTable.mistaken.rows, row.IsReadable :=
    List.forall_mem_singleton.mpr ⟨yearFits_none, yearFits_none⟩
  have hyears : ∀ o ∈ Offer.contested, YearFits o.title.year := by
    have hlost : YearFits (some 2004) := by
      intro y hy
      cases hy
      decide
    exact List.forall_mem_cons.mpr ⟨hlost, List.forall_mem_cons.mpr ⟨hlost,
      List.forall_mem_singleton.mpr yearFits_none⟩⟩
  obtain ⟨hlinks, hoffers⟩ :=
    healed.catalog_grows yearsFit_healed MediaTable.wellFormed_mistaken hrows
  obtain ⟨result, t, table', hrun, hlinked⟩ := hlinks .mistaken .heat rfl yearFits_none
  have hresult : (healed.resolve .heat .mistaken).1 = .ok (some "tt1") := by decide +kernel
  rw [hrun] at hresult
  cases hresult
  exact ⟨yearsFit_healed, MediaTable.wellFormed_mistaken, hrows, ⟨t, table', hrun, hlinked⟩,
    by decide +kernel, hoffers _ hyears⟩

end Crawler

end Harvest
