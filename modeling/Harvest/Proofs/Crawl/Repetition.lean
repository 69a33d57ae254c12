import Harvest.Proofs.Crawl.Accounting
import Harvest.Proofs.Crawl.Resolutions

/-!
# Storing a list twice

When the entries of a list have been stored, a link is remembered for every name, be it to no title,
and every entry that is linked to a title has its stream. So as long as the links are remembered and
the streams are there, storing the same entries again asks nothing and changes nothing, whatever has
become of the catalog and of the search in the meantime.

## Main definitions

* `Crawl.Retains` — the same links are remembered, and the same streams are there

## Main results

* `Crawler.contains_of_storeEntries` — every name has a link afterwards
* `Crawler.storeStreams_of_storeEntries` — storing the records again adds nothing
* `Crawler.storeEntries_again` — the second time nothing happens
-/

namespace Harvest

open CrawlStep

/-- The same links are remembered, the same streams are there, and the statements that store streams
are as ready as they were. The catalog may be another one, or it may be missing. -/
structure Crawl.Retains (s t : Crawl) : Prop where
  cache : t.cache = s.cache
  streams : t.db.streams = s.db.streams
  streamsPlanned : t.db.streamsPlanned = s.db.streamsPlanned
  filesPlanned : t.db.filesPlanned = s.db.filesPlanned

namespace Prospect

variable (ps : List Prospect) (cache : ResolutionCache) (createdAt createdAt' : Moment)

/-- The hashes of the records do not depend on when the list was made. -/
theorem hashes_records_eq : Stream.hashes (records ps cache createdAt') =
    Stream.hashes (records ps cache createdAt) := by
  unfold Stream.hashes records
  rw [List.map_filterMap, List.map_filterMap]
  refine List.filterMap_congr fun p _ => ?_
  rw [Option.map_map, Option.map_map]
  rfl

/-- Neither does their number. -/
theorem length_records_eq : (records ps cache createdAt').length =
    (records ps cache createdAt).length := by
  have hlength := congrArg List.length (hashes_records_eq ps cache createdAt createdAt')
  unfold Stream.hashes at hlength
  rwa [List.length_map, List.length_map] at hlength

end Prospect

namespace Crawler

variable {c : Crawler} {s t u : Crawl} {entries : List Entry} {createdAt : Moment}
  {summary : StoreSummary}

/-- Every name of a list has a link when its entries have been stored. -/
theorem contains_of_storeEntries (h : c.storeEntries entries createdAt s = (.ok summary, t)) :
    ∀ r ∈ Prospect.requests (Snapshot.prospects entries), t.cache.contains r.key = true := by
  intro r hr
  obtain ⟨u, d, hlink, rfl, -⟩ := storeEntries_run h
  obtain ⟨as, hbatch⟩ := c.exists_batch (Prospect.requests (Snapshot.prospects entries)) s
  rw [hlink] at hbatch
  exact (hbatch.complete rfl r.key).mpr (.inr (List.mem_map_of_mem hr))

/-- Every record of a list is held when its entries have been stored, so storing it adds nothing. -/
theorem storeStreams_of_storeEntries (h : c.storeEntries entries createdAt s = (.ok summary, t))
    (hretains : t.Retains u) (createdAt' : Moment) :
    u.db.storeStreams (Prospect.records (Snapshot.prospects entries) t.cache createdAt') =
      (.ok 0, u.db) := by
  obtain ⟨v, d, -, rfl, hstore⟩ := storeEntries_run h
  by_cases hnone : Prospect.records (Snapshot.prospects entries) v.cache createdAt = []
  · -- without records nothing need be there, not even the tables
    have hnone' : Prospect.records (Snapshot.prospects entries) v.cache createdAt' = [] := by
      rw [← List.length_eq_zero_iff, Prospect.length_records_eq _ _ createdAt, hnone, List.length_nil]
    rw [hnone']
    rfl
  · obtain ⟨hs, hf, rows, hrows, hmem⟩ := Database.holds_of_storeStreams hstore hnone
    rw [← Prospect.hashes_records_eq _ _ _ createdAt'] at hmem
    have hholds : u.db.Holds (Prospect.records (Snapshot.prospects entries) v.cache createdAt') :=
      ⟨hretains.streamsPlanned.trans hs, hretains.filesPlanned.trans hf, rows,
        hretains.streams.trans hrows, hmem⟩
    exact hholds.storeStreams

/-- If every name has a link and storing the records adds nothing, then storing the entries changes
nothing. -/
theorem storeEntries_of_linked (c : Crawler)
    (hlinked : pending s.cache (Prospect.requests (Snapshot.prospects entries)) = [])
    (hstored : s.db.storeStreams (Prospect.records (Snapshot.prospects entries) s.cache createdAt) =
      (.ok 0, s.db)) :
    ∃ summary, c.storeEntries entries createdAt s = (.ok summary, s) ∧ summary.stored = 0 := by
  have hresolve : (c.resolveAll (Prospect.requests (Snapshot.prospects entries))).during .resolver s =
      (.ok (), s) := by
    rw [CrawlStep.during, resolveAll_run, hlinked]
    rfl
  have hstore : perform .streams (·.storeStreams
      (Prospect.records (Snapshot.prospects entries) s.cache createdAt)) s = (.ok 0, s) := by
    rw [perform, hstored]
  exact ⟨_, (bind_eq hresolve).trans ((bind_eq rfl).trans (bind_eq hstore)), rfl⟩

/-- When the entries of a list have been stored, storing them again changes nothing, as long as the
links are remembered and the streams are there. No name is linked, so nothing is asked of the
catalog, which may even be missing, or of the search; and the numbers are the same, but for the
streams, of which none is new. -/
theorem storeEntries_again (h : c.storeEntries entries createdAt s = (.ok summary, t))
    (hretains : t.Retains u) (c' : Crawler) (createdAt' : Moment) :
    pending u.cache (Prospect.requests (Snapshot.prospects entries)) = [] ∧
      c'.storeEntries entries createdAt' u = (.ok { summary with stored := 0 }, u) := by
  have hlinked : pending u.cache (Prospect.requests (Snapshot.prospects entries)) = [] := by
    rw [hretains.cache]
    exact pending_eq_nil (contains_of_storeEntries h)
  have hstored := storeStreams_of_storeEntries h hretains createdAt'
  rw [← hretains.cache] at hstored
  obtain ⟨again, hrun, hnone⟩ := c'.storeEntries_of_linked hlinked hstored
  refine ⟨hlinked, ?_⟩
  -- the other numbers follow from the links
  rw [hrun, storeEntries_eq hrun, storeEntries_eq h, hretains.cache, hnone,
    Prospect.length_records_eq _ _ createdAt createdAt']

end Crawler

/-! ### A small example -/

namespace Crawler

/-- The entries of all sorts are stored once more, without the catalog and with a search that does
not answer. -/
theorem storeEntries_again_assorted :
    ∃ t : Crawl, healed.storeEntries Entry.assorted .reference once =
        (.ok ⟨7, 6, 1, 1, 2, 1, 2, 1⟩, t) ∧ t.Retains (t.withMedia none) ∧
      pending t.cache (Prospect.requests (Snapshot.prospects Entry.assorted)) = [] ∧
      blind.storeEntries Entry.assorted ⟨0, 0⟩ (t.withMedia none) =
        (.ok ⟨7, 6, 1, 1, 2, 1, 2, 0⟩, (t.withMedia none)) := by
  obtain ⟨t, hrun⟩ := exists_run storeEntries_assorted
  have hretains : t.Retains (t.withMedia none) := ⟨rfl, rfl, rfl, rfl⟩
  exact ⟨t, hrun, hretains, storeEntries_again hrun hretains blind ⟨0, 0⟩⟩

end Crawler

end Harvest
