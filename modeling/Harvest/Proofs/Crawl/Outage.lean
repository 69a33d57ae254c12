import Harvest.Proofs.Crawl.Counts

/-!
# Entries that were not linked

A name for which the search has no answer counts as a name without a title: its entry is left out,
and the snapshot needs no further work all the same. If the entries of the snapshot are stored once
more later on, exactly those become new streams that were not linked at first, can be linked now,
and have not been stored on behalf of another list. So an entry that was left out while the search
was out of order is lost, although the search would find its title afterwards.

## Main definitions

* `Prospect.IsLate` — an entry that could be stored now, and was not linked before

## Main results

* `Crawler.storeEntries_count` — which entries of a list become new streams
* `Visit.hash_mem_of_linked` — the entries that are linked during a visit are stored
* `Crawler.Course.stored_again` — what becomes of the entries of a snapshot if they are stored again
* `Crawler.stream_lost` — a stream that is missing after the search was out of order
-/

namespace Harvest

open CrawlStep Crawl

/-! ### New streams of a list -/

namespace Prospect

variable {p : Prospect}

/-- No stream has the hash of the entry. -/
def IsNew (p : Prospect) (rows : List StreamRecord) : Prop := p.entry.infoHash ∉ Stream.hashes rows

/-- The entry was not linked before, is linked now, and no stream has its hash. -/
structure IsLate (p : Prospect) (before now : ResolutionCache) (rows : List StreamRecord) :
    Prop where
  missed : before.linked? p.key = none
  linked : (now.linked? p.key).isSome
  isNew : p.IsNew rows

instance (p : Prospect) (rows : List StreamRecord) : Decidable (p.IsNew rows) :=
  inferInstanceAs (Decidable (p.entry.infoHash ∉ Stream.hashes rows))

theorem mem_hashes_records {ps : List Prospect} {cache : ResolutionCache} {createdAt : Moment}
    {x : String} : x ∈ Stream.hashes (records ps cache createdAt) ↔
      ∃ p ∈ ps, (cache.linked? p.key).isSome ∧ p.entry.infoHash = x := by
  constructor
  · intro hx
    obtain ⟨r, hr, rfl⟩ := List.mem_map.mp hx
    obtain ⟨p, hp, hr⟩ := List.mem_filterMap.mp hr
    obtain ⟨id, hid, rfl⟩ := Option.map_eq_some_iff.mp hr
    exact ⟨p, hp, Option.isSome_of_eq_some hid, rfl⟩
  · rintro ⟨p, hp, hlinked, rfl⟩
    obtain ⟨id, hid⟩ := Option.isSome_iff_exists.mp hlinked
    have hr : p.record createdAt id ∈ records ps cache createdAt :=
      List.mem_filterMap.mpr ⟨p, hp, Option.map_eq_some_iff.mpr ⟨id, hid, rfl⟩⟩
    exact Stream.mem_hashes_of_mem hr

/-- The hashes of the records are those of their entries. -/
theorem hashes_records_sublist (ps : List Prospect) (cache : ResolutionCache)
    (createdAt : Moment) :
    (Stream.hashes (records ps cache createdAt)).Sublist (ps.map (·.entry.infoHash)) := by
  induction ps with
  | nil => exact List.Sublist.slnil
  | cons p ps ih =>
    unfold records
    rw [List.filterMap_cons]
    cases cache.linked? p.key with
    | none => exact ih.cons _
    | some id => exact ih.cons_cons _

/-- The record of an entry is new if the entry is. -/
theorem isNew_record (p : Prospect) (createdAt : Moment) (rows : List StreamRecord) (id : String) :
    Stream.isNew rows (p.record createdAt id) = decide (p.IsNew rows) := by
  rw [Bool.eq_iff_iff, StreamTables.isNew_iff, decide_eq_true_iff]
  rfl

theorem countP_records (ps : List Prospect) (cache : ResolutionCache) (createdAt : Moment)
    (rows : List StreamRecord) :
    (records ps cache createdAt).countP (Stream.isNew rows ·) =
      ps.countP fun p => (cache.linked? p.key).isSome && decide (p.IsNew rows) := by
  induction ps with
  | nil => rfl
  | cons p ps ih =>
    unfold records at ih ⊢
    rw [List.filterMap_cons, List.countP_cons]
    cases cache.linked? p.key with
    | none => simpa using ih
    | some id =>
      rw [Option.map_some, List.countP_cons, ih, isNew_record]
      rfl

end Prospect

/-- The entries of a list that may be linked have different hashes. -/
theorem Snapshot.nodup_prospects (entries : List Entry) :
    ((prospects entries).map (·.entry.infoHash)).Nodup := by
  -- of each hash only the first entry is left, and checking the entries leaves out some more
  refine (nodup_map_firstOfEach Entry.infoHash entries).sublist ?_
  unfold prospects verdicts firstOfEachHash
  induction firstOfEach Entry.infoHash entries with
  | nil => exact List.Sublist.slnil
  | cons e es ih =>
    rw [List.map_cons, List.map_cons, List.filterMap_cons]
    cases hp : (EntryVerdict.ofEntry e).prospect? with
    | none => exact ih.cons _
    | some p =>
      obtain ⟨rfl, -⟩ := EntryVerdict.passed_of_ofEntry hp
      exact ih.cons_cons _

namespace Crawler

variable {c : Crawler} {s t : Crawl} {entries : List Entry} {createdAt : Moment}
  {summary : StoreSummary}

/-- The entries that are linked and were not stored before become new streams. -/
theorem storeEntries_count (h : c.storeEntries entries createdAt s = (.ok summary, t)) :
    summary.stored = (Snapshot.prospects entries).countP fun p =>
      (t.cache.linked? p.key).isSome && decide (p.IsNew s.db.rows) := by
  obtain ⟨u, d, hlinked, rfl, hrun⟩ := storeEntries_ok h
  have hnodup := (Snapshot.nodup_prospects entries).sublist
    (Prospect.hashes_records_sublist _ u.cache createdAt)
  rw [Database.storeStreams_count hrun hnodup, hlinked.rows_eq, Prospect.countP_records]

/-- All entries that are linked are stored afterwards. -/
theorem storeEntries_stores (h : c.storeEntries entries createdAt s = (.ok summary, t))
    {p : Prospect} (hp : p ∈ Snapshot.prospects entries)
    (hlinked : (t.cache.linked? p.key).isSome) : ¬ p.IsNew t.db.rows := by
  obtain ⟨u, d, -, rfl, hrun⟩ := storeEntries_ok h
  obtain ⟨-, -, -, -, hhashes⟩ := Database.storeStreams_adds hrun
  exact not_not_intro
    ((hhashes _).mpr (.inr (Prospect.mem_hashes_records.mpr ⟨p, hp, hlinked, rfl⟩)))

end Crawler

/-! ### Entries that are stored again -/

theorem Crawler.markProcessed_run {f : ChangedFile} {s : Crawl} (hs : s.db.TakesBlobs) :
    ∃ bs', Crawler.markProcessed f s =
      (.ok (), { s with db := { s.db with blobs := some bs' } }) := by
  obtain ⟨bs, hbs⟩ := hs.blobs
  unfold Crawler.markProcessed
  cases f.blob with
  | none => exact ⟨bs, by rw [← hbs]; rfl⟩
  | some b =>
    have hinsert : s.db.insertBlob b = .ok { s.db with blobs := some (bs.insert b) } :=
      Database.insertBlob_eq_ok_iff.mpr ⟨bs, hbs, hs.refusal b, rfl⟩
    refine ⟨bs.insert b, ?_⟩
    simp only [update, hinsert]

namespace Visit

variable {c : Crawler} {v : Visit} {html fragment : String} {entries : List Entry}

/-- What a visit leaves behind is what storing the entries has left behind, but for the mark. -/
theorem exists_storeEntries (hblobs : v.before.db.TakesBlobs) (hstores : v.Stores c)
    (hbody : v.body c = .ok html)
    (hfragment : Snapshot.fragment? c.settings.host html = some fragment)
    (hentries : Snapshot.entriesOfPayload fragment = .ok entries) :
    ∃ summary t,
      c.storeEntries entries v.commit.date (v.before.call (.raw v.file.url)) = (.ok summary, t) ∧
      (v.after c).cache = t.cache ∧ SameStreams t (v.after c) := by
  obtain ⟨bs, hbs⟩ := hblobs.blobs
  obtain ⟨hopen, html', fragment', entries', summary, hbody', hfragment', hentries', hsummary⟩ :=
    hstores
  cases hbody.symm.trans hbody'
  cases hfragment.symm.trans hfragment'
  cases hentries.symm.trans hentries'
  obtain ⟨t, hrun⟩ := exists_run hsummary
  have hnew : Crawler.isProcessed v.file v.before = (.ok false, v.before) := by
    rw [isProcessed_eq hbs, hopen]
    rfl
  have hraw : c.remote.raw v.before.calls v.file.url = .ok html := hbody
  -- storing the entries has left the set of blobs in place, so the blob can be added
  obtain ⟨bs', hmark⟩ := Crawler.markProcessed_run (f := v.file)
    (((c.within_storeEntries _ _).of_run hrun).takesBlobs hblobs)
  have hafter : v.after c = ({ t with db := { t.db with blobs := some bs' } } : Crawl).log
      (Crawler.report v.commit v.file .stored none) := by
    rw [after, Crawler.processFile, bind_run, hnew]
    simp only [bind_run, Bool.false_eq_true, if_false, Crawler.raw_run, hraw, Crawler.processText,
      hfragment, hentries, CrawlStep.during, hrun, hmark]
    rfl
  rw [hafter]
  exact ⟨summary, t, hrun, rfl, rfl, rfl⟩

end Visit

theorem Crawl.Aside.rows_eq {s t : Crawl} (h : s.Aside t) : t.db.rows = s.db.rows := by
  cases h <;> rfl

namespace Crawler

variable {c : Crawler} {s t u : Crawl} {vs : List Visit} {v : Visit} {html fragment : String}
  {entries : List Entry}

namespace Course

/-- The rows that a visit leaves behind are still there at the end. -/
theorem rows_kept (h : c.Course s vs t) :
    s.db.rows <+: t.db.rows ∧ ∀ v ∈ vs, (v.after c).db.rows <+: t.db.rows := by
  induction h with
  | here => exact ⟨List.prefix_rfl, fun v hv => by cases hv⟩
  | aside haside _ ih => exact haside.rows_eq ▸ ih
  | @visit v _ _ _ _ _ _ _ ih =>
    obtain ⟨hrest, hvisits⟩ := ih
    have hgains := gains_processFile (c := c) v.commit v.file v.before
    refine ⟨hgains.grows.rows_kept.trans hrest, fun w hw => ?_⟩
    rcases List.mem_cons.mp hw with rfl | hw
    · exact hrest
    · exact hvisits w hw

/-- A snapshot whose entries have been stored needs no further work. If its entries are stored once
more all the same, at any later time, with nothing remembered and whatever search, then the new
streams are those of the entries that were not linked at first and are linked now, except for those
that other lists have brought in the meantime. -/
theorem stored_again (h : c.Course s vs t) (hs : s.db.TakesBlobs) (hv : v ∈ vs)
    (hstores : v.Stores c) (hbody : v.body c = .ok html)
    (hfragment : Snapshot.fragment? c.settings.host html = some fragment)
    (hentries : Snapshot.entriesOfPayload fragment = .ok entries) (hlater : t.Proceeds u)
    (c' : Crawler) (createdAt : Moment) :
    (∀ b, v.Carries b → t.Settled b) ∧
    (u.db.IsWorking → c'.YearsFit → ∃ summary w,
      c'.storeEntries entries createdAt { u with cache := {} } = (.ok summary, w)) ∧
    (∀ summary w, c'.storeEntries entries createdAt { u with cache := {} } = (.ok summary, w) →
      (summary.stored = 0 ↔
        ∀ p ∈ Snapshot.prospects entries, ¬ p.IsLate (v.after c).cache w.cache u.db.rows)) ∧
    ∀ e w, c'.storeEntries entries createdAt { u with cache := {} } = (.error e, w) →
      SameStreams u w := by
  refine ⟨fun b hb => (h.settled_iff hs b).mpr (.inr ⟨v, hv, hb, .stored hstores⟩),
    fun hworks hyears => ?_, fun summary w hagain => ?_, fun e w hagain => ?_⟩
  · obtain ⟨summary, w, hrun, -⟩ :=
      works_storeEntries hyears entries createdAt { u with cache := {} } hworks
    exact ⟨summary, w, hrun⟩
  · -- the rows of the first time are still there, so none of them is new
    obtain ⟨first, t', hfirst, hcache, hsame⟩ :=
      Visit.exists_storeEntries (h.takesBlobs_before hs hv) hstores hbody hfragment hentries
    have hkept : t'.db.rows <+: u.db.rows :=
      hsame.rows_eq ▸ (h.rows_kept.2 v hv).trans hlater.rows_kept
    rw [storeEntries_count hagain, List.countP_eq_zero]
    refine forall₂_congr fun p hp => ?_
    rw [Bool.and_eq_true, decide_eq_true_iff, not_iff_not]
    refine ⟨fun ⟨hlinked, hnew⟩ => ⟨?_, hlinked, hnew⟩, fun hlate => ⟨hlate.linked, hlate.isNew⟩⟩
    -- if it had been linked before, its stream would be there
    by_contra hbefore
    have hbefore' : (t'.cache.linked? p.key).isSome :=
      Option.isSome_iff_ne_none.mpr (hcache ▸ hbefore)
    exact storeEntries_stores hfirst hp hbefore' fun hmem => hnew ((hkept.map _).subset hmem)
  · obtain ⟨hstreams, hfiles⟩ := sameStreams_of_storeEntries_error hagain
    exact ⟨hstreams, hfiles⟩

end Course

end Crawler

/-! ### A small example -/

/-- The entry in the list. -/
def Entry.small : Entry where
  filename := "Heat"
  infoHash := "aaaaaaaaaaaaaaaaaaaaaaaaaaaaaaaaaaaaaaaa"
  size := 0

namespace Crawler

/-- A crawler over the list whose search does not answer in time. -/
def blind : Crawler := { listed with search := fun _ _ => .timedOut }

/-- What the search knows about the title in the list. -/
def heat : SearchResult where
  id := some "tt1"
  title := some "Heat"
  mediaType := some .movie

/-- The same crawler once the search answers again. -/
def healed : Crawler := { blind with search := fun _ _ => .found [heat] }

/-- The first visit of the blind crawler. -/
def blindVisit : Visit where
  commit := .small "a" []
  file := ⟨"list.html", some "a-blob", "raw/a"⟩
  before := { db := .fresh }

/-- A run of the blind crawler deals with the list for good and stores nothing. The search would
find the title of the entry afterwards, but later runs do not ask. -/
theorem blind_values :
    ((blind.run {} { db := .fresh }).1 = .ok ⟨⟨2, 2, 0⟩, ⟨1, 0, 0⟩⟩ ∧
      (blind.run {} { db := .fresh }).2.db.blobs = some ["b-blob", "a-blob"] ∧
      (healed.run {} (blind.run {} { db := .fresh }).2).1 = .ok {} ∧
      (healed.storeEntries [.small] .reference
        { (blind.run {} { db := .fresh }).2 with cache := {} }).1 = .ok ⟨1, 1, 0, 0, 1, 1, 1, 1⟩) ∧
    (Snapshot.fragment? Snapshot.defaultHost Snapshot.smallPage = some Snapshot.smallPayload ∧
      Snapshot.entriesOfPayload Snapshot.smallPayload = .ok [.small]) ∧
    blindVisit.Stores blind ∧
    (healed.storeEntries [.small] .reference
      { blindVisit.after blind with cache := {} }).1 = .ok ⟨1, 1, 0, 0, 1, 1, 1, 1⟩ := by
  decide +kernel

theorem course_blind : blind.Course blindVisit.before [blindVisit] (blindVisit.after blind) := by
  have hcommit : blind.remote.commit [] "a" = .ok blindVisit.commit := by decide +kernel
  have hfile : blindVisit.file ∈ blind.settings.snapshots blindVisit.commit := by decide +kernel
  exact .visit hcommit hfile (.here _)

/-- The entry that was not linked while the search was out of order would be a new stream. -/
theorem Course.stored_again_blind :
    blind.Course blindVisit.before [blindVisit] (blindVisit.after blind) ∧
    blindVisit.before.db.TakesBlobs ∧ blindVisit.Stores blind ∧
    blindVisit.body blind = .ok Snapshot.smallPage ∧
    Snapshot.fragment? blind.settings.host Snapshot.smallPage = some Snapshot.smallPayload ∧
    Snapshot.entriesOfPayload Snapshot.smallPayload = .ok [.small] ∧
    (blindVisit.after blind).Settled "a-blob" ∧
    ∃ summary w, healed.storeEntries [.small] .reference
        { blindVisit.after blind with cache := {} } = (.ok summary, w) ∧ summary.stored = 1 ∧
      ¬ ∀ p ∈ Snapshot.prospects [.small],
        ¬ p.IsLate (blindVisit.after blind).cache w.cache (blindVisit.after blind).db.rows := by
  obtain ⟨-, ⟨hfragment, hentries⟩, hstores, hagain⟩ := blind_values
  have hbody : blindVisit.body blind = .ok Snapshot.smallPage := rfl
  have htakes : blindVisit.before.db.TakesBlobs := ⟨⟨_, rfl⟩, fun _ => rfl⟩
  obtain ⟨hsettled, -, hcount, -⟩ := course_blind.stored_again htakes List.mem_cons_self hstores
    hbody hfragment hentries .here healed .reference
  obtain ⟨w, hrun⟩ := exists_run hagain
  exact ⟨course_blind, htakes, hstores, hbody, hfragment, hentries, hsettled _ rfl, _, w, hrun, rfl,
    fun hnone => Nat.one_ne_zero ((hcount _ w hrun).mpr hnone)⟩

/-- A stream is missing for good because the search was out of order once: the list has been dealt
with, no later run finds anything to do, and yet storing its entries again adds a stream. -/
theorem stream_lost :
    (∀ past q, blind.search past q = .timedOut) ∧
    Snapshot.fragment? blind.settings.host Snapshot.smallPage = some Snapshot.smallPayload ∧
    Snapshot.entriesOfPayload Snapshot.smallPayload = .ok [.small] ∧
    ∃ t, blind.run {} { db := .fresh } = (.ok ⟨⟨2, 2, 0⟩, ⟨1, 0, 0⟩⟩, t) ∧ t.Settled "a-blob" ∧
      (healed.run {} t).1 = .ok {} ∧
      ¬ ∀ summary w, healed.storeEntries [.small] .reference { t with cache := {} } =
        (.ok summary, w) → summary.stored = 0 := by
  obtain ⟨⟨hrun, hblobs, hidle, hagain⟩, ⟨hfragment, hentries⟩, -⟩ := blind_values
  obtain ⟨t, ht⟩ := exists_run hrun
  rw [ht] at hblobs hidle hagain
  obtain ⟨w, hw⟩ := exists_run hagain
  refine ⟨fun _ _ => rfl, hfragment, hentries, t, ht, ?_, hidle, fun hnone => ?_⟩
  · exact Crawl.settled_iff.mpr ⟨_, hblobs, by decide⟩
  · exact Nat.one_ne_zero (hnone _ w hw)

end Crawler

end Harvest
