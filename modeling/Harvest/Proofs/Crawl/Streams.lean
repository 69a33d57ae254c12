import Harvest.Proofs.Crawl.Course
import Harvest.Proofs.Store.Streams
import Harvest.Store.Schema

/-!
# What a crawl stores

Every link that is remembered points to a title of the catalog, and titles do not go away. So
whatever a crawl stores points to a title for good, however often runs are made, fail, and begin all
over again.

## Main definitions

* `Crawl.IsSound` — the streams of a crawl are sound, and its links point to titles
* `Crawl.Keeps`, `Crawl.KeepsStored` — what is sound stays so, and nothing that is stored changes
* `Crawl.Reaches` — what runs, full ingestions and resets make of a crawl

## Main results

* `Crawler.known_of_resolve` — a name is linked to a title of the catalog
* `Crawler.keeps_storeEntries` — storing the entries of a list keeps what is stored
* `Crawl.Reaches.streams_sound` — all streams are sound at all times, and stay as they are
-/

namespace Harvest

open CrawlStep

namespace Crawl

/-- The streams are sound, and every link that is remembered points to a title of the catalog. -/
structure IsSound (s : Crawl) : Prop where
  db : s.db.IsSound
  linked : ∀ k id, s.cache.linked? k = some id → s.db.Knows id

/-- If the first state has a property, so has the second, and nothing that is stored has changed. -/
def Preserves (Q : Crawl → Prop) (s t : Crawl) : Prop := Q s → Q t ∧ s.db.Grows t.db

instance (Q : Crawl → Prop) : IsPreorder Crawl (Preserves Q) where
  refl s := fun hs => ⟨hs, refl_of Database.Grows s.db⟩
  trans _ _ _ h h' := by
    intro hs
    obtain ⟨ht, hgrows⟩ := h hs
    obtain ⟨hu, hgrows'⟩ := h' ht
    exact ⟨hu, trans_of Database.Grows hgrows hgrows'⟩

/-- What is sound stays so. -/
abbrev Keeps : Crawl → Crawl → Prop := Preserves IsSound

/-- Sound streams stay so, whatever is remembered at the beginning. -/
abbrev KeepsStored : Crawl → Crawl → Prop := Preserves fun s => s.db.IsSound

variable {s t : Crawl}

/-- A statement that only adds to the catalog keeps what is stored. -/
theorem keeps_of_grows (hgrows : s.db.Grows t.db) (hstreams : t.db.streams = s.db.streams)
    (hfiles : t.db.files = s.db.files) (hcache : t.cache = s.cache) : Keeps s t := by
  intro hs
  refine ⟨⟨hs.db.congr hgrows hstreams hfiles, fun k id hk => ?_⟩, hgrows⟩
  rw [hcache] at hk
  exact hgrows.knows (hs.linked k id hk)

/-- So does a statement that touches neither streams nor files nor titles. -/
theorem keeps_of_eq (hstreams : t.db.streams = s.db.streams) (hfiles : t.db.files = s.db.files)
    (hmedia : t.db.media = s.db.media) (hcache : t.cache = s.cache) : Keeps s t := by
  refine keeps_of_grows ⟨?_, ?_, ?_⟩ hstreams hfiles hcache
  · rw [hstreams]
    exact .refl _
  · rw [hfiles]
    exact .refl _
  · rw [hmedia]
    exact .refl _

end Crawl

open Crawl

namespace Crawler

variable {c : Crawler} {s t : Crawl}

/-! ### Links -/

theorem known_of_canonicalId {n : Nat} {id : String} (h : canonicalId n s = (.ok (some id), t)) :
    t.db.Knows id := by
  obtain ⟨rfl, hid⟩ := query_ok h
  exact Database.externalIdOf_knows hid

theorem known_of_linkFirst {m : MediaType} {ns : List NewTitle} {id : String}
    (h : linkFirst m ns s = (.ok (some id), t)) : t.db.Knows id := by
  induction ns generalizing s with
  | nil => cases h
  | cons n ns ih =>
    obtain ⟨found, u, -, h⟩ := bind_ok h
    cases found with
    | some title => exact known_of_canonicalId h
    | none => exact ih h

/-- A name is linked to a title of the catalog. -/
theorem known_of_resolve {r : ResolutionRequest} {id : String}
    (h : c.resolve r s = (.ok (some id), t)) : t.db.Knows id := by
  obtain ⟨found, u, hu, h⟩ := bind_ok h
  cases found with
  | some id' =>
    obtain ⟨hid, rfl⟩ := pure_ok h
    cases hid
    obtain ⟨ts, v, -, hu⟩ := bind_ok hu
    cases hfind : ts.find? (c.acceptsTitle r) with
    | some title =>
      rw [hfind] at hu
      exact known_of_canonicalId hu
    | none => rw [hfind] at hu; cases hu
  | none =>
    obtain ⟨answer, v, -, h⟩ := bind_ok h
    cases answer with
    | found results => exact known_of_linkFirst h
    | failed => cases h
    | timedOut => cases h

theorem keeps_resolve (r : ResolutionRequest) : Within Keeps (c.resolve r) := by
  refine within_resolve (fun s n m => ?_) (fun s _ => keeps_of_eq rfl rfl rfl rfl) r
  obtain ⟨hgrows, hstreams, hfiles⟩ := s.db.getOrCreateMedia_grows n m
  exact keeps_of_grows hgrows hstreams hfiles rfl

/-- A link may be remembered, since it points to a title. -/
theorem keeps_remember {r : ResolutionRequest} {id : Option String}
    (h : c.resolve r s = (.ok id, t)) : Keeps t { t with cache := t.cache.insert r.key id } := by
  intro ht
  refine ⟨⟨ht.db, fun k id' hk => ?_⟩, refl_of Database.Grows t.db⟩
  unfold ResolutionCache.linked? at hk
  rw [ResolutionCache.get?_insert] at hk
  split at hk
  · have hid : id = some id' := hk
    subst hid
    have hknown := known_of_resolve h
    exact hknown
  · exact ht.linked k id' hk

/-! ### Entries -/

/-- Storing the entries of a list keeps what is stored. -/
theorem keeps_storeEntries {payload : String} {entries : List Entry} {createdAt : Moment}
    (h : Snapshot.entriesOfPayload payload = .ok entries) :
    Within Keeps (c.storeEntries entries createdAt) := by
  refine within_storeEntries_of keeps_resolve (fun _ _ _ _ hr => keeps_remember hr) fun s hs => ?_
  have hrecords : ∀ r ∈ Prospect.records (Snapshot.prospects entries) s.cache createdAt,
      (Stream.stored r).IsProper ∧ (Stream.stored r).rederived.files = r.files ∧
        s.db.Knows r.metaId := by
    intro r hr
    obtain ⟨p, hp, hr⟩ := List.mem_filterMap.mp hr
    obtain ⟨id, hid, rfl⟩ := Option.map_eq_some_iff.mp hr
    have hproper := Snapshot.isProper_of_mem_prospects h hp
    exact ⟨hproper.isProper_stored createdAt id, hproper.files_rederived createdAt id,
      hs.linked p.key id hid⟩
  obtain ⟨hsound, hgrows⟩ := hs.db.storeStreams hrecords
  exact ⟨⟨hsound, fun k id hk => hgrows.knows (hs.linked k id hk)⟩, hgrows⟩

theorem keeps_processFile (d : CommitDetail) (f : ChangedFile) :
    Within Keeps (c.processFile d f) :=
  within_processFile_of (fun _ _ => keeps_of_eq rfl rfl rfl rfl)
    (fun _ _ _ => keeps_of_eq rfl rfl rfl rfl)
    (within_markProcessed (fun _ _ _ _ => keeps_of_eq rfl rfl rfl rfl) f)
    fun _ _ h => keeps_storeEntries h

theorem keeps_processCommit (pass : Pass) (sha : String) :
    Within Keeps (c.processCommit pass sha) :=
  within_processCommit (fun _ _ d _ f _ => keeps_processFile d f)
    (fun _ _ => keeps_of_eq rfl rfl rfl rfl) (fun _ _ _ _ _ => keeps_of_eq rfl rfl rfl rfl) pass sha

theorem keeps_pass (limit : Nat) (p : Pass) : Within Keeps (c.pass limit p) := by
  have hlist : ∀ (s : Crawl) n page, Keeps s (s.call (.list n page)) :=
    fun _ _ _ => keeps_of_eq rfl rfl rfl rfl
  have hcommit : ∀ (s : Crawl) sha, Keeps s (s.call (.commit sha)) :=
    fun _ _ => keeps_of_eq rfl rfl rfl rfl
  have hsave : ∀ (s : Crawl) positions,
      Keeps s { s with db := { s.db with positions := positions } } :=
    fun _ _ => keeps_of_eq rfl rfl rfl rfl
  cases p with
  | incremental => exact within_incremental hlist keeps_processCommit hsave limit
  | backfill => exact within_backfill hlist hcommit keeps_processCommit hsave limit

end Crawler

/-! ### Runs -/

namespace Crawl

variable {s t : Crawl}

theorem keepsStored_of_eq (hstreams : t.db.streams = s.db.streams)
    (hfiles : t.db.files = s.db.files) (hmedia : t.db.media = s.db.media) : KeepsStored s t := by
  intro hs
  -- with nothing remembered, the two relations agree
  have hkeeps : Keeps { s with cache := {} } { t with cache := {} } :=
    keeps_of_eq hstreams hfiles hmedia rfl
  obtain ⟨ht, hgrows⟩ := hkeeps ⟨hs, fun k id hk => by cases hk⟩
  exact ⟨ht.db, hgrows⟩

end Crawl

namespace CrawlStep

/-- A reset is within what its writes and its report are within. -/
theorem within_reset {R : Crawl → Crawl → Prop} [IsPreorder Crawl R]
    (hsave : ∀ s positions, R s { s with db := { s.db with positions := positions } })
    (hblobs : ∀ s blobs, R s { s with db := { s.db with blobs := blobs } })
    (hlog : ∀ s e, R s (s.log e)) : Within R reset := by
  have hclear : Within R (update .checkpoint Database.clearBlobs) := by
    refine within_update (refl_of R) fun s db hdb => ?_
    obtain ⟨bs, -, -, rfl⟩ := Database.clearBlobs_eq_ok_iff.mp hdb
    exact hblobs s _
  exact .bind (Crawler.within_updatePositions hsave) fun _ => .bind hclear fun _ s => hlog s _

theorem keepsStored_reset : Within KeepsStored reset :=
  within_reset (fun _ _ => keepsStored_of_eq rfl rfl rfl) (fun _ _ => keepsStored_of_eq rfl rfl rfl)
    fun _ _ => keepsStored_of_eq rfl rfl rfl

end CrawlStep

namespace Crawler

variable {c : Crawler}

/-- A run begins with nothing remembered, so it may begin in any state whose streams are sound. -/
theorem keepsStored_run (limits : PassLimits) : Within KeepsStored (c.run limits) := by
  intro s hs
  have hpasses : Within Keeps (do
      let incremental ← (c.incremental limits.incremental).during .walker
      let backfill ← (c.backfill limits.backfill).during .walker
      return (⟨incremental, backfill⟩ : RunStats)) :=
    .bind ((keeps_pass limits.incremental .incremental).during _) fun _ =>
      .bind ((keeps_pass limits.backfill .backfill).during _) fun _ => within_pure _
  obtain ⟨ht, hgrows⟩ := hpasses { s with cache := {} } ⟨hs, fun k id hk => by cases hk⟩
  exact ⟨ht.db, hgrows⟩

theorem keepsStored_fullIngestion (o : FullOptions) : Within KeepsStored (c.fullIngestion o) :=
  within_fullIngestion keepsStored_reset keepsStored_run o

end Crawler

namespace Crawl

/-- What runs, full ingestions and resets make of a crawl. Each run and each full ingestion may have
a remote, a search and settings of its own. -/
inductive Reaches (s : Crawl) : Crawl → Prop
  | here : Reaches s s
  | run {t : Crawl} (h : Reaches s t) (c : Crawler) (limits : PassLimits) :
      Reaches s (c.run limits t).2
  | fullIngestion {t : Crawl} (h : Reaches s t) (c : Crawler) (o : FullOptions) :
      Reaches s (c.fullIngestion o t).2
  | reset {t : Crawl} (h : Reaches s t) : Reaches s (CrawlStep.reset t).2

variable {s t : Crawl}

theorem Reaches.keepsStored (h : s.Reaches t) : KeepsStored s t := by
  induction h with
  | here => exact refl_of KeepsStored s
  | run _ c limits ih => exact trans_of KeepsStored ih (c.keepsStored_run limits _)
  | fullIngestion _ c o ih => exact trans_of KeepsStored ih (c.keepsStored_fullIngestion o _)
  | reset _ ih => exact trans_of KeepsStored ih (keepsStored_reset _)

/-- From empty tables on, the streams are sound at all times, whatever stands in the catalog at the
beginning, and nothing that is stored at one time is different or missing later. -/
theorem Reaches.streams_sound (h : s.Reaches t) {files : FileTable}
    (hstreams : s.db.streams = some []) (hfiles : s.db.files = some files)
    (hrows : files.rows = []) :
    t.db.IsSound ∧ ∀ u, t.Reaches u → u.db.IsSound ∧ t.db.Grows u.db := by
  have hs : s.db.IsSound :=
    ⟨[], files, hstreams, hfiles, .empty hrows, fun r hr => by cases hr⟩
  obtain ⟨ht, -⟩ := h.keepsStored hs
  exact ⟨ht, fun u hu => hu.keepsStored ht⟩

/-- A crawl that has made a run over new tables, and has then begun all over again. -/
def ingested : Crawl :=
  (Crawler.listed.fullIngestion ⟨3, {}, true⟩ (Crawler.listed.run {} .titled).2).2

theorem reaches_ingested : titled.Reaches ingested :=
  (Reaches.here.run Crawler.listed {}).fullIngestion Crawler.listed ⟨3, {}, true⟩

/-- The stream of the list is stored, and is there for good. -/
theorem streams_sound_ingested :
    titled.Reaches ingested ∧ titled.db.streams = some [] ∧ titled.db.files = some {} ∧
    ingested.db.streamCount = .ok 1 ∧ ingested.db.IsSound ∧
      ∀ u, ingested.Reaches u → u.db.IsSound ∧ ingested.db.Grows u.db := by
  have hfiles : titled.db.files = some {} := rfl
  have hstored : ingested.db.streamCount = .ok 1 := by decide +kernel
  exact ⟨reaches_ingested, rfl, hfiles, hstored, reaches_ingested.streams_sound rfl hfiles rfl⟩

end Crawl

end Harvest
