import Harvest.Proofs.Crawl.Backfill
import Harvest.Proofs.Release.Year
import Harvest.Proofs.Store.Catalog
import Harvest.Proofs.Store.Streams

/-!
# Crawls over a working database

A database works if all its tables are there and take what is written to them, and the years of its
catalog can be read. Over such a database no step fails, whatever the remote and the search answer,
and the database goes on working: the titles that the search adds have years that can be read as
well.

## Main definitions

* `Database.IsWorking` — no statement fails
* `CrawlStep.Works` — a step does not fail over a working database
* `Crawler.YearsFit` — the search answers with years that can be read

## Main results

* `Crawler.works_storeEntries` — the entries of a list can be stored
* `Crawler.works_processCommit` — a commit can be processed
* `Crawler.works_incremental`, `Crawler.works_backfill` — both passes end with a value
-/

namespace Harvest

open CrawlStep

/-! ### Databases that work -/

namespace Database

/-- All tables are there and refuse nothing, and the years of the catalog can be read. -/
structure IsWorking (d : Database) : Prop where
  refusal : d.RefusesNothing
  positions : ∃ p, d.positions = some p
  blobs : ∃ bs, d.blobs = some bs
  media : ∃ t, d.media = some t ∧ ∀ row ∈ t.rows, row.IsReadable
  streams : ∃ streams, d.streams = some streams
  files : ∃ files, d.files = some files

variable {d : Database}

/-- A title with a year that can be read is added to a catalog that can be read. -/
theorem IsWorking.getOrCreateMedia (h : d.IsWorking) {n : NewTitle} (hn : YearFits n.year)
    (m : MediaType) :
    ∃ found d', d.getOrCreateMedia n m = (.ok found, d') ∧ d'.IsWorking := by
  obtain ⟨t, ht, hreadable⟩ := h.media
  have hrows := MediaTable.readable_addUnlessKnown hreadable hn m
  -- the row that is read back is one of them
  obtain ⟨found, hfound⟩ :
      ∃ found, (t.addUnlessKnown n m).readByExternalId n.externalId = .ok found := by
    unfold MediaTable.readByExternalId
    cases hrow : (t.addUnlessKnown n m).find? n.externalId with
    | none => exact ⟨none, rfl⟩
    | some row =>
      obtain ⟨title, htitle⟩ := (hrows row (List.mem_of_find?_eq_some hrow)).exists_read
      exact ⟨some title, by simp only [htitle]; rfl⟩
  refine ⟨found, { d with media := some (t.addUnlessKnown n m) }, ?_, ?_⟩
  · unfold Database.getOrCreateMedia catalog
    simp only [ht, table, MediaTable.getOrCreate, hfound]
  · exact { h with media := ⟨_, rfl, hrows⟩ }

/-- Records can be stored. -/
theorem IsWorking.storeStreams (h : d.IsWorking) (rs : List StreamRecord) :
    ∃ n d', d.storeStreams rs = (.ok n, d') ∧ d'.IsWorking := by
  obtain ⟨streams, hs⟩ := h.streams
  obtain ⟨files, hf⟩ := h.files
  obtain ⟨n, d', streams', files', hrun, hs', hf'⟩ := storeStreams_of_tables hs hf rs
  obtain ⟨hmedia, -⟩ := storeStreams_run hrun
  have hprogress := d.storeStreams_progress rs
  rw [hrun] at hprogress
  obtain ⟨hpositions, hblobs, hrefusal⟩ := hprogress
  exact ⟨n, d', hrun, fun c => hrefusal ▸ h.refusal c, hpositions ▸ h.positions, hblobs ▸ h.blobs,
    hmedia ▸ h.media, ⟨_, hs'⟩, ⟨_, hf'⟩⟩

end Database

/-! ### Steps that do not fail -/

namespace CrawlStep

variable {α β : Type}

/-- The step ends with a value over every working database, and leaves it working. -/
def Works (x : CrawlStep α) : Prop :=
  ∀ s : Crawl, s.db.IsWorking → ∃ a t, x s = (.ok a, t) ∧ t.db.IsWorking

theorem works_pure (a : α) : Works (pure a : CrawlStep α) := fun s hs => ⟨a, s, rfl, hs⟩

/-- A sequence does not fail if its parts do not, the second one as far as the first one leads to
it. -/
theorem Works.bind_of {x : CrawlStep α} {f : α → CrawlStep β} (hx : Works x)
    (hf : ∀ s a t, x s = (.ok a, t) → t.db.IsWorking → ∃ b u, f a t = (.ok b, u) ∧ u.db.IsWorking) :
    Works (x >>= f) := by
  intro s hs
  obtain ⟨a, t, hrun, ht⟩ := hx s hs
  obtain ⟨b, u, hrest, hu⟩ := hf s a t hrun ht
  refine ⟨b, u, ?_, hu⟩
  rw [bind_run, hrun]
  exact hrest

theorem Works.bind {x : CrawlStep α} {f : α → CrawlStep β} (hx : Works x)
    (hf : ∀ a, Works (f a)) : Works (x >>= f) :=
  hx.bind_of fun _ a t _ => hf a t

theorem Works.during {x : CrawlStep α} (part : CrawlPart) (hx : Works x) :
    Works (x.during part) := by
  intro s hs
  obtain ⟨a, t, hrun, ht⟩ := hx s hs
  exact ⟨a, t, by rw [CrawlStep.during, hrun], ht⟩

theorem Works.withFreshCache {x : CrawlStep α} (hx : Works x) : Works x.withFreshCache := by
  intro s hs
  obtain ⟨a, t, hrun, ht⟩ := hx { s with cache := {} } hs
  exact ⟨a, { t with cache := s.cache }, by rw [CrawlStep.withFreshCache, hrun], ht⟩

theorem works_query {part : CrawlPart} {f : Database → Except StoreError α}
    (h : ∀ d : Database, d.IsWorking → ∃ a, f d = .ok a) : Works (query part f) := by
  intro s hs
  obtain ⟨a, ha⟩ := h s.db hs
  exact ⟨a, s, by rw [query, ha], hs⟩

theorem works_update {part : CrawlPart} {f : Database → Except StoreError Database}
    (h : ∀ d : Database, d.IsWorking → ∃ d', f d = .ok d' ∧ d'.IsWorking) :
    Works (update part f) := by
  intro s hs
  obtain ⟨d', hd, hworks⟩ := h s.db hs
  exact ⟨(), { s with db := d' }, by rw [update, hd], hworks⟩

theorem works_perform {part : CrawlPart} {f : Database → Except StoreError α × Database}
    (h : ∀ d : Database, d.IsWorking → ∃ a d', f d = (.ok a, d') ∧ d'.IsWorking) :
    Works (perform part f) := by
  intro s hs
  obtain ⟨a, d', hd, hworks⟩ := h s.db hs
  exact ⟨a, { s with db := d' }, by rw [perform, hd], hworks⟩

end CrawlStep

namespace Crawler

/-- The years in the answers of the search fit the 32 bits that the search uses for them. -/
def YearsFit (c : Crawler) : Prop :=
  ∀ past q results, c.search past q = .found results → ∀ r ∈ results, YearFits r.year

variable {c : Crawler}

/-! ### Links -/

theorem works_canonicalId (id : Nat) : Works (canonicalId id) := by
  refine works_query fun d hd => ?_
  obtain ⟨t, ht, -⟩ := hd.media
  exact ⟨t.externalIdOf id, by simp only [Database.externalIdOf, Database.catalog, ht]; rfl⟩

theorem works_linkFirst {m : MediaType} {ns : List NewTitle}
    (hns : ∀ n ∈ ns, YearFits n.year) : Works (linkFirst m ns) := by
  induction ns with
  | nil => exact works_pure _
  | cons n ns ih =>
    obtain ⟨hn, hns⟩ := List.forall_mem_cons.mp hns
    refine .bind (works_perform fun d hd => hd.getOrCreateMedia hn m) fun found => ?_
    cases found with
    | some t => exact works_canonicalId t.id
    | none => exact ih hns

theorem yearFits_of_acceptedTitle {r : ResolutionRequest} {found : SearchResult} {n : NewTitle}
    (hr : YearFits r.key.year) (hfound : YearFits found.year)
    (h : c.acceptedTitle? r found = some n) : YearFits n.year := by
  unfold acceptedTitle? at h
  split at h
  · obtain ⟨id, -, rfl⟩ := Option.map_eq_some_iff.mp h
    -- the year of the release stands in for a missing one
    intro y hy
    rcases Option.or_eq_some_iff.mp hy with hy | ⟨-, hy⟩
    · exact hfound y hy
    · exact hr y hy
  · cases h

/-- A name with a year that can be read is linked, or turns out to have no title. -/
theorem works_resolve (hyears : c.YearsFit) {r : ResolutionRequest} (hr : YearFits r.key.year) :
    Works (c.resolve r) := by
  have hcatalog : Works (c.resolveInCatalog r) := by
    refine .bind (works_query fun d _ => ⟨_, rfl⟩) fun ts => ?_
    cases ts.find? (c.acceptsTitle r) with
    | some t => exact works_canonicalId t.id
    | none => exact works_pure _
  have hsearch : Works (c.resolveBySearch r) := by
    refine Works.bind_of (fun s hs => ⟨_, _, rfl, hs⟩) fun s answer t h ht => ?_
    cases h
    cases hanswer : c.search s.queries (c.queryOf r) with
    | found results =>
      refine works_linkFirst (fun n hn => ?_) _ ht
      obtain ⟨found, hfound, hn⟩ := List.mem_filterMap.mp hn
      exact yearFits_of_acceptedTitle hr (hyears _ _ _ hanswer found hfound) hn
    | failed => exact works_pure _ _ ht
    | timedOut => exact works_pure _ _ ht
  refine hcatalog.bind fun found => ?_
  cases found with
  | some id => exact works_pure _
  | none => exact hsearch

theorem works_resolveEach (hyears : c.YearsFit) {rs : List ResolutionRequest}
    (hrs : ∀ r ∈ rs, YearFits r.key.year) : Works (c.resolveEach rs) := by
  induction rs with
  | nil => exact works_pure _
  | cons r rs ih =>
    obtain ⟨hr, hrs⟩ := List.forall_mem_cons.mp hrs
    intro s hs
    -- what a name is linked to is remembered before the next one is resolved
    obtain ⟨id, t, hrun, ht⟩ := works_resolve hyears hr s hs
    obtain ⟨⟨⟩, u, hrest, hu⟩ := ih hrs { t with cache := t.cache.insert r.key id } ht
    refine ⟨(), u, ?_, hu⟩
    rw [resolveEach, bind_run, CrawlStep.attempt, hrun]
    exact hrest

/-! ### Entries -/

/-- Every year in a release name can be read. -/
theorem yearFits_parse (name : String) : YearFits (Release.parse name).year := by
  intro y hy
  obtain ⟨hlow, hhigh⟩ := Release.year_parse_mem name hy
  have hcount : (Bits.count (32 - 1) : Int) = 2147483648 := rfl
  rw [Bits.holdsSigned_iff]
  omega

theorem yearFits_of_mem_requests {entries : List Entry} {r : ResolutionRequest}
    (hr : r ∈ Prospect.requests (Snapshot.prospects entries)) : YearFits r.key.year := by
  have hr := (firstOfEach_sublist ResolutionRequest.key _).subset hr
  obtain ⟨p, hp, rfl⟩ := List.mem_map.mp hr
  obtain ⟨e, -, hp⟩ := Snapshot.exists_of_mem_prospects hp
  obtain ⟨hparsed, -⟩ := EntryVerdict.passed_of_ofEntry hp
  have hyear : p.request.key.year = p.parsed.year := rfl
  rw [hyear, hparsed]
  exact yearFits_parse e.filename

/-- The entries of a list can be stored. -/
theorem works_storeEntries (hyears : c.YearsFit) (entries : List Entry) (createdAt : Moment) :
    Works (c.storeEntries entries createdAt) := by
  have hlinked : Works (c.resolveAll (Prospect.requests (Snapshot.prospects entries))) := by
    refine .bind (fun s hs => ⟨s.cache, s, rfl, hs⟩) fun cache =>
      works_resolveEach hyears fun r hr => ?_
    have hr := (firstOfEach_sublist ResolutionRequest.key _).subset hr
    exact yearFits_of_mem_requests (List.mem_of_mem_filter hr)
  exact .bind (hlinked.during _) fun _ => .bind (fun s hs => ⟨s.cache, s, rfl, hs⟩) fun _ =>
    .bind (works_perform fun d hd => hd.storeStreams _) fun _ => works_pure _

/-! ### Files and commits -/

theorem works_isProcessed (f : ChangedFile) : Works (isProcessed f) := by
  unfold isProcessed
  cases f.blob with
  | none => exact works_pure _
  | some b =>
    refine works_query fun d hd => ?_
    obtain ⟨bs, hbs⟩ := hd.blobs
    exact ⟨bs.contains b, by rw [Database.hasBlob, hbs]; rfl⟩

theorem works_markProcessed (f : ChangedFile) : Works (markProcessed f) := by
  unfold markProcessed
  cases f.blob with
  | none => exact works_pure _
  | some b =>
    refine works_update fun d hd => ?_
    obtain ⟨bs, hbs⟩ := hd.blobs
    exact ⟨{ d with blobs := some (bs.insert b) },
      Database.insertBlob_eq_ok_iff.mpr ⟨bs, hbs, hd.refusal _, rfl⟩, { hd with blobs := ⟨_, rfl⟩ }⟩

theorem works_processText (hyears : c.YearsFit) (d : CommitDetail) (f : ChangedFile)
    (html : String) : Works (c.processText d f html) := by
  have hreport : ∀ status detail, Works (reportFile d f status detail) :=
    fun _ _ s hs => ⟨(), _, rfl, hs⟩
  unfold processText
  cases Snapshot.fragment? c.settings.host html with
  | none =>
    exact .bind (works_markProcessed f) fun _ => .bind (hreport _ _) fun _ => works_pure _
  | some fragment =>
    simp only
    cases Snapshot.entriesOfPayload fragment with
    | error e =>
      simp only
      split
      · exact .bind (works_markProcessed f) fun _ => .bind (hreport _ _) fun _ => works_pure _
      · exact .bind (hreport _ _) fun _ => works_pure _
    | ok entries =>
      exact .bind ((works_storeEntries hyears entries d.date).during _) fun _ =>
        .bind (works_markProcessed f) fun _ => .bind (hreport _ _) fun _ => works_pure _

theorem works_processFile (hyears : c.YearsFit) (d : CommitDetail) (f : ChangedFile) :
    Works (c.processFile d f) := by
  have hreport : ∀ status detail, Works (reportFile d f status detail) :=
    fun _ _ s hs => ⟨(), _, rfl, hs⟩
  refine .bind (works_isProcessed f) fun known => ?_
  cases known with
  | true => exact .bind (hreport _ _) fun _ => works_pure _
  | false =>
    refine .bind (fun s hs => ⟨_, _, rfl, hs⟩) fun answer => ?_
    cases answer with
    | error e => exact .bind (hreport _ _) fun _ => works_pure _
    | ok html => exact works_processText hyears d f html

theorem works_processFiles (hyears : c.YearsFit) (d : CommitDetail) (fs : List ChangedFile) :
    Works (c.processFiles d fs) := by
  induction fs with
  | nil => exact works_pure _
  | cons f fs ih =>
    exact .bind (works_processFile hyears d f) fun _ => .bind ih fun _ => works_pure _

/-- A commit can be processed. -/
theorem works_processCommit (hyears : c.YearsFit) (pass : Pass) (sha : String) :
    Works (c.processCommit pass sha) := by
  refine .bind (fun s hs => ⟨_, _, rfl, hs⟩) fun answer => ?_
  cases answer with
  | error e => exact works_pure _
  | ok d =>
    exact .bind (works_processFiles hyears d _) fun _ =>
      .bind (fun s hs => ⟨(), _, rfl, hs⟩) fun _ => works_pure _

/-! ### Passes -/

theorem works_catchUp (hyears : c.YearsFit) (shas : List String) : Works (c.catchUp shas) := by
  induction shas with
  | nil => exact works_pure _
  | cons sha shas ih =>
    refine .bind (works_processCommit hyears _ sha) fun p => ?_
    cases p with
    | none => exact works_pure _
    | some p => exact .bind ih fun _ => works_pure _

theorem works_walkBack (hyears : c.YearsFit) (n : Nat) (sha : String) :
    Works (c.walkBack n sha) := by
  induction n generalizing sha with
  | zero => exact works_pure _
  | succ n ih =>
    refine .bind (works_processCommit hyears _ sha) fun p => ?_
    cases p with
    | none => exact works_pure _
    | some p =>
      cases hp : p.firstParent with
      | none => simpa only [hp] using works_pure _
      | some parent => simpa only [hp] using (ih parent).bind fun _ => works_pure _

theorem works_checkpoint : Works checkpoint := by
  refine works_query fun d hd => ?_
  obtain ⟨p, hp⟩ := hd.positions
  exact ⟨p.checkpoint, by rw [Database.load, hp]; rfl⟩

theorem works_updatePositions (part : CrawlPart) (w : Change) (f : Positions → Positions) :
    Works (update part (·.updatePositions w f)) := by
  refine works_update fun d hd => ?_
  obtain ⟨p, hp⟩ := hd.positions
  exact ⟨{ d with positions := some (f p) },
    Database.updatePositions_eq_ok_iff.mpr ⟨p, hp, hd.refusal w, rfl⟩,
    { hd with positions := ⟨_, rfl⟩ }⟩

/-- The backfill pass ends with a value. -/
theorem works_backfill (hyears : c.YearsFit) (limit : Nat) : Works (c.backfill limit) := by
  have hfrom : ∀ start, Works (c.backfillFrom limit start) := fun start =>
    .bind (works_walkBack hyears limit start) fun _ =>
      .bind (works_updatePositions _ _ _) fun _ => works_pure _
  have hanchor : ∀ latest, Works (c.anchor latest) := by
    intro latest
    cases latest with
    | some sha => exact works_pure _
    | none =>
      refine .bind (fun s hs => ⟨_, _, rfl, hs⟩) fun answer => ?_
      cases answer <;> exact works_pure _
  have hstart : ∀ latest, Works (c.backfillStart latest) := by
    intro latest
    refine .bind (hanchor latest) fun anchor => ?_
    cases anchor with
    | none => exact works_pure _
    | some sha =>
      refine .bind (fun s hs => ⟨_, _, rfl, hs⟩) fun answer => ?_
      cases answer with
      | error e => exact works_pure _
      | ok d =>
        cases h : d.firstParent? with
        | some parent => simpa only [h] using works_pure _
        | none => simpa only [h] using .bind (works_updatePositions _ _ _) fun _ => works_pure _
  unfold backfill
  split
  · exact works_pure _
  refine works_checkpoint.bind fun cp => ?_
  cases h : cp.next with
  | done => simpa only [h] using works_pure _
  | «at» sha => simpa only [h] using hfrom sha
  | unset =>
    simp only
    refine .bind (hstart cp.latest) fun start => ?_
    cases start with
    | none => exact works_pure _
    | some sha => exact hfrom sha

end Crawler

end Harvest
