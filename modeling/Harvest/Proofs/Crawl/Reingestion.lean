import Harvest.Proofs.Crawl.Counts

/-!
# A second ingestion

If a crawl is reset and the whole history is ingested again, nothing is stored twice. Two crawls are
compared: the first one from nothing, and the second one after it, which knows the streams of the
first. As long as the answers of the remote do not change and the search finds nothing, the second
crawl goes the way of the first one step by step, and every record that it offers is known already.

## Main definitions

* `Crawl.Retraces` — one crawl stands where another one stands, and knows certain hashes besides
* `CrawlStep.InStep` — two steps go the same way in such crawls
* `PassStats.Matches`, `RunStats.Matches` — the same numbers, except for those of new streams
* `Crawl.OnlyAdds` — rows are added, or nothing of the streams has changed
* `FullReport.repeated` — what a second ingestion reports

## Main results

* `CrawlStep.InStep.bind` — sequences go the same way if their parts do
* `Crawler.inStep_fullIngestion` — full ingestions go the same way
* `Crawler.onlyAdds_fullIngestion` — a full ingestion that adds no row changes no stream and no file
* `Crawler.reingestion_idempotent` — a second ingestion leaves everything as the first one did
-/

namespace Harvest

open CrawlStep Crawl

/-! ### Crawls beside each other -/

/-- The tables of streams and of files are there. -/
def Database.HoldsStreams (d : Database) : Prop :=
  (∃ streams, d.streams = some streams) ∧ ∃ files, d.files = some files

/-- Nothing is refused. All tables but those of streams and of files are the same, the given catalog
among them. The second database has the hashes of the first one, and certain others. -/
structure Database.Retraces (m : MediaTable) (known : List String) (d d' : Database) : Prop where
  refusal : d.RefusesNothing ∧ d'.RefusesNothing
  positions : ∃ p, d.positions = some p ∧ d'.positions = some p
  blobs : ∃ bs, d.blobs = some bs ∧ d'.blobs = some bs
  media : d.media = some m ∧ d'.media = some m
  tables : d.HoldsStreams ∧ d'.HoldsStreams
  hashes : ∀ x, x ∈ Stream.hashes d'.rows ↔ x ∈ Stream.hashes d.rows ∨ x ∈ known

/-- The second crawl stands where the first one stands. -/
def Crawl.Retraces (m : MediaTable) (known : List String) (s t : Crawl) : Prop :=
  s.db.Retraces m known t.db ∧ t.cache = s.cache

namespace CrawlStep

variable {m : MediaTable} {known : List String} {α α' β β' : Type} {V : α → α' → Prop}
  {W : β → β' → Prop} {x : CrawlStep α} {y : CrawlStep α'} {part : CrawlPart}

/-- Both steps end with values, which are related, and the second crawl stands where the first one
stands afterwards if it did so before. -/
def InStep (m : MediaTable) (known : List String) (V : α → α' → Prop) (x : CrawlStep α)
    (y : CrawlStep α') : Prop :=
  ∀ s t, Retraces m known s t → ∃ a b u v, x s = (.ok a, u) ∧ y t = (.ok b, v) ∧ V a b ∧
    Retraces m known u v

theorem inStep_pure {a : α} {b : α'} (h : V a b) : InStep m known V (pure a) (pure b) :=
  fun s t hst => ⟨a, b, s, t, rfl, rfl, h, hst⟩

/-- Sequences go the same way if their parts do. -/
theorem InStep.bind {f : α → CrawlStep β} {g : α' → CrawlStep β'} (hx : InStep m known V x y)
    (hf : ∀ a b, V a b → InStep m known W (f a) (g b)) : InStep m known W (x >>= f) (y >>= g) := by
  intro s t hst
  obtain ⟨a, b, u, v, hxs, hyt, hab, huv⟩ := hx s t hst
  obtain ⟨a', b', u', v', hfu, hgv, hab', huv'⟩ := hf a b hab u v huv
  refine ⟨a', b', u', v', ?_, ?_, hab', huv'⟩
  · rw [bind_run, hxs]
    exact hfu
  · rw [bind_run, hyt]
    exact hgv

theorem InStep.bind_eq {x y : CrawlStep α} {f : α → CrawlStep β} {g : α → CrawlStep β'}
    (hx : InStep m known Eq x y) (hf : ∀ a, InStep m known W (f a) (g a)) :
    InStep m known W (x >>= f) (y >>= g) :=
  hx.bind fun a _ h => h ▸ hf a

theorem InStep.during (part : CrawlPart) (h : InStep m known V x y) :
    InStep m known V (x.during part) (y.during part) := by
  intro s t hst
  obtain ⟨a, b, u, v, hxs, hyt, hab, huv⟩ := h s t hst
  exact ⟨a, b, u, v, by rw [CrawlStep.during, hxs], by rw [CrawlStep.during, hyt], hab, huv⟩

/-- What is remembered in the meantime is forgotten on both sides. -/
theorem InStep.withFreshCache (h : InStep m known V x y) :
    InStep m known V x.withFreshCache y.withFreshCache := by
  intro s t ⟨hdb, hcache⟩
  obtain ⟨a, b, u, v, hxs, hyt, hab, huv, -⟩ :=
    h { s with cache := {} } { t with cache := {} } ⟨hdb, rfl⟩
  refine ⟨a, b, { u with cache := s.cache }, { v with cache := t.cache }, ?_, ?_, hab, huv, hcache⟩
  · rw [CrawlStep.withFreshCache, hxs]
  · rw [CrawlStep.withFreshCache, hyt]

theorem inStep_query {f : Database → Except StoreError α}
    (h : ∀ d d' : Database, d.Retraces m known d' → ∃ a, f d = .ok a ∧ f d' = .ok a) :
    InStep m known Eq (query part f) (query part f) := by
  intro s t hst
  obtain ⟨a, hs, ht⟩ := h s.db t.db hst.1
  exact ⟨a, a, s, t, by rw [query, hs], by rw [query, ht], rfl, hst⟩

theorem inStep_update {f : Database → Except StoreError Database}
    (h : ∀ d d' : Database, d.Retraces m known d' →
      ∃ e e', f d = .ok e ∧ f d' = .ok e' ∧ e.Retraces m known e') :
    InStep m known Eq (update part f) (update part f) := by
  intro s t hst
  obtain ⟨d, d', hs, ht, hd⟩ := h s.db t.db hst.1
  exact ⟨(), (), { s with db := d }, { t with db := d' }, by rw [update, hs], by rw [update, ht],
    rfl, hd, hst.2⟩

theorem inStep_report (e e' : Event) :
    InStep m known Eq (CrawlStep.report e) (CrawlStep.report e') :=
  fun s t hst => ⟨(), (), s.log e, t.log e', rfl, rfl, rfl, hst⟩

end CrawlStep

/-! ### Numbers -/

/-- The commits and files are the same, and without a commit there is nothing at all. -/
structure PassStats.Matches (x y : PassStats) : Prop where
  commits : y.commits = x.commits
  files : y.files = x.files
  idle : x.commits = 0 → x = {} ∧ y = {}

namespace PassStats.Matches

variable {x x' y y' : PassStats}

theorem zero : Matches {} {} := ⟨rfl, rfl, fun _ => ⟨rfl, rfl⟩⟩

theorem add (h : x.Matches y) (h' : x'.Matches y') : (x + x').Matches (y + y') where
  commits := congrArg₂ (· + ·) h.commits h'.commits
  files := congrArg₂ (· + ·) h.files h'.files
  idle hzero := by
    obtain ⟨hx, hx'⟩ := Nat.add_eq_zero_iff.mp hzero
    obtain ⟨rfl, rfl⟩ := h.idle hx
    obtain ⟨rfl, rfl⟩ := h'.idle hx'
    exact ⟨rfl, rfl⟩

theorem isZero_eq (h : x.Matches y) : y.isZero = x.isZero := by
  by_cases hzero : x.commits = 0
  · obtain ⟨rfl, rfl⟩ := h.idle hzero
    rfl
  · have hx : x ≠ {} := fun hx => hzero (congrArg PassStats.commits hx)
    have hy : y ≠ {} := fun hy => hzero (h.commits.symm.trans (congrArg PassStats.commits hy))
    rw [isZero, isZero, beq_eq_false_iff_ne.mpr hx, beq_eq_false_iff_ne.mpr hy]

end PassStats.Matches

/-- The numbers of both passes match. -/
structure RunStats.Matches (x y : RunStats) : Prop where
  incremental : x.incremental.Matches y.incremental
  backfill : x.backfill.Matches y.backfill

namespace RunStats.Matches

variable {x x' y y' : RunStats}

theorem zero : Matches {} {} := ⟨.zero, .zero⟩

theorem add (h : x.Matches y) (h' : x'.Matches y') : (x + x').Matches (y + y') :=
  ⟨h.incremental.add h'.incremental, h.backfill.add h'.backfill⟩

theorem isZero_eq (h : x.Matches y) : y.isZero = x.isZero := by
  rw [isZero, isZero, h.incremental.isZero_eq, h.backfill.isZero_eq]

end RunStats.Matches

/-- The parent and the number of files are the same. -/
structure ProcessedCommit.Matches (p q : ProcessedCommit) : Prop where
  firstParent : q.firstParent = p.firstParent
  files : q.files = p.files

theorem ProcessedCommit.Matches.stats {p q : ProcessedCommit} (h : p.Matches q) :
    p.stats.Matches q.stats :=
  ⟨rfl, h.files, fun hzero => absurd hzero Nat.one_ne_zero⟩

/-- The runs are as many and end for the same reason. -/
def IterationOutcome.Matches (x y : IterationOutcome) : Prop :=
  y = { x with totals := y.totals } ∧ x.totals.Matches y.totals

/-- The reports say the same, except for the numbers of new streams. -/
def FullReport.Matches (x y : FullReport) : Prop :=
  y = { x with totals := y.totals } ∧ x.totals.Matches y.totals

/-! ### The same way -/

namespace Crawler

variable {c : Crawler} {m : MediaTable} {known : List String}

/-- The search never answers with a title. -/
def FindsNothing (c : Crawler) : Prop :=
  ∀ past q results, c.search past q = .found results → results = []

/-- A name is linked by the catalog alone, whose years need not even be readable. -/
theorem resolve_of_findsNothing (hsearch : c.FindsNothing) (m : MediaTable)
    (r : ResolutionRequest) : ∃ id, ∀ s : Crawl, s.db.media = some m →
      ∃ queries, c.resolve r s = (.ok id, { s with queries := queries }) := by
  -- only the catalog of a database is read, and it is the same in all crawls in question
  have hconsidered : ∃ ts, ∀ d : Database, d.media = some m → c.considered r d = ts := by
    refine ⟨c.considered r { media := some m }, fun d hd => ?_⟩
    simp only [considered, Database.searchMedia, Database.catalog, hd]
  obtain ⟨ts, hts⟩ := hconsidered
  have hsearched : ∀ s : Crawl,
      c.resolveBySearch r s = (.ok none, { s with queries := s.queries ++ [c.queryOf r] }) := by
    intro s
    simp only [resolveBySearch, bind_run, ask]
    cases hanswer : c.search s.queries (c.queryOf r) with
    | found results =>
      rw [hsearch _ _ _ hanswer]
      rfl
    | failed | timedOut => rfl
  have hcatalog : ∃ found, ∀ s : Crawl, s.db.media = some m →
      c.resolveInCatalog r s = (.ok found, s) := by
    cases hfind : ts.find? (c.acceptsTitle r) with
    | none =>
      refine ⟨none, fun s hs => ?_⟩
      simp only [resolveInCatalog, bind_run, query, hts _ hs, hfind]
      rfl
    | some t =>
      refine ⟨m.externalIdOf t.id, fun s hs => ?_⟩
      simp only [resolveInCatalog, bind_run, query, hts _ hs, hfind, canonicalId,
        Database.externalIdOf, Database.catalog, hs]
      rfl
  obtain ⟨found, hfound⟩ := hcatalog
  refine ⟨found, fun s hs => ?_⟩
  rw [resolve]
  simp only [bind_run, hfound s hs]
  cases found with
  | some id => exact ⟨s.queries, rfl⟩
  | none => exact ⟨_, hsearched s⟩

theorem inStep_resolveEach (hsearch : c.FindsNothing) (rs : List ResolutionRequest) :
    InStep m known Eq (c.resolveEach rs) (c.resolveEach rs) := by
  induction rs with
  | nil => exact inStep_pure rfl
  | cons r rs ih =>
    intro s t ⟨hdb, hcache⟩
    obtain ⟨id, hid⟩ := resolve_of_findsNothing hsearch m r
    obtain ⟨queries, hs⟩ := hid s hdb.media.1
    obtain ⟨queries', ht⟩ := hid t hdb.media.2
    -- both crawls remember the same link
    obtain ⟨a, b, u, v, hrest, hrest', hab, huv⟩ := ih
      { s with queries := queries, cache := s.cache.insert r.key id }
      { t with queries := queries', cache := t.cache.insert r.key id }
      ⟨hdb, congrArg (·.insert r.key id) hcache⟩
    refine ⟨a, b, u, v, ?_, ?_, hab, huv⟩
    · rw [resolveEach, bind_run, CrawlStep.attempt, hs]
      exact hrest
    · rw [resolveEach, bind_run, CrawlStep.attempt, ht]
      exact hrest'

/-- The same records are stored, so the second database has all hashes of the first one again. -/
theorem inStep_storeStreams (rs : List StreamRecord) :
    InStep m known (fun _ _ => True) (perform .streams (·.storeStreams rs))
      (perform .streams (·.storeStreams rs)) := by
  have stores : ∀ {d : Database}, d.HoldsStreams → d.media = some m → ∃ n d',
      d.storeStreams rs = (.ok n, d') ∧ d'.HoldsStreams ∧ d'.media = some m ∧
      d'.positions = d.positions ∧ d'.blobs = d.blobs ∧ d'.refusal = d.refusal ∧
      ∀ x, x ∈ Stream.hashes d'.rows ↔ x ∈ Stream.hashes d.rows ∨ x ∈ Stream.hashes rs := by
    rintro d ⟨⟨streams, hstreams⟩, files, hfiles⟩ hmedia
    obtain ⟨n, d', streams', files', hrun, hstreams', hfiles'⟩ :=
      Database.storeStreams_of_tables hstreams hfiles rs
    have hprogress := d.storeStreams_progress rs
    rw [hrun] at hprogress
    obtain ⟨hp, hb, hr⟩ := hprogress
    obtain ⟨-, -, -, -, hhashes⟩ := Database.storeStreams_adds hrun
    exact ⟨n, d', hrun, ⟨⟨_, hstreams'⟩, _, hfiles'⟩,
      (Database.storeStreams_run hrun).1.trans hmedia, hp, hb, hr, hhashes⟩
  intro s t ⟨hdb, hcache⟩
  obtain ⟨n, d, hs, hd, hm, hp, hb, hr, hh⟩ := stores hdb.tables.1 hdb.media.1
  obtain ⟨n', d', ht, hd', hm', hp', hb', hr', hh'⟩ := stores hdb.tables.2 hdb.media.2
  refine ⟨n, n', { s with db := d }, { t with db := d' }, by rw [perform, hs], by rw [perform, ht],
    trivial, ⟨⟨fun w => ?_, fun w => ?_⟩, ?_, ?_, ⟨hm, hm'⟩, ⟨hd, hd'⟩, fun x => ?_⟩, hcache⟩
  · exact hr ▸ hdb.refusal.1 w
  · exact hr' ▸ hdb.refusal.2 w
  · rw [hp, hp']
    exact hdb.positions
  · rw [hb, hb']
    exact hdb.blobs
  · rw [hh, hh', hdb.hashes, or_right_comm]

theorem inStep_storeEntries (hsearch : c.FindsNothing) (entries : List Entry) (createdAt : Moment) :
    InStep m known (fun _ _ => True) (c.storeEntries entries createdAt)
      (c.storeEntries entries createdAt) := by
  have hcache : InStep m known Eq CrawlStep.cache CrawlStep.cache := fun s t hst =>
    ⟨s.cache, t.cache, s, t, rfl, rfl, hst.2.symm, hst⟩
  have hlinked : ∀ rs, InStep m known Eq (c.resolveAll rs) (c.resolveAll rs) := fun rs =>
    hcache.bind_eq fun _ => inStep_resolveEach hsearch _
  exact ((hlinked _).during _).bind_eq fun _ => hcache.bind_eq fun cache =>
    (inStep_storeStreams _).bind fun _ _ _ => inStep_pure trivial

/-! ### Files and commits -/

theorem inStep_isProcessed (f : ChangedFile) :
    InStep m known Eq (isProcessed f) (isProcessed f) := by
  unfold isProcessed
  cases f.blob with
  | none => exact inStep_pure rfl
  | some b =>
    refine inStep_query fun d d' h => ?_
    obtain ⟨bs, hbs, hbs'⟩ := h.blobs
    exact ⟨bs.contains b, by rw [Database.hasBlob, hbs]; rfl, by rw [Database.hasBlob, hbs']; rfl⟩

theorem inStep_updateBlobs (w : Change) (g : List String → List String) {part : CrawlPart} :
    let change : Database → Except StoreError Database := fun d =>
      (d.writable w d.blobs).map fun bs => { d with blobs := some (g bs) }
    InStep m known Eq (update part change) (update part change) := by
  refine inStep_update fun d d' h => ?_
  obtain ⟨bs, hbs, hbs'⟩ := h.blobs
  obtain ⟨hopen, hopen'⟩ := h.refusal
  exact ⟨{ d with blobs := some (g bs) }, { d' with blobs := some (g bs) },
    Database.map_writable_eq_ok_iff.mpr ⟨bs, hbs, hopen w, rfl⟩,
    Database.map_writable_eq_ok_iff.mpr ⟨bs, hbs', hopen' w, rfl⟩,
    { h with blobs := ⟨_, rfl, rfl⟩ }⟩

theorem inStep_markProcessed (f : ChangedFile) :
    InStep m known Eq (markProcessed f) (markProcessed f) := by
  unfold markProcessed
  cases f.blob with
  | none => exact inStep_pure rfl
  | some b => exact inStep_updateBlobs (.insertBlob b) (·.insert b)

theorem inStep_processText (hsearch : c.FindsNothing) (d : CommitDetail) (f : ChangedFile)
    (html : String) :
    InStep m known (fun n n' => n'.isSome = n.isSome) (c.processText d f html)
      (c.processText d f html) := by
  have hreport : ∀ status detail, InStep m known Eq (reportFile d f status detail)
      (reportFile d f status detail) := fun _ _ => inStep_report _ _
  unfold processText
  cases Snapshot.fragment? c.settings.host html with
  | none =>
    exact (inStep_markProcessed f).bind_eq fun _ => (hreport _ _).bind_eq fun _ => inStep_pure rfl
  | some fragment =>
    simp only
    cases Snapshot.entriesOfPayload fragment with
    | error e =>
      simp only
      split
      · exact (inStep_markProcessed f).bind_eq fun _ =>
          (hreport _ _).bind_eq fun _ => inStep_pure rfl
      · exact (hreport _ _).bind_eq fun _ => inStep_pure rfl
    | ok entries =>
      exact ((inStep_storeEntries hsearch entries d.date).during _).bind fun _ _ _ =>
        (inStep_markProcessed f).bind_eq fun _ => (hreport _ _).bind_eq fun _ => inStep_pure rfl

theorem inStep_processFile (hsteady : c.remote.IsSteady) (hsearch : c.FindsNothing)
    (d : CommitDetail) (f : ChangedFile) :
    InStep m known (fun n n' => n'.isSome = n.isSome) (c.processFile d f) (c.processFile d f) := by
  have hreport : ∀ status detail, InStep m known Eq (reportFile d f status detail)
      (reportFile d f status detail) := fun _ _ => inStep_report _ _
  have hfetch : InStep m known Eq (c.raw f.url) (c.raw f.url) := fun s t hst =>
    ⟨_, _, s.call (.raw f.url), t.call (.raw f.url), rfl, rfl,
      congrFun (hsteady s.calls t.calls).2.2 f.url, hst⟩
  refine (inStep_isProcessed f).bind_eq fun known => ?_
  cases known with
  | true => exact (hreport _ _).bind_eq fun _ => inStep_pure rfl
  | false =>
    refine hfetch.bind_eq fun answer => ?_
    cases answer with
    | error e => exact (hreport _ _).bind_eq fun _ => inStep_pure rfl
    | ok html => exact inStep_processText hsearch d f html

theorem inStep_processFiles (hsteady : c.remote.IsSteady) (hsearch : c.FindsNothing)
    (d : CommitDetail) (fs : List ChangedFile) :
    InStep m known (fun n n' => n'.1 = n.1) (c.processFiles d fs) (c.processFiles d fs) := by
  induction fs with
  | nil => exact inStep_pure rfl
  | cons f fs ih =>
    refine (inStep_processFile hsteady hsearch d f).bind fun n n' h =>
      ih.bind fun rest rest' hrest => inStep_pure ?_
    -- a file counts alike if both crawls have stored its entries
    have hcount : n'.toList.length = n.toList.length := by
      cases n <;> cases n' <;> first | rfl | cases h
    exact congrArg₂ (· + ·) hcount hrest

theorem inStep_commit (hsteady : c.remote.IsSteady) (sha : String) :
    InStep m known Eq (c.commit sha) (c.commit sha) := fun s t hst =>
  ⟨_, _, s.call (.commit sha), t.call (.commit sha), rfl, rfl,
    congrFun (hsteady s.calls t.calls).2.1 sha, hst⟩

theorem inStep_processCommit (hsteady : c.remote.IsSteady) (hsearch : c.FindsNothing) (pass : Pass)
    (sha : String) :
    InStep m known (Option.Rel ProcessedCommit.Matches) (c.processCommit pass sha)
      (c.processCommit pass sha) := by
  refine (inStep_commit hsteady sha).bind_eq fun answer => ?_
  cases answer with
  | error e => exact inStep_pure .none
  | ok d =>
    exact (inStep_processFiles hsteady hsearch d _).bind fun n n' h =>
      (inStep_report _ _).bind_eq fun _ => inStep_pure (.some ⟨rfl, h⟩)

/-! ### Passes -/

theorem inStep_catchUp (hsteady : c.remote.IsSteady) (hsearch : c.FindsNothing)
    (shas : List String) :
    InStep m known (fun x y => x.1.Matches y.1 ∧ y.2 = x.2) (c.catchUp shas) (c.catchUp shas) := by
  induction shas with
  | nil => exact inStep_pure ⟨.zero, rfl⟩
  | cons sha shas ih =>
    refine (inStep_processCommit hsteady hsearch _ sha).bind fun p q h => ?_
    cases h with
    | none => exact inStep_pure ⟨.zero, rfl⟩
    | @some p q h =>
      refine ih.bind fun x y hxy => ?_
      obtain ⟨x, last, complete⟩ := x
      obtain ⟨y, last', complete'⟩ := y
      obtain ⟨hstats, hrest⟩ := hxy
      cases hrest
      exact inStep_pure ⟨h.stats.add hstats, rfl⟩

theorem inStep_walkBack (hsteady : c.remote.IsSteady) (hsearch : c.FindsNothing) (n : Nat)
    (sha : String) :
    InStep m known (fun x y => x.1.Matches y.1 ∧ y.2 = x.2) (c.walkBack n sha)
      (c.walkBack n sha) := by
  induction n generalizing sha with
  | zero => exact inStep_pure ⟨.zero, rfl⟩
  | succ n ih =>
    refine (inStep_processCommit hsteady hsearch _ sha).bind fun p q h => ?_
    cases h with
    | none => exact inStep_pure ⟨.zero, rfl⟩
    | @some p q h =>
      simp only [h.firstParent]
      cases p.firstParent with
      | none => exact inStep_pure ⟨h.stats, rfl⟩
      | some parent =>
        exact (ih parent).bind fun x y hxy => inStep_pure ⟨h.stats.add hxy.1, hxy.2⟩

theorem inStep_checkpoint : InStep m known Eq checkpoint checkpoint := by
  refine inStep_query fun d d' h => ?_
  obtain ⟨p, hp, hp'⟩ := h.positions
  exact ⟨p.checkpoint, by rw [Database.load, hp]; rfl, by rw [Database.load, hp']; rfl⟩

theorem inStep_updatePositions (w : Change) (f : Positions → Positions) {part : CrawlPart} :
    InStep m known Eq (update part (·.updatePositions w f))
      (update part (·.updatePositions w f)) := by
  refine inStep_update fun d d' h => ?_
  obtain ⟨p, hp, hp'⟩ := h.positions
  obtain ⟨hopen, hopen'⟩ := h.refusal
  exact ⟨{ d with positions := some (f p) }, { d' with positions := some (f p) },
    Database.updatePositions_eq_ok_iff.mpr ⟨p, hp, hopen w, rfl⟩,
    Database.updatePositions_eq_ok_iff.mpr ⟨p, hp', hopen' w, rfl⟩,
    { h with positions := ⟨_, rfl, rfl⟩ }⟩

theorem inStep_list (hsteady : c.remote.IsSteady) (perPage page : Nat) :
    InStep m known Eq (c.list perPage page) (c.list perPage page) := fun s t hst =>
  ⟨_, _, s.call (.list perPage page), t.call (.list perPage page), rfl, rfl,
    congrFun (congrFun (hsteady s.calls t.calls).1 perPage) page, hst⟩

theorem inStep_advance (before now : Option String) :
    InStep m known Eq (advance before now) (advance before now) := by
  unfold advance
  cases now with
  | none => exact inStep_pure rfl
  | some sha =>
    simp only
    split
    · exact inStep_pure rfl
    · exact inStep_updatePositions _ _

theorem inStep_incremental (hsteady : c.remote.IsSteady) (hsearch : c.FindsNothing) (limit : Nat) :
    InStep m known PassStats.Matches (c.incremental limit) (c.incremental limit) := by
  unfold incremental
  split
  · exact inStep_pure .zero
  refine inStep_checkpoint.bind_eq fun cp => ?_
  refine (inStep_list hsteady _ _).bind_eq fun answer => ?_
  cases answer with
  | error e => exact inStep_pure .zero
  | ok page =>
    cases page with
    | nil => exact inStep_pure .zero
    | cons head page =>
      refine (inStep_catchUp hsteady hsearch _).bind fun x y hxy => ?_
      obtain ⟨x, last, complete⟩ := x
      obtain ⟨y, last', complete'⟩ := y
      obtain ⟨hstats, hrest⟩ := hxy
      cases hrest
      exact (inStep_advance _ _).bind_eq fun _ => inStep_pure hstats

theorem inStep_backfillFrom (hsteady : c.remote.IsSteady) (hsearch : c.FindsNothing) (limit : Nat)
    (start : String) :
    InStep m known PassStats.Matches (c.backfillFrom limit start) (c.backfillFrom limit start) := by
  refine (inStep_walkBack hsteady hsearch limit start).bind fun x y hxy => ?_
  obtain ⟨x, next⟩ := x
  obtain ⟨y, next'⟩ := y
  obtain ⟨hstats, hnext⟩ := hxy
  cases hnext
  exact (inStep_updatePositions _ _).bind_eq fun _ => inStep_pure hstats

theorem inStep_anchor (hsteady : c.remote.IsSteady) (latest : Option String) :
    InStep m known Eq (c.anchor latest) (c.anchor latest) := by
  cases latest with
  | some sha => exact inStep_pure rfl
  | none =>
    refine (inStep_list hsteady 1 1).bind_eq fun answer => ?_
    cases answer <;> exact inStep_pure rfl

theorem inStep_backfillStart (hsteady : c.remote.IsSteady) (latest : Option String) :
    InStep m known Eq (c.backfillStart latest) (c.backfillStart latest) := by
  refine (inStep_anchor hsteady latest).bind_eq fun anchor => ?_
  cases anchor with
  | none => exact inStep_pure rfl
  | some sha =>
    refine (inStep_commit hsteady sha).bind_eq fun answer => ?_
    cases answer with
    | error e => exact inStep_pure rfl
    | ok d =>
      cases hparent : d.firstParent? with
      | some parent =>
        simp only [hparent]
        exact inStep_pure rfl
      | none =>
        simp only [hparent]
        exact (inStep_updatePositions _ _).bind_eq fun _ => inStep_pure rfl

theorem inStep_backfill (hsteady : c.remote.IsSteady) (hsearch : c.FindsNothing) (limit : Nat) :
    InStep m known PassStats.Matches (c.backfill limit) (c.backfill limit) := by
  have hfrom : ∀ start, InStep m known PassStats.Matches (c.backfillFrom limit start)
      (c.backfillFrom limit start) := inStep_backfillFrom hsteady hsearch limit
  unfold backfill
  split
  · exact inStep_pure .zero
  refine inStep_checkpoint.bind_eq fun cp => ?_
  cases hnext : cp.next with
  | done => simpa only [hnext] using inStep_pure .zero
  | «at» sha => simpa only [hnext] using hfrom sha
  | unset =>
    simp only
    refine (inStep_backfillStart hsteady cp.latest).bind_eq fun start => ?_
    cases start with
    | none => exact inStep_pure .zero
    | some sha => exact hfrom sha

/-! ### Full ingestions -/

theorem inStep_run (hsteady : c.remote.IsSteady) (hsearch : c.FindsNothing) (limits : PassLimits) :
    InStep m known RunStats.Matches (c.run limits) (c.run limits) :=
  .withFreshCache <| ((inStep_incremental hsteady hsearch _).during _).bind fun _ _ hx =>
    ((inStep_backfill hsteady hsearch _).during _).bind fun _ _ hy => inStep_pure ⟨hx, hy⟩

theorem inStep_iterate (hsteady : c.remote.IsSteady) (hsearch : c.FindsNothing)
    (limits : PassLimits) (n : Nat) :
    InStep m known IterationOutcome.Matches (c.iterate limits n) (c.iterate limits n) := by
  induction n with
  | zero => exact inStep_pure ⟨rfl, .zero⟩
  | succ n ih =>
    have hstate : InStep m known Eq (CrawlStep.state.during .walker)
        (CrawlStep.state.during .walker) :=
      InStep.during _ (inStep_checkpoint.bind_eq fun _ => inStep_pure rfl)
    refine (inStep_run hsteady hsearch limits).bind fun x y hxy => hstate.bind_eq fun state => ?_
    split
    · exact inStep_pure ⟨rfl, hxy⟩
    -- an idle run is idle in both crawls, so they stop after the same number of runs
    rw [hxy.isZero_eq]
    split
    · exact inStep_pure ⟨rfl, hxy⟩
    · refine ih.bind fun outcome outcome' h => inStep_pure ?_
      obtain ⟨heq, htotals⟩ := h
      rw [heq]
      exact ⟨rfl, hxy.add htotals⟩

theorem inStep_reset : InStep m known Eq CrawlStep.reset CrawlStep.reset := by
  exact (inStep_updatePositions _ _).bind_eq fun _ =>
    (inStep_updateBlobs .clearBlobs fun _ => []).bind fun _ _ _ => inStep_report _ _

theorem inStep_status : InStep m known Eq CrawlStep.status CrawlStep.status := by
  refine inStep_checkpoint.bind_eq fun cp =>
    (inStep_query fun d d' h => ?_).bind_eq fun n => inStep_pure rfl
  obtain ⟨bs, hbs, hbs'⟩ := h.blobs
  exact ⟨bs.length, by rw [Database.blobCount, hbs]; rfl, by rw [Database.blobCount, hbs']; rfl⟩

/-- Full ingestions go the same way. -/
theorem inStep_fullIngestion (hsteady : c.remote.IsSteady) (hsearch : c.FindsNothing)
    (o : FullOptions) :
    InStep m known FullReport.Matches (c.fullIngestion o) (c.fullIngestion o) := by
  have hruns : InStep m known FullReport.Matches (c.fullIngestion { o with reset := false })
      (c.fullIngestion { o with reset := false }) := by
    refine (inStep_iterate hsteady hsearch _ _).bind fun x y hxy =>
      inStep_status.bind_eq fun status => ?_
    obtain ⟨heq, htotals⟩ := hxy
    refine inStep_pure ⟨?_, htotals⟩
    rw [heq]
  obtain ⟨maxIterations, limits, reset⟩ := o
  cases reset with
  | false => exact hruns
  | true => exact inStep_reset.bind_eq fun _ => hruns

end Crawler

/-! ### Rows that are added -/

/-- Rows are added to the table of streams; if there are none, streams and files are as before. -/
def Crawl.OnlyAdds (s t : Crawl) : Prop := ∃ new, s.Adds new t ∧ (new = [] → SameStreams s t)

theorem Crawl.SameStreams.onlyAdds {s t : Crawl} (h : SameStreams s t) : OnlyAdds s t :=
  ⟨[], h.adds, fun _ => h⟩

instance : IsPreorder Crawl OnlyAdds where
  refl s := (refl_of SameStreams s).onlyAdds
  trans s t u h h' := by
    obtain ⟨new, hadds, hsame⟩ := h
    obtain ⟨new', hadds', hsame'⟩ := h'
    refine ⟨new ++ new', hadds.append hadds', fun hnil => ?_⟩
    obtain ⟨hnew, hnew'⟩ := List.append_eq_nil_iff.mp hnil
    exact trans_of SameStreams (hsame hnew) (hsame' hnew')

/-- If no hash is new, no row is new either. -/
theorem Crawl.OnlyAdds.sameStreams {s t : Crawl} (h : OnlyAdds s t)
    (hhashes : ∀ x ∈ Stream.hashes t.db.rows, x ∈ Stream.hashes s.db.rows) : SameStreams s t := by
  obtain ⟨new, hadds, hsame⟩ := h
  refine hsame (List.eq_nil_iff_forall_not_mem.mpr fun r hr => hadds.fresh r hr (hhashes _ ?_))
  exact hadds.eq ▸ Stream.mem_hashes_of_mem (List.mem_append_right _ hr)

namespace Crawler

variable {c : Crawler} {s t : Crawl}

theorem onlyAdds_storeEntries (entries : List Entry) (createdAt : Moment) :
    Within OnlyAdds (c.storeEntries entries createdAt) := by
  intro s
  cases h : c.storeEntries entries createdAt s with
  | mk r t =>
    cases r with
    | error e => exact (sameStreams_of_storeEntries_error h).onlyAdds
    | ok summary =>
      obtain ⟨new, hadds, -, hsame⟩ := storeEntries_adds h
      exact ⟨new, hadds, hsame⟩

/-- A full ingestion that adds no row changes no stream and no file. -/
theorem onlyAdds_fullIngestion (o : FullOptions) : Within OnlyAdds (c.fullIngestion o) := by
  have still : ∀ {s t : Crawl}, t.db.streams = s.db.streams → t.db.files = s.db.files →
      OnlyAdds s t := fun hstreams hfiles => SameStreams.onlyAdds ⟨hstreams, hfiles⟩
  have hfile : ∀ d f, Within OnlyAdds (c.processFile d f) := fun d f =>
    within_processFile_of (fun _ _ => still rfl rfl) (fun _ _ _ => still rfl rfl)
      (fun s => (sameStreams_markProcessed f s).onlyAdds) fun _ _ _ => onlyAdds_storeEntries _ _
  have hcommit : ∀ pass sha, Within OnlyAdds (c.processCommit pass sha) := fun pass sha =>
    within_processCommit (fun _ _ d _ f _ => hfile d f) (fun _ _ => still rfl rfl)
      (fun _ _ _ _ _ => still rfl rfl) pass sha
  exact within_fullIngestion (within_reset (fun _ _ => still rfl rfl) (fun _ _ => still rfl rfl)
      fun _ _ => still rfl rfl)
    (fun limits => within_run (fun _ _ => still rfl rfl)
      (within_incremental (fun _ _ _ => still rfl rfl) hcommit (fun _ _ => still rfl rfl) _)
      (within_backfill (fun _ _ _ => still rfl rfl) (fun _ _ => still rfl rfl) hcommit
        (fun _ _ => still rfl rfl) _)) o

/-- A full ingestion that leaves the streams as they are tells of no new ones. -/
theorem streams_of_sameStreams {o : FullOptions} {report : FullReport}
    (h : c.fullIngestion o s = (.ok report, t)) (hsame : SameStreams s t) :
    report.totals.total.streams = 0 := by
  obtain ⟨u, rs, -, hu, -, -, -, -, new, -, hadds, -, -, hcount⟩ := tallies_fullIngestion h
  have hrows : t.db.rows = u.db.rows := hsame.rows_eq.trans hu.rows_eq.symm
  have hnone : new = [] := List.append_right_eq_self.mp (hadds.eq.symm.trans hrows)
  rw [hcount, hnone]
  rfl

/-- A full ingestion remembers in the end what it has remembered before. -/
theorem cache_fullIngestion (o : FullOptions) (s : Crawl) :
    (c.fullIngestion o s).2.cache = s.cache := by
  have hkeeps : Within (fun u v => u.cache = s.cache → v.cache = s.cache) (c.fullIngestion o) :=
    within_fullIngestion (within_reset (fun _ _ => id) (fun _ _ => id) fun _ _ => id)
      (fun _ _ => id) o
  exact hkeeps s rfl

end Crawler

/-! ### The second ingestion -/

/-- What an ingestion reports that does the same again: no stream is new. -/
def FullReport.repeated (r : FullReport) : FullReport :=
  { r with totals := ⟨{ r.totals.incremental with streams := 0 },
    { r.totals.backfill with streams := 0 }⟩ }

theorem FullReport.Matches.eq_repeated {x y : FullReport} (h : x.Matches y)
    (hstreams : y.totals.total.streams = 0) : y = x.repeated := by
  obtain ⟨hy, hincremental, hbackfill⟩ := h
  obtain ⟨hfirst, hsecond⟩ := Nat.add_eq_zero_iff.mp hstreams
  have same : ∀ {p q : PassStats}, p.Matches q → q.streams = 0 → q = { p with streams := 0 } := by
    rintro p ⟨commits, files, streams⟩ hpq rfl
    rw [← hpq.commits, ← hpq.files]
  rw [hy, FullReport.repeated, ← same hincremental hfirst, ← same hbackfill hsecond]

namespace Crawler

variable {c : Crawler} {m : MediaTable} {s : Crawl}

/-- Once everything has been ingested from nothing, a reset and a second ingestion leave everything
as it is, and report the same without any new stream. -/
theorem reingestion_idempotent (hsteady : c.remote.IsSteady) (hsearch : c.FindsNothing)
    (o : FullOptions) (hopen : s.db.RefusesNothing) (hpositions : s.db.positions = some {})
    (hblobs : s.db.blobs = some []) (hmedia : s.db.media = some m)
    (htables : s.db.HoldsStreams) :
    ∃ report u v w, c.fullIngestion o s = (.ok report, u) ∧ CrawlStep.reset u = (.ok (), v) ∧
      c.fullIngestion o v = (.ok report.repeated, w) ∧ SameStreams u w ∧
      w.db.media = u.db.media ∧ w.db.positions = u.db.positions ∧ w.db.blobs = u.db.blobs := by
  -- beside itself, the first ingestion ends with a value and leaves all tables in place
  obtain ⟨report, _, u, u', hfirst, hfirst', -, hu, -⟩ := inStep_fullIngestion hsteady hsearch o s s
    ⟨⟨⟨hopen, hopen⟩, ⟨_, hpositions, hpositions⟩, ⟨_, hblobs, hblobs⟩, ⟨hmedia, hmedia⟩,
      ⟨htables, htables⟩, fun x => (or_self_iff).symm⟩, rfl⟩
  obtain rfl : u = u' := (Prod.mk.inj (hfirst.symm.trans hfirst')).2
  obtain ⟨p, hp, -⟩ := hu.positions
  obtain ⟨bs, hbs, -⟩ := hu.blobs
  have hgrown : s.db.rows <+: u.db.rows := by
    obtain ⟨new, hadds, -⟩ := (onlyAdds_fullIngestion o).of_run hfirst
    exact hadds.eq ▸ List.prefix_append _ _
  have hcache : u.cache = s.cache := by
    have hcache := c.cache_fullIngestion o s
    rwa [hfirst] at hcache
  -- after the reset the second crawl stands where the first one stood, and knows all its hashes
  have hretraces : Retraces m (Stream.hashes u.db.rows) s u.forgotten :=
    ⟨⟨⟨hopen, hu.refusal.1⟩, ⟨_, hpositions, rfl⟩, ⟨_, hblobs, rfl⟩, ⟨hmedia, hu.media.1⟩,
      ⟨htables, hu.tables.1⟩,
      fun x => ⟨.inr, fun h => h.elim (fun hx => (hgrown.map _).subset hx) id⟩⟩, hcache⟩
  obtain ⟨report₁, report', u₁, w, hfirst₁, hsecond, hmatches, hw, -⟩ :=
    inStep_fullIngestion hsteady hsearch o s _ hretraces
  obtain ⟨hr, rfl⟩ := Prod.mk.inj (hfirst.symm.trans hfirst₁)
  obtain rfl := Except.ok.inj hr
  -- all hashes that it ends with are those that it has begun with, so no row has been added
  have hkept : SameStreams u.forgotten w :=
    ((onlyAdds_fullIngestion o).of_run hsecond).sameStreams fun x hx =>
      ((hw.hashes x).mp hx).elim id id
  have hreport := hmatches.eq_repeated (streams_of_sameStreams hsecond hkept)
  obtain ⟨q, hq, hq'⟩ := hw.positions
  obtain ⟨bs', hbs₁, hbs'⟩ := hw.blobs
  exact ⟨report, u, u.forgotten, w, hfirst, reset_run hu.refusal.1 hp hbs, hreport ▸ hsecond,
    ⟨hkept.streams, hkept.files⟩, hw.media.2.trans hw.media.1.symm, hq'.trans hq.symm,
    hbs'.trans hbs₁.symm⟩

/-- The entry in both lists is stored by the first ingestion, and not again by the second one. -/
theorem reingestion_idempotent_listed :
    listed.remote.IsSteady ∧ listed.FindsNothing ∧ Crawl.titled.db.HoldsStreams ∧
      ∃ u v w, listed.fullIngestion ⟨3, {}, true⟩ .titled =
          (.ok ⟨.backfillComplete, 1, 3, {}, ⟨⟨2, 2, 1⟩, ⟨1, 0, 0⟩⟩,
            ⟨.backfillDone, some "b", some BackfillCursor.doneMark, 2⟩⟩, u) ∧
        CrawlStep.reset u = (.ok (), v) ∧
        listed.fullIngestion ⟨3, {}, true⟩ v =
          (.ok ⟨.backfillComplete, 1, 3, {}, ⟨⟨2, 2, 0⟩, ⟨1, 0, 0⟩⟩,
            ⟨.backfillDone, some "b", some BackfillCursor.doneMark, 2⟩⟩, w) ∧
        SameStreams u w ∧ w.db.media = u.db.media ∧ w.db.positions = u.db.positions ∧
        w.db.blobs = u.db.blobs := by
  have hsteady : listed.remote.IsSteady := Archive.listed.remote_isSteady
  have hsearch : listed.FindsNothing := fun _ _ _ h => by cases h; rfl
  have htables : Crawl.titled.db.HoldsStreams := ⟨⟨_, rfl⟩, _, rfl⟩
  have hreport : (listed.fullIngestion ⟨3, {}, true⟩ .titled).1 =
      .ok ⟨.backfillComplete, 1, 3, {}, ⟨⟨2, 2, 1⟩, ⟨1, 0, 0⟩⟩,
        ⟨.backfillDone, some "b", some BackfillCursor.doneMark, 2⟩⟩ := by decide +kernel
  obtain ⟨u₁, hfirst₁⟩ := exists_run hreport
  obtain ⟨report, u, v, w, hfirst, hsecond⟩ :=
    reingestion_idempotent hsteady hsearch ⟨3, {}, true⟩ (s := .titled) (fun _ => rfl) rfl rfl rfl
      htables
  obtain ⟨hr, -⟩ := Prod.mk.inj (hfirst.symm.trans hfirst₁)
  obtain rfl := Except.ok.inj hr
  exact ⟨hsteady, hsearch, htables, u, v, w, hfirst, hsecond⟩

end Crawler

end Harvest
