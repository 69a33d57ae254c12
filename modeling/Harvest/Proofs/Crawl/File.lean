import Harvest.Proofs.Crawl.Within

/-!
# Dealing with a file

Every file that is dealt with leaves exactly one report, and the report tells what has become of
its blob: unless the report is open, the blob needs no further work from then on. An error of the
database leaves no report.

## Main definitions

* `SnapshotStatus.isOpen` — a snapshot has to be dealt with another time
* `CrawlSettings.Undecodable` — a text whose list cannot be unpacked
* `Database.TakesBlobs` — any blob can be noted
* `Crawl.Settled` — a blob needs no further work
* `Crawl.Extends` — a state comes later in a pass
* `Crawler.FileDone` — a file has been dealt with but for its mark
* `Crawler.FileRun`, `Crawler.FileFault` — the ways in which dealing with a file ends with a value,
  and with an error

## Main results

* `Crawler.fileRun_of_processFile`, `Crawler.fileFault_of_processFile` — no other ways exist
* `Crawler.FileRun.report` — the report on a file and the blobs that need no further work
* `Crawler.processFile_error` — an error changes neither the log nor the settled blobs
-/

namespace Harvest

open CrawlStep

/-- Whether a snapshot has to be dealt with another time. -/
def SnapshotStatus.isOpen : SnapshotStatus → Bool
  | fetchFailed | decodeFailed => true
  | _ => false

/-- There is a list in the text that cannot be unpacked for now. -/
def CrawlSettings.Undecodable (σ : CrawlSettings) (html : String) : Prop :=
  ∃ fragment e, Snapshot.fragment? σ.host html = some fragment ∧
    Snapshot.entriesOfPayload fragment = .error e ∧ e.isPermanent = false

/-- The set of blobs is there, and no blob is refused. -/
structure Database.TakesBlobs (d : Database) : Prop where
  blobs : ∃ bs, d.blobs = some bs
  refusal : ∀ b, d.refusal (.insertBlob b) = none

/-- So every blob can be noted. -/
theorem Database.TakesBlobs.insertBlob {d : Database} (h : d.TakesBlobs) (b : String) :
    ∃ d', d.insertBlob b = .ok d' := by
  obtain ⟨bs, hbs⟩ := h.blobs
  exact ⟨_, insertBlob_eq_ok_iff.mpr ⟨bs, hbs, h.refusal b, rfl⟩⟩

namespace Crawl

/-- The blob needs no further work. -/
def Settled (s : Crawl) (b : String) : Prop := s.db.hasBlob b = .ok true

variable {s t : Crawl} {b : String}

theorem settled_iff : s.Settled b ↔ ∃ bs, s.db.blobs = some bs ∧ b ∈ bs := by
  unfold Settled Database.hasBlob
  cases s.db.blobs with
  | none => simp [Database.table, Except.map]
  | some bs => simp [Database.table, Except.map]

theorem SameProgress.settled_iff (h : SameProgress s t) (b : String) : t.Settled b ↔ s.Settled b := by
  simp only [Crawl.settled_iff, h.blobs]

theorem SameProgress.takesBlobs (h : SameProgress s t) (hs : s.db.TakesBlobs) : t.db.TakesBlobs :=
  ⟨h.blobs ▸ hs.blobs, h.refusal ▸ hs.refusal⟩

theorem settled_log (e : Event) : (s.log e).Settled b ↔ s.Settled b := Iff.rfl

theorem settled_call (k : RemoteCall) : (s.call k).Settled b ↔ s.Settled b := Iff.rfl

/-- The second state comes later in a pass: the positions are the same, the same changes are
refused, and nothing that was asked, reported or settled is lost. -/
structure Extends (s t : Crawl) : Prop where
  positions : t.db.positions = s.db.positions
  refusal : t.db.refusal = s.db.refusal
  settled : ∀ b, s.Settled b → t.Settled b
  calls : s.calls <+: t.calls
  events : s.events <+: t.events

instance : IsPreorder Crawl Extends where
  refl _ := ⟨rfl, rfl, fun _ => id, List.prefix_rfl, List.prefix_rfl⟩
  trans _ _ _ h h' :=
    ⟨h'.positions.trans h.positions, h'.refusal.trans h.refusal,
      fun b hb => h'.settled b (h.settled b hb), h.calls.trans h'.calls, h.events.trans h'.events⟩

theorem extends_log (s : Crawl) (e : Event) : Extends s (s.log e) :=
  ⟨rfl, rfl, fun _ => id, List.prefix_rfl, List.prefix_append _ _⟩

theorem extends_call (s : Crawl) (k : RemoteCall) : Extends s (s.call k) :=
  ⟨rfl, rfl, fun _ => id, List.prefix_append _ _, List.prefix_rfl⟩

end Crawl

namespace Crawler

variable {c : Crawler} {d : CommitDetail} {f : ChangedFile} {s t : Crawl}

/-! ### Files -/

theorem isProcessed_ok {known : Bool} (h : isProcessed f s = (.ok known, t)) :
    t = s ∧ (known = true → ∃ b, f.blob = some b ∧ s.Settled b) := by
  unfold isProcessed at h
  cases hb : f.blob with
  | none =>
    rw [hb] at h
    obtain ⟨rfl, rfl⟩ := pure_ok h
    simp
  | some b =>
    simp only [hb, query] at h
    cases hq : s.db.hasBlob b with
    | error e => rw [hq] at h; cases h
    | ok k =>
      rw [hq] at h
      cases h
      refine ⟨rfl, ?_⟩
      rintro rfl
      exact ⟨b, rfl, hq⟩

theorem isProcessed_error {e : CrawlError} (h : isProcessed f s = (.error e, t)) : t = s := by
  unfold isProcessed at h
  cases hb : f.blob with
  | none => rw [hb] at h; cases h
  | some b =>
    simp only [hb, query] at h
    cases hq : s.db.hasBlob b with
    | error e => rw [hq] at h; cases h; rfl
    | ok k => rw [hq] at h; cases h

/-- Noting that a file needs no further work changes nothing else. -/
theorem markProcessed_ok (h : markProcessed f s = (.ok (), t)) :
    t.db.positions = s.db.positions ∧ t.calls = s.calls ∧ t.events = s.events ∧
      ∀ b, t.Settled b ↔ s.Settled b ∨ f.blob = some b := by
  unfold markProcessed at h
  cases hb : f.blob with
  | none =>
    rw [hb] at h
    obtain ⟨-, rfl⟩ := pure_ok h
    simp
  | some b =>
    simp only [hb] at h
    obtain ⟨d, hd, rfl⟩ := update_ok h
    obtain ⟨bs, hbs, -, rfl⟩ := Database.insertBlob_eq_ok_iff.mp hd
    refine ⟨rfl, rfl, rfl, fun b' => ?_⟩
    simp [Crawl.settled_iff, hbs, or_comm, eq_comm]

theorem markProcessed_error {e : CrawlError} (h : markProcessed f s = (.error e, t)) : t = s := by
  unfold markProcessed at h
  cases hb : f.blob with
  | none => rw [hb] at h; cases h
  | some b =>
    simp only [hb] at h
    exact (update_error h).1

/-- As long as the set of blobs is there and takes blobs, asking it and adding to it succeed. -/
theorem isProcessed_ne_error {bs : List String} {e : CrawlError} (hblobs : s.db.blobs = some bs) :
    isProcessed f s ≠ (.error e, t) := by
  unfold isProcessed
  cases f.blob with
  | none => exact fun h => by cases h
  | some b =>
    simp only [query, Database.hasBlob, hblobs]
    exact fun h => by cases h

theorem markProcessed_ne_error {e : CrawlError} (hblobs : s.db.TakesBlobs) :
    markProcessed f s ≠ (.error e, t) := by
  unfold markProcessed
  cases f.blob with
  | none => exact fun h => by cases h
  | some b =>
    intro h
    obtain ⟨-, e', herror, -⟩ := update_error h
    obtain ⟨d, hd⟩ := hblobs.insertBlob b
    cases hd.symm.trans herror

/-- The report on a file. -/
def report (d : CommitDetail) (f : ChangedFile) (status : SnapshotStatus)
    (detail : Option String) : Event :=
  .snapshot d.sha f.path f.blob status detail

/-- The ways in which dealing with a file ends with a value. -/
inductive FileRun (c : Crawler) (d : CommitDetail) (f : ChangedFile) (s : Crawl) :
    Option Nat → Crawl → Prop
  /-- The blob needs no further work. -/
  | known {b : String} (hblob : f.blob = some b) (hb : s.Settled b) :
      FileRun c d f s none (s.log (report d f .alreadyProcessed none))
  /-- The file cannot be fetched. -/
  | unfetched {e : FetchError} (hnew : isProcessed f s = (.ok false, s))
      (hraw : c.remote.raw s.calls f.url = .error e) :
      FileRun c d f s none
        ((s.call (.raw f.url)).log (report d f .fetchFailed (some e.message)))
  /-- There is no list in the file. -/
  | empty {html : String} {t : Crawl} (hnew : isProcessed f s = (.ok false, s))
      (hraw : c.remote.raw s.calls f.url = .ok html)
      (hfragment : Snapshot.fragment? c.settings.host html = none)
      (hmark : markProcessed f (s.call (.raw f.url)) = (.ok (), t)) :
      FileRun c d f s none (t.log (report d f .noFragment none))
  /-- The list is damaged for good. -/
  | malformed {html : String} {fragment : String} {e : PayloadError} {t : Crawl}
      (hnew : isProcessed f s = (.ok false, s)) (hraw : c.remote.raw s.calls f.url = .ok html)
      (hfragment : Snapshot.fragment? c.settings.host html = some fragment)
      (hentries : Snapshot.entriesOfPayload fragment = .error e) (hlasting : e.isPermanent = true)
      (hmark : markProcessed f (s.call (.raw f.url)) = (.ok (), t)) :
      FileRun c d f s none (t.log (report d f .malformed (some e.message)))
  /-- The list cannot be unpacked. -/
  | undecoded {html : String} {fragment : String} {e : PayloadError}
      (hnew : isProcessed f s = (.ok false, s)) (hraw : c.remote.raw s.calls f.url = .ok html)
      (hfragment : Snapshot.fragment? c.settings.host html = some fragment)
      (hentries : Snapshot.entriesOfPayload fragment = .error e) (hlasting : e.isPermanent = false) :
      FileRun c d f s none
        ((s.call (.raw f.url)).log (report d f .decodeFailed (some e.message)))
  /-- The entries of the list are stored. -/
  | stored {html : String} {fragment : String} {entries : List Entry} {summary : StoreSummary}
      {t u : Crawl} (hnew : isProcessed f s = (.ok false, s))
      (hraw : c.remote.raw s.calls f.url = .ok html)
      (hfragment : Snapshot.fragment? c.settings.host html = some fragment)
      (hentries : Snapshot.entriesOfPayload fragment = .ok entries)
      (hstore : (c.storeEntries entries d.date).during .pipeline (s.call (.raw f.url)) =
        (.ok summary, t))
      (hmark : markProcessed f t = (.ok (), u)) :
      FileRun c d f s (some summary.stored) (u.log (report d f .stored none))

theorem raw_run (c : Crawler) (url : String) (s : Crawl) :
    c.raw url s = (.ok (c.remote.raw s.calls url), s.call (.raw url)) := rfl

/-- The text of a file that is fetched decides among the last four ways. -/
theorem fileRun_of_processText {html : String} {n : Option Nat}
    (hnew : isProcessed f s = (.ok false, s)) (hraw : c.remote.raw s.calls f.url = .ok html)
    (h : c.processText d f html (s.call (.raw f.url)) = (.ok n, t)) : FileRun c d f s n t := by
  unfold processText at h
  cases hfragment : Snapshot.fragment? c.settings.host html with
  | none =>
    rw [hfragment] at h
    obtain ⟨_, u, hmark, h⟩ := bind_ok h
    cases h
    exact .empty hnew hraw hfragment hmark
  | some fragment =>
    simp only [hfragment] at h
    cases hentries : Snapshot.entriesOfPayload fragment with
    | error e =>
      simp only [hentries] at h
      cases hlasting : e.isPermanent with
      | true =>
        rw [hlasting, if_pos rfl] at h
        obtain ⟨_, u, hmark, h⟩ := bind_ok h
        cases h
        exact .malformed hnew hraw hfragment hentries hlasting hmark
      | false =>
        rw [hlasting, if_neg Bool.false_ne_true] at h
        cases h
        exact .undecoded hnew hraw hfragment hentries hlasting
    | ok entries =>
      simp only [hentries] at h
      obtain ⟨summary, u, hstore, h⟩ := bind_ok h
      obtain ⟨_, v, hmark, h⟩ := bind_ok h
      cases h
      exact .stored hnew hraw hfragment hentries hstore hmark

/-- Dealing with a file ends with a value in one of six ways. -/
theorem fileRun_of_processFile {n : Option Nat} (h : c.processFile d f s = (.ok n, t)) :
    FileRun c d f s n t := by
  unfold processFile at h
  obtain ⟨known, u, hknown, h⟩ := bind_ok h
  obtain ⟨rfl, hsettled⟩ := isProcessed_ok hknown
  cases known with
  | true =>
    obtain ⟨b, hblob, hb⟩ := hsettled rfl
    cases h
    exact .known hblob hb
  | false =>
    rw [if_neg Bool.false_ne_true] at h
    obtain ⟨answer, v, hv, h⟩ := bind_ok h
    rw [raw_run] at hv
    cases hv
    cases hraw : c.remote.raw u.calls f.url with
    | error e =>
      rw [hraw] at h
      cases h
      exact .unfetched hknown hraw
    | ok html =>
      rw [hraw] at h
      exact fileRun_of_processText hknown hraw h

/-- A file leaves one report and nothing else in the log, and its blob needs no further work
afterwards unless the report is open. -/
theorem FileRun.report {n : Option Nat} (h : FileRun c d f s n t) :
    t.db.positions = s.db.positions ∧ s.calls <+: t.calls ∧ ∃ status detail,
      t.events = s.events ++ [Crawler.report d f status detail] ∧
        (∀ b, t.Settled b ↔ s.Settled b ∨ f.blob = some b ∧ status.isOpen = false) ∧
        (status = .decodeFailed →
          ∃ html, c.remote.raw s.calls f.url = .ok html ∧ c.settings.Undecodable html) := by
  cases h with
  | known hblob hb =>
    refine ⟨rfl, List.prefix_rfl, _, _, rfl, fun b => ⟨.inl, ?_⟩, SnapshotStatus.noConfusion⟩
    rintro (hs | ⟨hf, -⟩)
    · exact hs
    · rw [hblob] at hf
      cases hf
      exact hb
  | unfetched =>
    -- the report is open, so no blob is added
    refine ⟨rfl, List.prefix_append _ _, _, _, rfl, fun b => ?_, SnapshotStatus.noConfusion⟩
    simp [SnapshotStatus.isOpen, Crawl.settled_log, Crawl.settled_call]
  | undecoded _ hraw hfragment hentries hlasting =>
    refine ⟨rfl, List.prefix_append _ _, _, _, rfl, fun b => ?_,
      fun _ => ⟨_, hraw, _, _, hfragment, hentries, hlasting⟩⟩
    simp [SnapshotStatus.isOpen, Crawl.settled_log, Crawl.settled_call]
  | empty _ _ _ hmark | malformed _ _ _ _ _ hmark =>
    obtain ⟨hp, hc, he, hs⟩ := markProcessed_ok hmark
    refine ⟨hp, ?_, _, _, by rw [Crawl.events_log, he]; rfl, fun b => ?_, SnapshotStatus.noConfusion⟩
    · rw [Crawl.calls_log, hc]
      exact List.prefix_append _ _
    · simpa [SnapshotStatus.isOpen, Crawl.settled_log, Crawl.settled_call] using hs b
  | stored _ _ _ _ hstore hmark =>
    -- storing the entries writes neither positions nor blobs, and reports nothing
    obtain ⟨hp, hc, he, hs⟩ := markProcessed_ok hmark
    have same := ((c.within_storeEntries _ _).during _).of_run hstore
    refine ⟨hp.trans same.positions, ?_, .stored, none, ?_, fun b => ?_, SnapshotStatus.noConfusion⟩
    · rw [Crawl.calls_log, hc, same.calls]
      exact List.prefix_append _ _
    · rw [Crawl.events_log, he, same.events]
      rfl
    · rw [Crawl.settled_log, hs b, same.settled_iff b, Crawl.settled_call]
      simp [SnapshotStatus.isOpen]

/-- A file has been dealt with, and only its blob remains to be noted. -/
inductive FileDone (c : Crawler) (d : CommitDetail) (f : ChangedFile) (s : Crawl) : Crawl → Prop
  /-- There is no list in the file. -/
  | empty {html : String} (hraw : c.remote.raw s.calls f.url = .ok html)
      (hfragment : Snapshot.fragment? c.settings.host html = none) :
      FileDone c d f s (s.call (.raw f.url))
  /-- The list is damaged for good. -/
  | malformed {html fragment : String} {e : PayloadError}
      (hraw : c.remote.raw s.calls f.url = .ok html)
      (hfragment : Snapshot.fragment? c.settings.host html = some fragment)
      (hentries : Snapshot.entriesOfPayload fragment = .error e) (hlasting : e.isPermanent = true) :
      FileDone c d f s (s.call (.raw f.url))
  /-- The entries of the list are stored. -/
  | stored {html fragment : String} {entries : List Entry} {summary : StoreSummary} {t : Crawl}
      (hraw : c.remote.raw s.calls f.url = .ok html)
      (hfragment : Snapshot.fragment? c.settings.host html = some fragment)
      (hentries : Snapshot.entriesOfPayload fragment = .ok entries)
      (hstore : (c.storeEntries entries d.date).during .pipeline (s.call (.raw f.url)) =
        (.ok summary, t)) : FileDone c d f s t

theorem FileDone.same (h : FileDone c d f s t) : Crawl.SameProgress (s.call (.raw f.url)) t := by
  cases h with
  | empty | malformed => exact refl_of Crawl.SameProgress _
  | stored _ _ _ hstore => exact ((c.within_storeEntries _ _).during _).of_run hstore

/-- The ways in which dealing with a file ends with an error. -/
inductive FileFault (c : Crawler) (d : CommitDetail) (f : ChangedFile) (s : Crawl) (e : CrawlError) :
    Crawl → Prop
  /-- It cannot be found out whether the file needs further work. -/
  | unasked (hknown : isProcessed f s = (.error e, s)) : FileFault c d f s e s
  /-- The blob cannot be noted. -/
  | unmarked {t : Crawl} (hnew : isProcessed f s = (.ok false, s)) (hdone : FileDone c d f s t)
      (hmark : markProcessed f t = (.error e, t)) : FileFault c d f s e t
  /-- The entries of the list cannot be stored. -/
  | unstored {html : String} {fragment : String} {entries : List Entry} {t : Crawl}
      (hnew : isProcessed f s = (.ok false, s)) (hraw : c.remote.raw s.calls f.url = .ok html)
      (hfragment : Snapshot.fragment? c.settings.host html = some fragment)
      (hentries : Snapshot.entriesOfPayload fragment = .ok entries)
      (hstore : (c.storeEntries entries d.date).during .pipeline (s.call (.raw f.url)) =
        (.error e, t)) : FileFault c d f s e t

/-- Once a file is fetched, an error is one of the last two. -/
theorem fileFault_of_processText {html : String} {e : CrawlError}
    (hnew : isProcessed f s = (.ok false, s)) (hraw : c.remote.raw s.calls f.url = .ok html)
    (h : c.processText d f html (s.call (.raw f.url)) = (.error e, t)) : FileFault c d f s e t := by
  have marked : ∀ {u : Crawl}, FileDone c d f s u →
      markProcessed f u = (.error e, t) → FileFault c d f s e t := by
    intro u hdone hmark
    obtain rfl := markProcessed_error hmark
    exact .unmarked hnew hdone hmark
  unfold processText at h
  cases hfragment : Snapshot.fragment? c.settings.host html with
  | none =>
    rw [hfragment] at h
    rcases bind_error h with hmark | ⟨_, _, _, h⟩
    · exact marked (.empty hraw hfragment) hmark
    · cases h
  | some fragment =>
    simp only [hfragment] at h
    cases hentries : Snapshot.entriesOfPayload fragment with
    | error e' =>
      simp only [hentries] at h
      cases hlasting : e'.isPermanent with
      | true =>
        rw [hlasting, if_pos rfl] at h
        rcases bind_error h with hmark | ⟨_, _, _, h⟩
        · exact marked (.malformed hraw hfragment hentries hlasting) hmark
        · cases h
      | false =>
        rw [hlasting, if_neg Bool.false_ne_true] at h
        cases h
    | ok entries =>
      simp only [hentries] at h
      rcases bind_error h with hstore | ⟨summary, u, hstore, h⟩
      · exact .unstored hnew hraw hfragment hentries hstore
      · rcases bind_error h with hmark | ⟨_, _, _, h⟩
        · exact marked (.stored hraw hfragment hentries hstore) hmark
        · cases h

/-- Dealing with a file ends with an error in one of three ways. -/
theorem fileFault_of_processFile {e : CrawlError} (h : c.processFile d f s = (.error e, t)) :
    FileFault c d f s e t := by
  unfold processFile at h
  rcases bind_error h with hknown | ⟨known, u, hknown, h⟩
  · obtain rfl := isProcessed_error hknown
    exact .unasked hknown
  obtain ⟨rfl, -⟩ := isProcessed_ok hknown
  cases known with
  | true => cases h
  | false =>
    rw [if_neg Bool.false_ne_true] at h
    rcases bind_error h with h | ⟨answer, v, hv, h⟩
    · cases h
    rw [raw_run] at hv
    cases hv
    cases hraw : c.remote.raw u.calls f.url with
    | error e => rw [hraw] at h; cases h
    | ok html =>
      rw [hraw] at h
      exact fileFault_of_processText hknown hraw h

/-- An error while a file is dealt with leaves no report, and settles nothing. -/
theorem processFile_error {e : CrawlError} (h : c.processFile d f s = (.error e, t)) :
    t.db.positions = s.db.positions ∧ s.calls <+: t.calls ∧ t.events = s.events ∧
      ∀ b, t.Settled b ↔ s.Settled b := by
  have fetched : ∀ {u : Crawl}, Crawl.SameProgress (s.call (.raw f.url)) u →
      u.db.positions = s.db.positions ∧ s.calls <+: u.calls ∧ u.events = s.events ∧
        ∀ b, u.Settled b ↔ s.Settled b := fun same =>
    ⟨same.positions, same.calls ▸ List.prefix_append _ _, same.events, same.settled_iff⟩
  cases fileFault_of_processFile h with
  | unasked => exact ⟨rfl, List.prefix_rfl, rfl, fun _ => Iff.rfl⟩
  | unmarked _ hdone => exact fetched hdone.same
  | unstored _ _ _ _ hstore => exact fetched (((c.within_storeEntries _ _).during _).of_run hstore)

section Within

variable {R : Crawl → Crawl → Prop} [IsPreorder Crawl R]

/-- Marking a file is within what it is within to add a blob to the set. -/
theorem within_markProcessed
    (hblob : ∀ s bs b, s.db.blobs = some bs →
      R s { s with db := { s.db with blobs := some (bs.insert b) } }) (f : ChangedFile) :
    Within R (markProcessed f) := by
  unfold markProcessed
  cases f.blob with
  | none => exact within_pure _
  | some b =>
    refine within_update (refl_of R) fun s db hdb => ?_
    obtain ⟨bs, hbs, -, rfl⟩ := Database.insertBlob_eq_ok_iff.mp hdb
    exact hblob s bs b hbs

/-- Dealing with a text is within what its report, its mark and the store are within. -/
theorem within_processText (hlog : ∀ s status detail, R s (s.log (report d f status detail)))
    (hmark : Within R (markProcessed f))
    (hstore : ∀ fragment entries, Snapshot.entriesOfPayload fragment = .ok entries →
      Within R (c.storeEntries entries d.date)) (html : String) :
    Within R (c.processText d f html) := by
  have hreport : ∀ status detail, Within R (reportFile d f status detail) :=
    fun status detail s => hlog s status detail
  unfold processText
  cases Snapshot.fragment? c.settings.host html with
  | none => exact .bind hmark fun _ => .bind (hreport _ _) fun _ => within_pure _
  | some fragment =>
    simp only
    cases hentries : Snapshot.entriesOfPayload fragment with
    | error e =>
      simp only
      split
      · exact .bind hmark fun _ => .bind (hreport _ _) fun _ => within_pure _
      · exact .bind (hreport _ _) fun _ => within_pure _
    | ok entries =>
      exact .bind ((hstore fragment entries hentries).during _) fun _ =>
        .bind hmark fun _ => .bind (hreport _ _) fun _ => within_pure _

/-- Dealing with a file is within what its fetch, its report, its mark and the store are within. -/
theorem within_processFile_of (hraw : ∀ s url, R s (s.call (.raw url)))
    (hlog : ∀ s status detail, R s (s.log (report d f status detail)))
    (hmark : Within R (markProcessed f))
    (hstore : ∀ fragment entries, Snapshot.entriesOfPayload fragment = .ok entries →
      Within R (c.storeEntries entries d.date)) : Within R (c.processFile d f) := by
  have hasked : Within R (isProcessed f) := by
    unfold isProcessed
    cases f.blob with
    | none => exact within_pure _
    | some b => exact within_query _ _
  refine .bind hasked fun known => ?_
  cases known with
  | true => exact .bind (fun s => hlog s _ _) fun _ => within_pure _
  | false =>
    refine .bind (fun s => hraw s f.url) fun answer => ?_
    cases answer with
    | error e => exact .bind (fun s => hlog s _ _) fun _ => within_pure _
    | ok html => exact within_processText hlog hmark hstore html

end Within

theorem refusal_processFile (c : Crawler) (d : CommitDetail) (f : ChangedFile) :
    Within (fun s t => t.db.refusal = s.db.refusal) (c.processFile d f) :=
  within_processFile_of (fun _ _ => rfl) (fun _ _ _ => rfl)
    (within_markProcessed (fun _ _ _ _ => rfl) f)
    fun _ _ _ s => (c.within_storeEntries _ _ s).refusal

theorem within_processFile (c : Crawler) (d : CommitDetail) (f : ChangedFile) :
    Within Crawl.Extends (c.processFile d f) := by
  intro s
  have hrefusal := c.refusal_processFile d f s
  cases h : c.processFile d f s with
  | mk r t =>
    cases r with
    | ok n =>
      obtain ⟨hp, hc, status, detail, he, hs, -⟩ := (fileRun_of_processFile h).report
      exact ⟨hp, h ▸ hrefusal, fun b hb => (hs b).mpr (.inl hb), hc, he ▸ List.prefix_append _ _⟩
    | error e =>
      obtain ⟨hp, hc, he, hs⟩ := processFile_error h
      exact ⟨hp, h ▸ hrefusal, fun b => (hs b).mpr, hc, he ▸ List.prefix_rfl⟩

end Crawler

end Harvest
