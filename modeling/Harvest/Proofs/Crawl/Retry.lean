import Harvest.Proofs.Crawl.Runs

/-!
# Snapshots whose fetch fails

A snapshot that cannot be fetched does not keep its commit from being processed, so both positions
move past it. Its blob is settled only if another report on the blob is not a failed fetch, because
the blob stands in another commit or its commit is processed by both passes.

## Main definitions

* `Crawl.Reported` — a blob has been reported with a status
* `Archive.Spoiled` — the text of a blob cannot be unpacked
* `World.Patient` — a run in which listings and fetches may fail

## Main results

* `World.Reachable.settled_iff_reported` — which blobs need no further work
* `World.Runs.settled_iff_retried` — when all snapshots have been dealt with once the way back is over
* `World.fetch_lost` — a snapshot whose fetch has failed once and is never made again
-/

namespace Harvest

open CrawlStep

/-- Some snapshot with the blob has been reported with the status. -/
def Crawl.Reported (s : Crawl) (b : String) (status : SnapshotStatus) : Prop :=
  ∃ sha path detail, Event.snapshot sha path (some b) status detail ∈ s.events

/-- The text of a snapshot with the blob cannot be unpacked. -/
def Archive.Spoiled (a : Archive) (σ : CrawlSettings) (b : String) : Prop :=
  ∃ d ∈ a.commits, ∃ f ∈ σ.snapshots d, f.blob = some b ∧
    ∃ html, a.texts.lookup f.url = some html ∧ σ.Undecodable html

namespace Crawl

variable {s t : Crawl} {b : String} {status : SnapshotStatus}

theorem reported_of_events {d : CommitDetail} {f : ChangedFile} {status' : SnapshotStatus}
    {detail : Option String} (h : t.events = s.events ++ [Crawler.report d f status' detail]) :
    t.Reported b status ↔ s.Reported b status ∨ f.blob = some b ∧ status' = status := by
  unfold Reported
  rw [h]
  simp only [List.mem_append, List.mem_singleton, Crawler.report, Event.snapshot.injEq]
  constructor
  · rintro ⟨sha, path, detail', hold | ⟨-, -, hb, hs, -⟩⟩
    · exact .inl ⟨sha, path, detail', hold⟩
    · exact .inr ⟨hb.symm, hs.symm⟩
  · rintro (⟨sha, path, detail', hold⟩ | ⟨hb, hs⟩)
    · exact ⟨sha, path, detail', .inl hold⟩
    · exact ⟨_, _, _, .inr ⟨rfl, rfl, hb.symm, hs.symm, rfl⟩⟩

theorem reported_log_commit {pass sha : String} {files streams : Nat} :
    (s.log (.commit pass sha files streams)).Reported b status ↔ s.Reported b status := by
  simp [Reported]

/-- The blobs that need no further work are those that have been reported for good. -/
def Tracked (s : Crawl) : Prop :=
  ∀ b, s.Settled b ↔ ∃ status, s.Reported b status ∧ status.isOpen = false

theorem Tracked.congr (h : s.Tracked) (hsettled : ∀ b, t.Settled b ↔ s.Settled b)
    (hevents : t.events = s.events) : t.Tracked := by
  intro b
  rw [hsettled b, h b]
  simp only [Reported, hevents]

end Crawl

namespace Crawler

variable {c : Crawler}

theorem tracked_processFile (d : CommitDetail) (f : ChangedFile) :
    Within (fun s t => s.Tracked → t.Tracked) (c.processFile d f) := by
  intro s hs
  cases h : c.processFile d f s with
  | mk r t =>
    cases r with
    | error e =>
      obtain ⟨-, -, hevents, hsettled⟩ := processFile_error h
      exact hs.congr hsettled hevents
    | ok n =>
      obtain ⟨-, -, status, detail, hevents, hsettled, -⟩ := (fileRun_of_processFile h).report
      intro b
      rw [hsettled b, hs b]
      simp only [Crawl.reported_of_events hevents]
      constructor
      · rintro (⟨status', hold, hclosed⟩ | ⟨hb, hclosed⟩)
        · exact ⟨status', .inl hold, hclosed⟩
        · exact ⟨status, .inr ⟨hb, rfl⟩, hclosed⟩
      · rintro ⟨status', hold | ⟨hb, rfl⟩, hclosed⟩
        · exact .inl ⟨status', hold, hclosed⟩
        · exact .inr ⟨hb, hclosed⟩

theorem tracked_processCommit (pass : Pass) (sha : String) :
    Within (fun s t => s.Tracked → t.Tracked) (c.processCommit pass sha) :=
  within_processCommit (fun _ _ d _ f _ => tracked_processFile d f) (fun _ _ => id)
    (fun _ _ _ _ _ hs b => (hs b).trans (by simp only [Crawl.reported_log_commit])) pass sha

end Crawler

namespace World

variable {σ : CrawlSettings} {w : World} {c : Crawler} {limits : PassLimits}

/-- A blob needs no further work exactly if it has been reported for good. -/
theorem Reachable.settled_iff_reported (hw : Reachable σ w) : w.crawl.Tracked := by
  induction hw with
  | start _ hs =>
    intro b
    rw [Crawl.settled_iff, hs.blobs]
    simp [Crawl.Reported, hs.events]
  | push _ _ ih => exact ih
  | withCache _ _ ih => exact ih
  | incremental _ _ _ limit ih =>
    exact Crawler.within_incremental (R := fun s t => s.Tracked → t.Tracked) (fun _ _ _ => id)
      Crawler.tracked_processCommit (fun _ _ => id) limit _ ih
  | backfill _ _ _ limit ih =>
    exact Crawler.within_backfill (R := fun s t => s.Tracked → t.Tracked) (fun _ _ _ => id)
      (fun _ _ => id) Crawler.tracked_processCommit (fun _ _ => id) limit _ ih

/-- A run that may process something in either pass, in which all commits give their details, and no
incremental page is too short; listings and fetches may fail. -/
structure Patient (w : World) (c : Crawler) (limits : PassLimits) : Prop where
  incremental : 1 ≤ limits.incremental
  backfill : 1 ≤ limits.backfill
  commit : ∀ past sha d, w.archive.find? sha = some d → c.remote.commit past sha = .ok d
  texts : ∀ past url html, c.remote.raw past url = .ok html → w.archive.texts.lookup url = some html
  uncapped : w.leaves c limits.incremental = []

theorem leftOut_run (w : World) (c : Crawler) (limits : PassLimits) :
    (w.run c limits).leftOut = w.leftOut ++ w.leaves c limits.incremental := by
  unfold World.run
  dsimp only
  split <;> rfl

theorem Runs.leftOut_eq_nil (hw : Runs σ Patient w) : w.leftOut = [] := by
  induction hw with
  | start => rfl
  | push _ _ ih => exact ih
  | run _ _ _ hpatient ih => rw [leftOut_run, ih, hpatient.uncapped, List.append_nil]

/-- Every blob that has been reported as undecodable has an undecodable text. -/
def Blamed (σ : CrawlSettings) (a : Archive) (s : Crawl) : Prop :=
  ∀ b, s.Reported b .decodeFailed → a.Spoiled σ b

theorem blamed_processFile {a : Archive} {d : CommitDetail} {f : ChangedFile} (hσ : c.settings = σ)
    (htexts : ∀ past url html, c.remote.raw past url = .ok html → a.texts.lookup url = some html)
    (hd : d ∈ a.commits) (hf : f ∈ σ.snapshots d) :
    Within (fun s t => Blamed σ a s → Blamed σ a t) (c.processFile d f) := by
  intro s hs
  cases h : c.processFile d f s with
  | mk r t =>
    cases r with
    | error e =>
      obtain ⟨-, -, hevents, -⟩ := Crawler.processFile_error h
      intro b hb
      refine hs b ?_
      simpa only [Crawl.Reported, hevents] using hb
    | ok n =>
      obtain ⟨-, -, status, detail, hevents, -, hdecode⟩ := (Crawler.fileRun_of_processFile h).report
      intro b hb
      rcases (Crawl.reported_of_events hevents).mp hb with hold | ⟨hblob, hstatus⟩
      · exact hs b hold
      · obtain ⟨html, hraw, hundecodable⟩ := hdecode hstatus
        exact ⟨d, hd, f, hf, hblob, html, htexts _ _ _ hraw, hσ ▸ hundecodable⟩

theorem blamed_processCommit {a : Archive} (hσ : c.settings = σ) (hc : c.remote.Follows a)
    (htexts : ∀ past url html, c.remote.raw past url = .ok html → a.texts.lookup url = some html)
    (pass : Pass) (sha : String) :
    Within (fun s t => Blamed σ a s → Blamed σ a t) (c.processCommit pass sha) :=
  Crawler.within_processCommit
    (fun _ _ _ hd _ hf => blamed_processFile hσ htexts (List.mem_of_find?_eq_some (hc.commit hd))
      (hσ ▸ hf))
    (fun _ _ => id) (fun _ _ _ _ _ hs b hb => hs b (Crawl.reported_log_commit.mp hb)) pass sha

theorem Runs.blamed (hw : Runs σ Patient w) : Blamed σ w.archive w.crawl := by
  induction hw with
  | start _ hs =>
    rintro b ⟨sha, path, detail, hmem⟩
    rw [hs.events] at hmem
    cases hmem
  | push _ _ ih =>
    intro b hb
    obtain ⟨d, hd, hspoiled⟩ := ih b hb
    exact ⟨d, List.mem_append_left _ hd, hspoiled⟩
  | @run w c limits _ hσ hc hpatient ih =>
    have hcommit := blamed_processCommit hσ hc hpatient.texts
    rw [archive_run, crawl_run]
    refine Crawler.within_run (R := fun s t => Blamed σ w.archive s → Blamed σ w.archive t)
      (fun _ _ => id) ?_ ?_ w.crawl ih
    · exact Crawler.within_incremental (fun _ _ _ => id) hcommit (fun _ _ => id) _
    · exact Crawler.within_backfill (fun _ _ _ => id) (fun _ _ => id) hcommit (fun _ _ => id) _

/-- A commit that has been processed has reports on all blobs of its snapshots. -/
theorem exists_reported {s : Crawl} {d : CommitDetail} {f : ChangedFile} {b : String}
    (hd : s.Processed σ d) (hf : f ∈ σ.snapshots d) (hb : f.blob = some b) :
    ∃ status, s.Reported b status := by
  obtain ⟨-, past, reports, pass, files, streams, future, hreports, hs⟩ := hd
  obtain ⟨status, detail, hmem⟩ := hreports.exists_report hf
  refine ⟨status, d.sha, f.path, detail, ?_⟩
  rw [hs, ← hb]
  exact List.mem_append_left _ (List.mem_append_right _ hmem)

/-- Once the way back is over, every snapshot whose text can be unpacked has been dealt with exactly
if none of them was reported as not fetched and never reported otherwise. -/
theorem Runs.settled_iff_retried {stats : RunStats} (hw : Runs σ Patient w) (hσ : c.settings = σ)
    (hc : c.remote.Follows w.archive) (hpatient : w.Patient c limits)
    (hanswers : c.remote.Answers w.archive) (hrun : (c.run limits w.crawl).1 = .ok stats)
    (hdone : (w.run c limits).checkpoint.state = .backfillDone) :
    (∀ d ∈ w.archive.commits, ∀ f ∈ σ.snapshots d, ∀ b, f.blob = some b → ¬ w.archive.Spoiled σ b →
      (w.run c limits).crawl.Settled b) ↔
    ∀ d ∈ w.archive.commits, ∀ f ∈ σ.snapshots d, ∀ b, f.blob = some b → ¬ w.archive.Spoiled σ b →
      (w.run c limits).crawl.Reported b .fetchFailed →
      ∃ status, status ≠ .fetchFailed ∧ (w.run c limits).crawl.Reported b status := by
  have hafter : Runs σ Patient (w.run c limits) := hw.run hσ hc hpatient
  have htracked := hafter.reachable.settled_iff_reported
  have hlimit : limits.incremental ≠ 0 := by have := hpatient.incremental; omega
  constructor
  · -- a blob is settled only by a report that is not open, and a failed fetch is open
    intro hall d hd f hf b hb hspoiled _
    obtain ⟨status, hreported, hclosed⟩ := (htracked b).mp (hall d hd f hf b hb hspoiled)
    refine ⟨status, ?_, hreported⟩
    rintro rfl
    cases hclosed
  · -- the commit has been processed, so there is a report on the blob, and it need not be open
    intro hall d hd f hf b hb hspoiled
    have hprocessed : (w.run c limits).crawl.Processed σ d := by
      rcases hw.reachable.whole hσ hc hanswers hlimit hrun (Checkpoint.state_eq_done.mp hdone) hd
        with hprocessed | hleft
      · exact hprocessed
      · rw [hafter.leftOut_eq_nil] at hleft
        cases hleft
    obtain ⟨status, hne, hreported⟩ : ∃ status, status ≠ .fetchFailed ∧
        (w.run c limits).crawl.Reported b status := by
      obtain ⟨status, hreported⟩ := exists_reported hprocessed hf hb
      by_cases hfailed : status = .fetchFailed
      · exact hall d hd f hf b hb hspoiled (hfailed ▸ hreported)
      · exact ⟨status, hfailed, hreported⟩
    refine (htracked b).mpr ⟨status, hreported, ?_⟩
    cases status with
    | fetchFailed => exact absurd rfl hne
    | decodeFailed => exact absurd (archive_run w c limits ▸ hafter.blamed b hreported) hspoiled
    | alreadyProcessed | noFragment | malformed | stored => rfl

theorem patient_small (w : World) (outages : List Outage) (hcommit : ∀ sha, Outage.commit sha ∉ outages)
    (huncapped : w.leaves (.small { w.archive with outages := outages }) 1 = []) :
    w.Patient (.small { w.archive with outages := outages }) ⟨1, 1⟩ where
  incremental := Nat.le_refl _
  backfill := Nat.le_refl _
  commit past sha d hd := by
    have hfind : { w.archive with outages := outages }.find? sha = some d := hd
    simp [Crawler.small, Archive.remote, Archive.answer, hcommit, hfind]
  texts past url html h := by
    simp only [Crawler.small, Archive.remote, Archive.answer] at h
    split at h
    · cases h
    · cases hlookup : w.archive.texts.lookup url with
      | none => rw [hlookup] at h; cases h
      | some text => rw [hlookup] at h; cases h; rfl
  uncapped := huncapped

/-- A run in which the only snapshot cannot be fetched. -/
def unfetched : World :=
  (fresh .root).run (.small { Archive.root with outages := [.raw "raw/a"] }) ⟨1, 1⟩

theorem runs_unfetched : Runs {} Patient unfetched :=
  (Runs.start Archive.isLinear_root ⟨rfl, rfl, rfl, rfl⟩).run rfl
    (Archive.root.remote_follows [.raw "raw/a"])
    (patient_small (fresh .root) _ (by simp) (by decide))

theorem not_spoiled_root : ¬ Archive.root.Spoiled {} "a-blob" := by
  rintro ⟨d, hd, f, hf, -, html, hlookup, fragment, e, hfragment, -⟩
  obtain rfl := List.mem_singleton.mp hd
  have hsnapshots : ({} : CrawlSettings).snapshots (.small "a" []) =
      [⟨"list.html", some "a-blob", "raw/a"⟩] := by decide
  rw [hsnapshots, List.mem_singleton] at hf
  rw [hf, show Archive.root.texts.lookup "raw/a" = some "" by decide] at hlookup
  cases hlookup
  rw [show Snapshot.fragment? ({} : CrawlSettings).host "" = none by decide] at hfragment
  cases hfragment

theorem archive_unfetched : unfetched.archive = .root := archive_run _ _ _

theorem patient_unfetched : unfetched.Patient (.small unfetched.archive) ⟨1, 1⟩ :=
  patient_small unfetched unfetched.archive.outages
    (by rw [archive_unfetched]; exact fun _ => List.not_mem_nil) (by decide)

theorem answers_unfetched : (Crawler.small unfetched.archive).remote.Answers unfetched.archive :=
  Crawler.answers_small (archive_unfetched ▸ rfl)

theorem idle_unfetched :
    ((Crawler.small unfetched.archive).run ⟨1, 1⟩ unfetched.crawl).1 = .ok {} := by
  decide

theorem settled_iff_unfetched :
    (∀ d ∈ unfetched.archive.commits, ∀ f ∈ CrawlSettings.snapshots {} d, ∀ b, f.blob = some b →
      ¬ unfetched.archive.Spoiled {} b →
      (unfetched.run (.small unfetched.archive) ⟨1, 1⟩).crawl.Settled b) ↔
    ∀ d ∈ unfetched.archive.commits, ∀ f ∈ CrawlSettings.snapshots {} d, ∀ b, f.blob = some b →
      ¬ unfetched.archive.Spoiled {} b →
      (unfetched.run (.small unfetched.archive) ⟨1, 1⟩).crawl.Reported b .fetchFailed →
      ∃ status, status ≠ .fetchFailed ∧
        (unfetched.run (.small unfetched.archive) ⟨1, 1⟩).crawl.Reported b status :=
  runs_unfetched.settled_iff_retried rfl (Crawler.follows_small _) patient_unfetched answers_unfetched
    idle_unfetched (by decide +kernel)

/-- A fetch that has failed once is never made again: a run in which everything is answered and which
finds nothing to do reports that the first commit has been reached, and yet a snapshot has never been
dealt with. -/
theorem fetch_lost : Runs {} Patient unfetched ∧
    unfetched.Patient (.small unfetched.archive) ⟨1, 1⟩ ∧
    (Crawler.small unfetched.archive).remote.Answers unfetched.archive ∧
    ((Crawler.small unfetched.archive).run ⟨1, 1⟩ unfetched.crawl).1 = .ok {} ∧
    (unfetched.run (.small unfetched.archive) ⟨1, 1⟩).checkpoint.state = .backfillDone ∧
    ¬ ∀ d ∈ unfetched.archive.commits, ∀ f ∈ CrawlSettings.snapshots {} d, ∀ b, f.blob = some b →
      ¬ unfetched.archive.Spoiled {} b →
      (unfetched.run (.small unfetched.archive) ⟨1, 1⟩).crawl.Settled b := by
  refine ⟨runs_unfetched, patient_unfetched, answers_unfetched, idle_unfetched, by decide +kernel,
    fun hall => ?_⟩
  -- the commit was processed by the run whose fetch failed, and both positions are past it
  have hmem : CommitDetail.small "a" [] ∈ unfetched.archive.commits :=
    archive_unfetched ▸ List.mem_singleton_self _
  have hsnapshot : (⟨"list.html", some "a-blob", "raw/a"⟩ : ChangedFile) ∈
      CrawlSettings.snapshots {} (.small "a" []) := by decide +kernel
  have hsettled := hall _ hmem _ hsnapshot "a-blob" rfl (archive_unfetched ▸ not_spoiled_root)
  have hnot : ¬ (unfetched.run (.small unfetched.archive) ⟨1, 1⟩).crawl.db.hasBlob "a-blob" =
    .ok true := by decide +kernel
  exact hnot hsettled

end World

end Harvest
