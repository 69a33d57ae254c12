import Harvest.Proofs.Crawl.File
import Mathlib.Data.List.Forall2

/-!
# Processing commits

A commit that is processed leaves the reports on its snapshots, in order, and after them one of its
own; a commit whose details cannot be had leaves no report at all. The commits of a pass are
processed in a row: those of the incremental pass up to the first whose details cannot be had, and
those of the backfill pass from first parent to first parent.

## Main definitions

* `Crawl.visited` — the names of the commits that have been processed, in order
* `CommitDetail.ReportedBy`, `Crawl.Processed` — a commit has been processed
* `Crawler.WayBack` — the way from a commit along first parents

## Main results

* `Crawler.processCommit_some`, `Crawler.processCommit_none` — how processing a commit ends
* `Crawler.catchUp_ok`, `Crawler.walkBack_ok` — which commits a pass has processed
* `Crawler.within_catchUp`, `Crawler.within_walkBack` — passes are within what commits are within
-/

namespace Harvest

open CrawlStep

/-- The name of the commit that an event reports as processed. -/
def Event.visited? : Event → Option String
  | commit _ sha _ _ => some sha
  | _ => none

/-- The snapshots among the files of a commit. -/
def CrawlSettings.snapshots (σ : CrawlSettings) (d : CommitDetail) : List ChangedFile :=
  d.files.filter fun f => Text.endsWith σ.extension.toList f.path.toList

/-- The events are reports on files of a commit, one for each in order. -/
def CommitDetail.ReportedBy (d : CommitDetail) (fs : List ChangedFile) (es : List Event) : Prop :=
  List.Forall₂ (fun f e => ∃ status detail, e = .snapshot d.sha f.path f.blob status detail) fs es

theorem CommitDetail.ReportedBy.visited {d : CommitDetail} {fs : List ChangedFile}
    {es : List Event} (h : d.ReportedBy fs es) : es.filterMap Event.visited? = [] := by
  induction h with
  | nil => rfl
  | cons hreport _ ih =>
    obtain ⟨status, detail, rfl⟩ := hreport
    exact ih

/-- Every file has a report. -/
theorem CommitDetail.ReportedBy.exists_report {d : CommitDetail} {fs : List ChangedFile}
    {es : List Event} {f : ChangedFile} (h : d.ReportedBy fs es) (hf : f ∈ fs) :
    ∃ status detail, .snapshot d.sha f.path f.blob status detail ∈ es := by
  induction h with
  | nil => cases hf
  | cons hreport _ ih =>
    rcases List.mem_cons.mp hf with rfl | hf
    · obtain ⟨status, detail, rfl⟩ := hreport
      exact ⟨status, detail, List.mem_cons_self ..⟩
    · obtain ⟨status, detail, hmem⟩ := ih hf
      exact ⟨status, detail, List.mem_cons_of_mem _ hmem⟩

namespace Crawl

variable {s t : Crawl}

/-- The names of the commits that have been processed, in order. -/
def visited (s : Crawl) : List String := s.events.filterMap Event.visited?

/-- The commit has been processed: its details have been asked for, and there are reports on all of
its snapshots, followed by one on the commit itself, which is made only if the details have been
had. -/
def Processed (s : Crawl) (σ : CrawlSettings) (d : CommitDetail) : Prop :=
  RemoteCall.commit d.sha ∈ s.calls ∧
    ∃ past reports pass files streams future,
      d.ReportedBy (σ.snapshots d) reports ∧
        s.events = past ++ reports ++ .commit pass d.sha files streams :: future

@[simp] theorem visited_call (s : Crawl) (k : RemoteCall) : (s.call k).visited = s.visited := rfl

theorem visited_of_events {es : List Event} (h : t.events = s.events ++ es) :
    t.visited = s.visited ++ es.filterMap Event.visited? := by
  simp [visited, h]

theorem Extends.visited (h : Extends s t) : s.visited <+: t.visited := h.events.filterMap _

theorem Processed.mono {σ : CrawlSettings} {d : CommitDetail} (hd : s.Processed σ d)
    (hcalls : s.calls <+: t.calls) (hevents : s.events <+: t.events) : t.Processed σ d := by
  obtain ⟨hcall, past, reports, pass, files, streams, future, hreports, hs⟩ := hd
  obtain ⟨more, ht⟩ := hevents
  refine ⟨hcalls.mem hcall, past, reports, pass, files, streams, future ++ more, hreports, ?_⟩
  rw [← ht, hs]
  simp

theorem Processed.mem_visited {σ : CrawlSettings} {d : CommitDetail} (h : s.Processed σ d) :
    d.sha ∈ s.visited := by
  obtain ⟨-, past, reports, pass, files, streams, future, -, hs⟩ := h
  rw [visited, hs, List.filterMap_append, List.filterMap_cons]
  exact List.mem_append_right _ (List.mem_cons_self ..)

end Crawl

namespace Crawler

variable {c : Crawler} {d : CommitDetail} {pass : Pass} {sha : String} {s t : Crawl}
  {R : Crawl → Crawl → Prop}

theorem commit_run (c : Crawler) (sha : String) (s : Crawl) :
    c.commit sha s = (.ok (c.remote.commit s.calls sha), s.call (.commit sha)) := rfl

/-! ### One commit -/

theorem processFiles_ok {fs : List ChangedFile} {n : Nat × Nat}
    (h : c.processFiles d fs s = (.ok n, t)) :
    ∃ reports, d.ReportedBy fs reports ∧ t.events = s.events ++ reports := by
  induction fs generalizing s n with
  | nil =>
    cases h
    exact ⟨[], .nil, by simp⟩
  | cons f fs ih =>
    obtain ⟨new, u, hfile, h⟩ := bind_ok h
    obtain ⟨rest, v, hrest, h⟩ := bind_ok h
    cases h
    obtain ⟨-, -, status, detail, hu, -⟩ := (fileRun_of_processFile hfile).report
    obtain ⟨reports, hreports, ht⟩ := ih hrest
    refine ⟨report d f status detail :: reports, .cons ⟨status, detail, rfl⟩ hreports, ?_⟩
    rw [ht, hu, List.append_assoc, List.singleton_append]

theorem within_processFiles [IsPreorder Crawl R] {fs : List ChangedFile}
    (hfile : ∀ f ∈ fs, Within R (c.processFile d f)) : Within R (c.processFiles d fs) := by
  induction fs with
  | nil => exact within_pure _
  | cons f fs ih =>
    obtain ⟨hf, hfs⟩ := List.forall_mem_cons.mp hfile
    exact .bind hf fun _ => .bind (ih hfs) fun _ => within_pure _

/-- The reports on files name no commit as processed, whether or not there is an error. -/
theorem visited_of_processFiles (d : CommitDetail) (fs : List ChangedFile) (s : Crawl) :
    (c.processFiles d fs s).2.visited = s.visited := by
  have : IsPreorder Crawl fun s t => t.visited = s.visited :=
    { refl := fun _ => rfl, trans := fun _ _ _ h h' => h'.trans h }
  refine within_processFiles (R := fun s t => t.visited = s.visited) (fun f _ s => ?_) s
  cases h : c.processFile d f s with
  | mk r t =>
    cases r with
    | ok n =>
      obtain ⟨-, -, status, detail, ht, -⟩ := (fileRun_of_processFile h).report
      rw [Crawl.visited_of_events ht]
      exact List.append_nil _
    | error e =>
      obtain ⟨-, -, ht, -⟩ := processFile_error h
      exact congrArg (List.filterMap Event.visited?) ht

/-- Processing a commit is within what its request, its snapshots and its report are within. -/
theorem within_processCommit [IsPreorder Crawl R]
    (hfile : ∀ past sha d, c.remote.commit past sha = .ok d → ∀ f ∈ c.settings.snapshots d,
      Within R (c.processFile d f))
    (hcall : ∀ s sha, R s (s.call (.commit sha)))
    (hlog : ∀ s pass sha files streams, R s (s.log (.commit pass sha files streams)))
    (pass : Pass) (sha : String) : Within R (c.processCommit pass sha) := by
  refine .bind_of (fun s => hcall s sha) fun s answer t h => ?_
  rw [commit_run] at h
  cases h
  cases hd : c.remote.commit s.calls sha with
  | error e => exact refl_of R _
  | ok d =>
    exact Within.bind (within_processFiles (hfile s.calls sha d hd)) (fun n =>
      .bind (fun s => hlog s _ _ _ _) fun _ => within_pure _) (s.call (.commit sha))

theorem within_extends_processCommit (c : Crawler) (pass : Pass) (sha : String) :
    Within Crawl.Extends (c.processCommit pass sha) :=
  within_processCommit (fun _ _ d _ f _ => within_processFile c d f) (fun s _ => s.extends_call _)
    (fun s _ _ _ _ => s.extends_log _) pass sha

/-- A commit that is processed has given its details, and leaves the reports on its snapshots and
one of its own. -/
theorem processCommit_some {p : ProcessedCommit} (h : c.processCommit pass sha s = (.ok (some p), t)) :
    ∃ d reports, c.remote.commit s.calls sha = .ok d ∧ p.firstParent = d.firstParent? ∧
      d.ReportedBy (c.settings.snapshots d) reports ∧ s.calls ++ [.commit sha] <+: t.calls ∧
      t.events = s.events ++ reports ++ [.commit pass.name sha p.files p.streams] := by
  obtain ⟨answer, u, hu, h⟩ := bind_ok h
  rw [commit_run] at hu
  cases hu
  cases hd : c.remote.commit s.calls sha with
  | error e => rw [hd] at h; cases h
  | ok d =>
    rw [hd] at h
    obtain ⟨n, v, hfiles, h⟩ := bind_ok h
    cases h
    obtain ⟨reports, hreports, hv⟩ := processFiles_ok hfiles
    have hext := (within_processFiles fun f _ => within_processFile c d f).of_run hfiles
    exact ⟨d, reports, rfl, rfl, hreports, hext.calls, congrArg (· ++ [_]) hv⟩

/-- A commit whose details cannot be had has been asked for and nothing else. -/
theorem processCommit_none (h : c.processCommit pass sha s = (.ok none, t)) :
    (∃ e, c.remote.commit s.calls sha = .error e) ∧ t = s.call (.commit sha) := by
  obtain ⟨answer, u, hu, h⟩ := bind_ok h
  rw [commit_run] at hu
  cases hu
  cases hd : c.remote.commit s.calls sha with
  | error e =>
    rw [hd] at h
    cases h
    exact ⟨⟨e, rfl⟩, rfl⟩
  | ok d =>
    rw [hd] at h
    obtain ⟨n, v, -, h⟩ := bind_ok h
    cases h

/-- A commit in which there is an error is not processed. -/
theorem processCommit_error {e : CrawlError} (h : c.processCommit pass sha s = (.error e, t)) :
    Crawl.Extends s t ∧ t.visited = s.visited := by
  refine ⟨(within_extends_processCommit c pass sha).of_run h, ?_⟩
  rcases bind_error h with hcall | ⟨answer, u, hu, h⟩
  · cases hcall
  rw [commit_run] at hu
  cases hu
  cases hd : c.remote.commit s.calls sha with
  | error e => rw [hd] at h; cases h
  | ok d =>
    rw [hd] at h
    rcases bind_error h with hfiles | ⟨n, v, hfiles, h⟩
    · have ht := c.visited_of_processFiles d (c.snapshots d) (s.call (.commit sha))
      rw [hfiles] at ht
      exact ht
    · cases h

theorem visited_of_processCommit {p : ProcessedCommit}
    (h : c.processCommit pass sha s = (.ok (some p), t)) : t.visited = s.visited ++ [sha] := by
  obtain ⟨d, reports, -, -, hreports, -, ht⟩ := processCommit_some h
  rw [List.append_assoc] at ht
  rw [Crawl.visited_of_events ht, List.filterMap_append, hreports.visited]
  rfl

/-! ### Commits in a row -/

/-- The incremental pass is within what its commits are within. -/
theorem within_catchUp [IsPreorder Crawl R]
    (hcommit : ∀ pass sha, Within R (c.processCommit pass sha)) (shas : List String) :
    Within R (c.catchUp shas) := by
  induction shas with
  | nil => exact within_pure _
  | cons sha shas ih =>
    refine .bind (hcommit _ sha) fun p => ?_
    cases p with
    | none => exact within_pure _
    | some p => exact .bind ih fun _ => within_pure _

/-- The way back is within what its commits are within. -/
theorem within_walkBack [IsPreorder Crawl R]
    (hcommit : ∀ pass sha, Within R (c.processCommit pass sha)) (n : Nat) (sha : String) :
    Within R (c.walkBack n sha) := by
  induction n generalizing sha with
  | zero => exact within_pure _
  | succ n ih =>
    refine .bind (hcommit _ sha) fun p => ?_
    cases p with
    | none => exact within_pure _
    | some p =>
      cases hp : p.firstParent with
      | none => simpa only [hp] using within_pure _
      | some parent => simpa only [hp] using (ih parent).bind fun _ => within_pure _

/-- The incremental pass processes the first of its commits: all of them, or all before the first
one whose details cannot be had. -/
theorem catchUp_ok {shas : List String} {stats : PassStats} {last : Option String} {complete : Bool}
    (h : c.catchUp shas s = (.ok (stats, last, complete), t)) :
    ∃ done left, shas = done ++ left ∧ t.visited = s.visited ++ done ∧
      stats.commits = done.length ∧ last = done.getLast? ∧ complete = left.isEmpty ∧
      ∀ sha ∈ left.head?, ∃ past e, c.remote.commit past sha = .error e := by
  induction shas generalizing s stats last complete with
  | nil =>
    cases h
    exact ⟨[], [], rfl, by simp, rfl, rfl, rfl, by simp⟩
  | cons sha shas ih =>
    obtain ⟨p, u, hp, h⟩ := bind_ok h
    cases p with
    | none =>
      cases h
      obtain ⟨⟨e, he⟩, rfl⟩ := processCommit_none hp
      exact ⟨[], sha :: shas, rfl, by simp, rfl, rfl, rfl, by simpa using ⟨_, e, he⟩⟩
    | some p =>
      obtain ⟨⟨stats', last', complete'⟩, v, hrest, h⟩ := bind_ok h
      cases h
      obtain ⟨done, left, rfl, hv, hstats, rfl, rfl, hleft⟩ := ih hrest
      refine ⟨sha :: done, left, rfl, ?_, ?_, ?_, rfl, hleft⟩
      · rw [hv, visited_of_processCommit hp, List.append_assoc, List.singleton_append]
      · rw [List.length_cons, ← hstats, Nat.add_comm]
        rfl
      · cases done with
        | nil => rfl
        | cons sha' done => simp [List.getLast?_cons]

/-- The commits with the given names lie in a row from a commit on, each followed by its first
parent, and the position comes after the last of them. -/
inductive WayBack (c : Crawler) : String → List String → BackfillCursor → Prop
  /-- The way has not begun. -/
  | here (sha : String) : WayBack c sha [] (.at sha)
  /-- The way ends with a commit that has no parent. -/
  | root {sha : String} {past : List RemoteCall} {d : CommitDetail}
      (hd : c.remote.commit past sha = .ok d) (hparent : d.firstParent? = none) :
      WayBack c sha [sha] .done
  /-- The way goes on from the first parent. -/
  | step {sha parent : String} {past : List RemoteCall} {d : CommitDetail} {shas : List String}
      {next : BackfillCursor} (hd : c.remote.commit past sha = .ok d)
      (hparent : d.firstParent? = some parent) (rest : WayBack c parent shas next) :
      WayBack c sha (sha :: shas) next

/-- The backfill pass processes commits from first parent to first parent, up to the first one
whose details cannot be had. -/
theorem walkBack_ok {n : Nat} {stats : PassStats} {next : BackfillCursor}
    (h : c.walkBack n sha s = (.ok (stats, next), t)) :
    ∃ shas, WayBack c sha shas next ∧ t.visited = s.visited ++ shas ∧
      stats.commits = shas.length ∧
      (shas = [] → n ≠ 0 → ∃ past e, c.remote.commit past sha = .error e) := by
  induction n generalizing sha s stats next with
  | zero =>
    cases h
    exact ⟨[], .here sha, by simp, rfl, by simp⟩
  | succ n ih =>
    obtain ⟨p, u, hp, h⟩ := bind_ok h
    cases p with
    | none =>
      cases h
      obtain ⟨⟨e, he⟩, rfl⟩ := processCommit_none hp
      exact ⟨[], .here sha, by simp, rfl, fun _ _ => ⟨_, e, he⟩⟩
    | some p =>
      have hu := visited_of_processCommit hp
      obtain ⟨d, -, hd, hfirst, -⟩ := processCommit_some hp
      cases hparent : p.firstParent with
      | none =>
        simp only [hparent] at h
        cases h
        exact ⟨[sha], .root hd (hfirst ▸ hparent), hu, rfl, by simp⟩
      | some parent =>
        simp only [hparent] at h
        obtain ⟨⟨stats', next'⟩, v, hrest, h⟩ := bind_ok h
        cases h
        obtain ⟨shas, hway, hv, hstats, -⟩ := ih hrest
        refine ⟨sha :: shas, .step hd (hfirst ▸ hparent) hway, ?_, ?_, by simp⟩
        · rw [hv, hu, List.append_assoc, List.singleton_append]
        · rw [List.length_cons, ← hstats, Nat.add_comm]
          rfl

end Crawler

end Harvest
