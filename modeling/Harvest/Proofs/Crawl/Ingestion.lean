import Harvest.Proofs.Crawl.Resume
import Harvest.Proofs.Crawl.Runs
import Mathlib.Algebra.Order.Floor.Div
import Mathlib.Order.Interval.Set.Basic

/-!
# A full ingestion of a linear history

If every request is answered, the first run of a full ingestion processes the newest commits and
begins the way back behind the head, and every run goes the way back by its limit. So the number of
runs up to the first commit is the number of commits behind the head, divided by the limit and
rounded up, and in the end every snapshot that can be unpacked has been dealt with.

## Main definitions

* `Crawler.Serves` — every request about a history is answered
* `Archive.Yields` — a commit has a snapshot that can be unpacked
* `Crawler.Gathers` — certain commits have been dealt with between two states
* `Archive.Remains` — how many commits are still to be processed on the way back
* `Crawler.Stage` — where a crawl stands between two runs
* `rounds` — how many runs it takes to the first commit
* `Crawler.Reaches` — what runs in a row have led to

## Main results

* `Crawler.run_of_stage` — what a run does
* `Crawler.iterate_of_stage` — what runs in a row do
* `Crawler.fullIngestion_of_linear` — what a full ingestion does
-/

namespace Harvest

open CrawlStep

/-- Every request that a crawl can make about the history is answered, and the texts of the files do
not change. -/
structure Crawler.Serves (c : Crawler) (a : Archive) (text : String → String) : Prop where
  answers : c.remote.Answers a
  raw : ∀ d ∈ a.commits, ∀ f ∈ c.settings.snapshots d, ∀ past,
    c.remote.raw past f.url = .ok (text f.url)

/-- The commit with the number has a snapshot with the blob, whose text can be unpacked. -/
def Archive.Yields (a : Archive) (σ : CrawlSettings) (text : String → String) (k : Nat)
    (b : String) : Prop :=
  ∃ d, a.commits[k]? = some d ∧
    ∃ f ∈ σ.snapshots d, f.blob = some b ∧ ¬ σ.Undecodable (text f.url)

namespace Crawler

variable {c : Crawler} {a : Archive} {text : String → String} {s t u : Crawl} {p : Positions}
  {limits : PassLimits} {sha : String} {i j k m n : Nat}

/-! ### Commits -/

/-- A file that is fetched needs no further work afterwards, unless its text cannot be unpacked. -/
theorem settled_of_processFile {d : CommitDetail} {f : ChangedFile} {x : Option Nat} {html : String}
    (hraw : c.remote.raw s.calls f.url = .ok html) (h : c.processFile d f s = (.ok x, t))
    (b : String) :
    t.Settled b ↔ s.Settled b ∨ f.blob = some b ∧ ¬ c.settings.Undecodable html := by
  have marked : ∀ {u v : Crawl} {e : Event}, markProcessed f u = (.ok (), v) →
      (u.Settled b ↔ s.Settled b) → ¬ c.settings.Undecodable html →
      ((v.log e).Settled b ↔ s.Settled b ∨ f.blob = some b ∧ ¬ c.settings.Undecodable html) := by
    intro u v e hmark hu hhtml
    obtain ⟨-, -, -, hv⟩ := markProcessed_ok hmark
    rw [Crawl.settled_log, hv, hu, and_iff_left hhtml]
  cases fileRun_of_processFile h with
  | @known b' hblob hb =>
    -- the blob of the file is settled before already, so its text does not matter
    refine ⟨.inl, fun hs => hs.elim id fun ⟨hf, _⟩ => ?_⟩
    rw [hblob] at hf
    exact Option.some.inj hf ▸ hb
  | unfetched _ herror => cases hraw.symm.trans herror
  | empty _ hhtml hfragment hmark =>
    cases hraw.symm.trans hhtml
    refine marked hmark Iff.rfl ?_
    rintro ⟨fragment, e, hsome, -⟩
    cases hfragment.symm.trans hsome
  | malformed _ hhtml hfragment hentries hlasting hmark =>
    cases hraw.symm.trans hhtml
    refine marked hmark Iff.rfl ?_
    rintro ⟨fragment, e, hsome, herror, hopen⟩
    cases hfragment.symm.trans hsome
    cases hentries.symm.trans herror
    cases hlasting.symm.trans hopen
  | undecoded _ hhtml hfragment hentries hlasting =>
    cases hraw.symm.trans hhtml
    exact ⟨.inl, fun hs => hs.elim id fun ⟨_, hnot⟩ =>
      absurd ⟨_, _, hfragment, hentries, hlasting⟩ hnot⟩
  | stored _ hhtml hfragment hentries hstore hmark =>
    cases hraw.symm.trans hhtml
    have same := ((c.within_storeEntries _ _).during _).of_run hstore
    refine marked hmark (same.settled_iff b) ?_
    rintro ⟨fragment, e, hsome, herror, -⟩
    cases hfragment.symm.trans hsome
    cases hentries.symm.trans herror

theorem settled_of_processFiles {d : CommitDetail} {fs : List ChangedFile} {x : Nat × Nat}
    (hraw : ∀ f ∈ fs, ∀ past, c.remote.raw past f.url = .ok (text f.url))
    (h : c.processFiles d fs s = (.ok x, t)) (b : String) :
    t.Settled b ↔ s.Settled b ∨
      ∃ f ∈ fs, f.blob = some b ∧ ¬ c.settings.Undecodable (text f.url) := by
  induction fs generalizing s x with
  | nil =>
    cases h
    simp
  | cons f fs ih =>
    obtain ⟨hf, hfs⟩ := List.forall_mem_cons.mp hraw
    obtain ⟨new, u, hfile, hrest⟩ := bind_ok h
    obtain ⟨y, v, hfiles, hend⟩ := bind_ok hrest
    cases hend
    rw [ih hfs hfiles, settled_of_processFile (hf s.calls) hfile, or_assoc]
    simp only [List.mem_cons, exists_eq_or_imp]

/-- From the first state to the second, the commits with the given numbers have been dealt with, and
nothing else has been settled. -/
structure Gathers (c : Crawler) (a : Archive) (text : String → String) (ks : Set Nat)
    (s t : Crawl) : Prop where
  works : t.db.IsWorking
  settled : ∀ b, t.Settled b ↔ s.Settled b ∨ ∃ k ∈ ks, a.Yields c.settings text k b

theorem Gathers.none (hs : s.db.IsWorking) : c.Gathers a text ∅ s s :=
  ⟨hs, fun b => by simp⟩

theorem Gathers.trans {ks ks' : Set Nat} (h : c.Gathers a text ks s t)
    (h' : c.Gathers a text ks' t u) : c.Gathers a text (ks ∪ ks') s u where
  works := h'.works
  settled b := by
    rw [h'.settled, h.settled, or_assoc]
    simp only [Set.mem_union, or_and_right, exists_or]

theorem Gathers.congr {ks ks' : Set Nat} (h : c.Gathers a text ks s t)
    (hks : ∀ k, k ∈ ks ↔ k ∈ ks') : c.Gathers a text ks' s t :=
  Set.ext hks ▸ h

/-- Requests, other positions and other remembered resolutions settle nothing. -/
theorem Gathers.of_blobs {ks : Set Nat} {s' t' : Crawl} (h : c.Gathers a text ks s t)
    (hs : s'.db.blobs = s.db.blobs) (ht : t'.db.blobs = t.db.blobs) (hworks : t'.db.IsWorking) :
    c.Gathers a text ks s' t' where
  works := hworks
  settled b := by
    have hs' : s'.Settled b ↔ s.Settled b := by simp only [Crawl.settled_iff, hs]
    have ht' : t'.Settled b ↔ t.Settled b := by simp only [Crawl.settled_iff, ht]
    rw [hs', ht', h.settled]

/-- A commit of the history is processed, and leads to the commit before it. -/
theorem processCommit_served (ha : a.IsLinear) (hc : c.Serves a text) (hyears : c.YearsFit)
    (hs : s.db.IsWorking) (hk : a.names[k]? = some sha) (pass : Pass) :
    ∃ x t, c.processCommit pass sha s = (.ok (some x), t) ∧
      x.firstParent = (if k = 0 then none else a.names[k - 1]?) ∧ c.Gathers a text {k} s t := by
  obtain ⟨d, hfind⟩ := Archive.IsLinear.isSome_find? hk
  have hd := ha.find?_eq hk hfind
  have hcommit := hc.answers.commit s.calls sha d hfind
  obtain ⟨⟨files, streams⟩, t, hfiles, ht⟩ :=
    works_processFiles hyears d (c.snapshots d) (s.call (.commit sha)) hs
  refine ⟨⟨d.firstParent?, files, streams⟩, t.log (.commit pass.name sha files streams), ?_,
    ha.firstParent?_eq hd, ht, fun b => ?_⟩
  · rw [processCommit, bind_run, commit_run, hcommit]
    simp only [bind_run, hfiles]
    rfl
  · have hsettled := settled_of_processFiles
      (fun f hf past => hc.raw d (List.mem_of_getElem? hd) f hf past) hfiles b
    rw [Crawl.settled_log, hsettled, Crawl.settled_call]
    simp only [Set.mem_singleton_iff, exists_eq_left, Archive.Yields, hd, Option.some.injEq,
      exists_eq_left']

/-! ### Both passes -/

/-- All commits from a number on are processed. -/
theorem catchUp_served (ha : a.IsLinear) (hc : c.Serves a text) (hyears : c.YearsFit)
    (hs : s.db.IsWorking) {shas : List String} (hshas : a.names.drop j = shas) :
    ∃ x t, c.catchUp shas s = (.ok (x, shas.getLast?, true), t) ∧ x.commits = shas.length ∧
      c.Gathers a text (Set.Ico j a.names.length) s t := by
  induction shas generalizing s j with
  | nil =>
    have hlen : a.names.length ≤ j := List.drop_eq_nil_iff.mp hshas
    exact ⟨{}, s, rfl, rfl, (Gathers.none hs).congr fun k => by simp; omega⟩
  | cons sha shas ih =>
    have hj : a.names[j]? = some sha := by
      rw [← Nat.add_zero j, ← List.getElem?_drop, hshas]
      rfl
    have hrest : a.names.drop (j + 1) = shas := by
      rw [← List.tail_drop, hshas]
      rfl
    have hlt := Archive.lt_of_names hj
    obtain ⟨x, t, hcommit, -, hfirst⟩ := processCommit_served ha hc hyears hs hj .incremental
    obtain ⟨y, u, hcatch, hy, hlater⟩ := ih hfirst.works hrest
    refine ⟨x.stats + y, u, ?_, ?_, (hfirst.trans hlater).congr fun k => ?_⟩
    · rw [getLast?_cons_eq_or]
      exact catchUp_cons_some hcommit hcatch
    · rw [List.length_cons, ← hy, Nat.add_comm]
      rfl
    · simp only [Set.mem_union, Set.mem_singleton_iff, Set.mem_Ico]
      omega

/-- The way back goes down by the limit, or to the first commit. -/
theorem walkBack_served (ha : a.IsLinear) (hc : c.Serves a text) (hyears : c.YearsFit)
    (hs : s.db.IsWorking) (hk : a.names[k]? = some sha) (n : Nat) :
    ∃ x next t, c.walkBack n sha s = (.ok (x, next), t) ∧ x.commits = min (k + 1) n ∧
      a.Ahead next (k + 1 - n) ∧ c.Gathers a text (Set.Ico (k + 1 - n) (k + 1)) s t := by
  induction n generalizing s sha k with
  | zero =>
    exact ⟨{}, .at sha, s, rfl, rfl, .at hk, (Gathers.none hs).congr fun k => by simp⟩
  | succ n ih =>
    obtain ⟨x, t, hcommit, hparent, hfirst⟩ := processCommit_served ha hc hyears hs hk .backfill
    cases k with
    | zero =>
      -- the first commit has no parent, so the walk ends before its limit
      rw [if_pos rfl] at hparent
      refine ⟨x.stats, .done, t, ?_, ?_, ?_, hfirst.congr fun k => ?_⟩
      · rw [walkBack_succ, bind_run, hcommit]
        simp only [onward, hparent]
        rfl
      · exact (Nat.min_eq_left (Nat.succ_le_succ (Nat.zero_le n))).symm
      · rw [Nat.succ_sub_succ, Nat.zero_sub]
        exact .done
      · simp only [Set.mem_singleton_iff, Set.mem_Ico]
        omega
    | succ k =>
      have hlt := Archive.lt_of_names hk
      have hbefore : a.names[k]? = some a.names[k] := List.getElem?_eq_getElem (by omega)
      rw [if_neg (Nat.succ_ne_zero k), Nat.add_sub_cancel, hbefore] at hparent
      obtain ⟨y, next, u, hwalk, hy, hahead, hlater⟩ := ih hfirst.works hbefore
      refine ⟨x.stats + y, next, u, ?_, ?_, ?_, (hfirst.trans hlater).congr fun k' => ?_⟩
      · rw [walkBack_succ, bind_run, hcommit]
        simp only [onward, hparent, bind_run, hwalk]
        rfl
      · have hsum : (x.stats + y).commits = 1 + y.commits := rfl
        omega
      · rwa [Nat.succ_sub_succ]
      · simp only [Set.mem_union, Set.mem_singleton_iff, Set.mem_Ico]
        omega

/-- Once the commits that wait are known, it is known what the incremental pass does. -/
theorem incremental_served (ha : a.IsLinear) (hc : c.Serves a text) (hyears : c.YearsFit)
    (hs : s.db.IsWorking) (hp : s.db.positions = some p) (hn : n ≠ 0) (hperPage : c.perPage n = n)
    (hpending : (newer p.checkpoint.latest (a.page n 1)).reverse = a.names.drop j) :
    ∃ x t, c.incremental n s = (.ok x, t) ∧ x.commits = a.names.length - j ∧
      t.db.positions = some (p.advance a.names.getLast?) ∧
      c.Gathers a text (Set.Ico j a.names.length) s t := by
  obtain ⟨x, t, hcatch, hx, hgathers⟩ := catchUp_served ha hc hyears
    (s := s.call (.list (c.perPage n) 1)) hs (Eq.refl (a.names.drop j))
  rw [← hpending, hperPage] at hcatch
  have hhead : (a.page n 1).head?.map CommitSummary.sha = a.names.getLast? := by
    rw [← List.head?_map, Archive.names_page, List.head?_take, if_neg hn, List.head?_reverse]
  have hrun := incremental_run hn hp hs.refusal (hc.answers.list s.calls (c.perPage n) 1)
    (by rw [hperPage]; exact hcatch)
  rw [if_pos rfl, hperPage, hhead] at hrun
  refine ⟨x, _, hrun, by rw [hx, List.length_drop], rfl, ?_⟩
  exact hgathers.of_blobs rfl rfl { hgathers.works with positions := ⟨_, rfl⟩ }

end Crawler

/-- So many commits are still to be processed on the way back from a position: all behind the head
if the way back has not begun. -/
inductive Archive.Remains (a : Archive) : BackfillCursor → Nat → Prop
  | unset {m : Nat} (hm : a.names.length = m + 1) : a.Remains .unset m
  | ahead {next : BackfillCursor} {m : Nat} (h : a.Ahead next m) : a.Remains next m

/-- The way back is over exactly if no commit is ahead. -/
theorem Archive.Ahead.eq_done_iff {a : Archive} {next : BackfillCursor} {m : Nat}
    (h : a.Ahead next m) : next = .done ↔ m = 0 := by
  cases h with
  | «at» => simp
  | done => simp

theorem Archive.IsLinear.isStorable {a : Archive} (ha : a.IsLinear) {next : BackfillCursor}
    {m : Nat} (h : a.Ahead next m) : next.IsStorable := by
  rintro sha rfl
  cases h with
  | «at» hk => exact ha.proper _ (Archive.mem_of_names hk)

namespace Crawler

variable {c : Crawler} {a : Archive} {text : String → String} {s t u : Crawl} {p : Positions}
  {limits : PassLimits} {sha : String} {i j k m n : Nat}

/-- The walk from a commit on stores where it has stopped. -/
theorem backfillFrom_served (ha : a.IsLinear) (hc : c.Serves a text) (hyears : c.YearsFit)
    (hs : s.db.IsWorking) (hp : s.db.positions = some p) (hk : a.names[k]? = some sha) (n : Nat) :
    ∃ x q t, c.backfillFrom n sha s = (.ok x, t) ∧ x.commits = min (k + 1) n ∧
      t.db.positions = some q ∧ q.checkpoint.latest = p.checkpoint.latest ∧
      a.Ahead q.checkpoint.next (k + 1 - n) ∧
      c.Gathers a text (Set.Ico (k + 1 - n) (k + 1)) s t := by
  obtain ⟨x, next, t, hwalk, hx, hahead, hgathers⟩ := walkBack_served ha hc hyears hs hk n
  have hread : ({ p with next := next.stored? } : Positions).checkpoint.next = next :=
    (ha.isStorable hahead).next_checkpoint p
  refine ⟨x, { p with next := next.stored? }, _, backfillFrom_run hp (hs.refusal _) hwalk, hx, rfl,
    rfl, hread.symm ▸ hahead, ?_⟩
  exact hgathers.of_blobs rfl rfl { hgathers.works with positions := ⟨_, rfl⟩ }

/-- The details of the anchor tell where the way back begins. -/
theorem backfillStart_run {d : CommitDetail} (hp : s.db.positions = some p)
    (hopen : s.db.RefusesNothing) (hd : c.remote.commit s.calls sha = .ok d) :
    c.backfillStart (some sha) s = match d.firstParent? with
      | some parent => (.ok (some parent), s.call (.commit sha))
      | none => (.ok none, (s.call (.commit sha)).withPositions
          { p with next := BackfillCursor.done.stored? }) := by
  have hanchor : c.anchor (some sha) s = (.ok (some sha), s) := rfl
  rw [backfillStart, bind_run, hanchor]
  simp only [bind_run, commit_run, hd]
  cases d.firstParent? with
  | some parent => rfl
  | none =>
    simp only [bind_run, saveNext_run (s := s.call (.commit sha)) hp (hopen _)]
    rfl

/-- Once it is known how many commits remain on the way back, it is known what the backfill pass
does. -/
theorem backfill_served (ha : a.IsLinear) (hc : c.Serves a text) (hyears : c.YearsFit)
    (hs : s.db.IsWorking) (hp : s.db.positions = some p)
    (hlatest : p.checkpoint.latest = a.names.getLast?) (hm : a.Remains p.checkpoint.next m)
    (hn : n ≠ 0) :
    ∃ x q t, c.backfill n s = (.ok x, t) ∧ x.commits = min m n ∧ t.db.positions = some q ∧
      q.checkpoint.latest = a.names.getLast? ∧ a.Ahead q.checkpoint.next (m - n) ∧
      c.Gathers a text (Set.Ico (m - n) m) s t := by
  generalize hnext : p.checkpoint.next = next at hm
  cases hm with
  | unset hlen =>
    -- the anchor is the head
    obtain ⟨head, hk⟩ : ∃ head, a.names[m]? = some head :=
      ⟨_, List.getElem?_eq_getElem (by omega)⟩
    have hhead : a.names.getLast? = some head := by
      rw [List.getLast?_eq_getElem?, hlen, Nat.add_sub_cancel, hk]
    obtain ⟨d, hfind⟩ := Archive.IsLinear.isSome_find? hk
    have hfirst := ha.firstParent?_eq (ha.find?_eq hk hfind)
    have hstart := backfillStart_run hp hs.refusal (hc.answers.commit s.calls _ d hfind)
    rw [backfill_of_unset hn hp hnext, hlatest, hhead, bind_run, hstart]
    cases m with
    | zero =>
      -- the head is the first commit: the pass processes nothing and stores that it is done
      rw [if_pos rfl] at hfirst
      have hdone := BackfillCursor.isStorable_done.next_checkpoint p
      rw [hfirst]
      refine ⟨{}, { p with next := BackfillCursor.done.stored? }, _, rfl, (Nat.zero_min n).symm, rfl,
        hlatest.trans hhead, ?_, ?_⟩
      · rw [hdone, Nat.zero_sub]
        exact .done
      · exact Gathers.of_blobs ((Gathers.none hs).congr fun k => by simp) rfl rfl
          { hs with positions := ⟨_, rfl⟩ }
    | succ k =>
      have hparent : a.names[k]? = some a.names[k] := List.getElem?_eq_getElem (by omega)
      rw [if_neg (Nat.succ_ne_zero k), Nat.add_sub_cancel, hparent] at hfirst
      rw [hfirst, ← hhead, ← hlatest]
      obtain ⟨x, q, t, hrun, hx, hq, hmark, hahead, hgathers⟩ :=
        backfillFrom_served ha hc hyears (s := s.call (.commit head)) hs hp hparent n
      exact ⟨x, q, t, hrun, hx, hq, hmark, hahead, hgathers.of_blobs rfl rfl hgathers.works⟩
  | ahead hahead =>
    cases hahead with
    | @«at» k sha hk =>
      rw [backfill_of_at hn hp hnext, ← hlatest]
      exact backfillFrom_served ha hc hyears hs hp hk n
    | done =>
      refine ⟨{}, p, s, backfill_of_done hp hnext, (Nat.zero_min n).symm, hp, hlatest, ?_, ?_⟩
      · rw [hnext, Nat.zero_sub]
        exact .done
      · exact (Gathers.none hs).congr fun k => by simp

/-! ### Runs -/

/-- Where a crawl stands: the commits from number `j` on wait for an incremental pass over `i`
commits, and `m` commits remain on the way back. -/
structure Stage (a : Archive) (i : Nat) (s : Crawl) (j m : Nat) : Prop where
  works : s.db.IsWorking
  stands : ∃ p, s.db.positions = some p ∧
    (newer p.checkpoint.latest (a.page i 1)).reverse = a.names.drop j ∧
      a.Remains p.checkpoint.next m

/-- From nothing, as many commits wait as the pass goes through, and all behind the head remain. -/
theorem stage_of_empty (ha : a.commits ≠ []) (hs : s.db.IsWorking) (hp : s.db.positions = some p)
    (hempty : p.checkpoint = {}) :
    Stage a i s (a.commits.length - i) (a.commits.length - 1) where
  works := hs
  stands := by
    have hlen : a.names.length = a.commits.length := List.length_map _
    have hpos := List.length_pos_of_ne_nil ha
    refine ⟨p, hp, ?_, ?_⟩
    · rw [hempty, ← hlen]
      exact a.reverse_newer_none i
    · rw [hempty]
      exact .unset (by omega)

/-- Once the mark is at the head, no commit waits. -/
theorem pending_of_head (ha : a.IsLinear) {head : String} (hhead : a.names.getLast? = some head) :
    (newer (some head) (a.page i 1)).reverse = a.names.drop a.names.length := by
  have hk : a.names[a.names.length - 1]? = some head := List.getLast?_eq_getElem? ▸ hhead
  have hlt := Archive.lt_of_names hk
  rw [ha.reverse_newer hk]
  congr 1
  omega

/-- A run processes the commits that wait, and goes the way back by its limit. -/
theorem run_of_stage (ha : a.IsLinear) (hne : a.commits ≠ []) (hc : c.Serves a text)
    (hyears : c.YearsFit) (hi : limits.incremental ≠ 0) (hb : limits.backfill ≠ 0)
    (hperPage : c.perPage limits.incremental = limits.incremental)
    (hs : Stage a limits.incremental s j m) :
    ∃ x y q t, c.run limits s = (.ok ⟨x, y⟩, t) ∧ x.commits = a.names.length - j ∧
      y.commits = min m limits.backfill ∧
      Stage a limits.incremental t a.names.length (m - limits.backfill) ∧
      t.db.positions = some q ∧ a.Ahead q.checkpoint.next (m - limits.backfill) ∧
      c.Gathers a text (Set.Ico j a.names.length ∪ Set.Ico (m - limits.backfill) m) s t := by
  obtain ⟨p, hp, hpending, hremains⟩ := hs.stands
  obtain ⟨head, hhead⟩ : ∃ head, a.names.getLast? = some head := by
    have hnames : a.names ≠ [] := fun hnil => hne (List.map_eq_nil_iff.mp hnil)
    exact ⟨_, List.getLast?_eq_some_getLast hnames⟩
  have hproper := (ha.proper head (List.mem_of_getLast? hhead)).1
  obtain ⟨x, u, hfirst, hx, hu, hgathers⟩ := incremental_served ha hc hyears
    (s := { s with cache := {} }) hs.works hp hi hperPage hpending
  -- the first pass moves the mark to the head, and nothing on the way back
  have hcp : (p.advance (some head)).checkpoint =
      ⟨(some head).or p.checkpoint.latest, p.checkpoint.next⟩ :=
    Positions.checkpoint_advance fun sha hsha => Option.some.inj hsha ▸ hproper
  rw [hhead] at hu
  obtain ⟨y, q, v, hsecond, hy, hq, hmark, hahead, hgathers'⟩ := backfill_served ha hc hyears
    hgathers.works hu (by rw [hcp, hhead, Option.some_or])
    (by rw [hcp]; exact hremains) hb
  refine ⟨x, y, q, { v with cache := s.cache }, ?_, hx, hy, ⟨hgathers'.works, q, hq, ?_, .ahead hahead⟩,
    hq, hahead, (hgathers.trans hgathers').of_blobs rfl rfl hgathers'.works⟩
  · simp only [run, CrawlStep.withFreshCache, bind_run, CrawlStep.during, hfirst, hsecond]
    rfl
  · rw [hmark, hhead]
    exact pending_of_head ha hhead

end Crawler

/-! ### Runs in a row -/

/-- How many runs that go the way back by `b` commits it takes to process `m`, one at least. -/
def rounds (m b : Nat) : Nat := max 1 (m ⌈/⌉ b)

theorem rounds_of_le {m b : Nat} (hb : b ≠ 0) (h : m ≤ b) : rounds m b = 1 := by
  refine Nat.max_eq_left ?_
  rw [ceilDiv_le_iff_le_smul (Nat.pos_of_ne_zero hb), smul_eq_mul, Nat.mul_one]
  exact h

theorem rounds_of_lt {m b : Nat} (hb : b ≠ 0) (h : b < m) : rounds m b = rounds (m - b) b + 1 := by
  have hpos := Nat.pos_of_ne_zero hb
  have hstep : m ⌈/⌉ b = (m - b) ⌈/⌉ b + 1 := by
    rw [Nat.ceilDiv_eq_add_pred_div, Nat.ceilDiv_eq_add_pred_div, ← Nat.add_div_right _ hpos]
    congr 1
    omega
  have hone : 1 ≤ (m - b) ⌈/⌉ b := by
    rw [Nat.one_le_iff_ne_zero, ne_eq, ← Nat.le_zero, ceilDiv_le_iff_le_smul hpos, smul_eq_mul]
    omega
  unfold rounds
  omega

/-- The whole way back has been gone once that many runs have been made. -/
theorem le_mul_rounds {m b : Nat} (hb : b ≠ 0) : m ≤ b * rounds m b := by
  have h := (ceilDiv_le_iff_le_smul (Nat.pos_of_ne_zero hb)).mp (Nat.le_max_right 1 (m ⌈/⌉ b))
  exact h

namespace Crawler

variable {c : Crawler} {a : Archive} {text : String → String} {s t u : Crawl} {p : Positions}
  {limits : PassLimits} {i j m : Nat}

/-- After a run it is seen whether the first commit has been reached, and whether anything has been
done. -/
theorem iterate_succ_run {stats : RunStats} (hrun : c.run limits s = (.ok stats, t))
    (hp : t.db.positions = some p) (n : Nat) :
    c.iterate limits (n + 1) s =
      if p.checkpoint.next = .done then (.ok ⟨stats, 1, .backfillComplete⟩, t)
      else if stats.isZero then (.ok ⟨stats, 1, .noProgress⟩, t)
      else (do return (← c.iterate limits n).after stats : CrawlStep _) t := by
  have hstate : CrawlStep.state.during .walker t = (.ok p.checkpoint.state, t) := by
    rw [CrawlStep.during, CrawlStep.state, bind_run, checkpoint_run hp]
    rfl
  rw [iterate, bind_run, hrun]
  dsimp only
  rw [bind_run, hstate]
  dsimp only
  by_cases hdone : p.checkpoint.next = .done
  · rw [if_pos hdone, if_pos (Checkpoint.state_eq_done.mpr hdone)]
    rfl
  · rw [if_neg hdone, if_neg (mt Checkpoint.state_eq_done.mp hdone)]
    cases stats.isZero <;> rfl

/-- What at most `n` runs have led to, if before them the commits from number `j` on waited and `m`
commits remained on a way back that each run goes by `b`. -/
structure Reaches (c : Crawler) (a : Archive) (text : String → String) (b j m n : Nat) (s : Crawl)
    (o : IterationOutcome) (t : Crawl) : Prop where
  runs : o.runs = min (rounds m b) n
  reason : o.reason = if rounds m b ≤ n then .backfillComplete else .maxIterationsReached
  newer : o.totals.incremental.commits = a.names.length - j
  older : o.totals.backfill.commits = min m (b * o.runs)
  next : ∃ p, t.db.positions = some p ∧ (p.checkpoint.next = .done ↔ rounds m b ≤ n)
  gathers : c.Gathers a text (Set.Ico j a.names.length ∪ Set.Ico (m - b * o.runs) m) s t

section Reaches

variable {b : Nat} {x y : PassStats} {o : IterationOutcome} (hb : b ≠ 0)
  (hx : x.commits = a.names.length - j) (hy : y.commits = min m b)
  (hp : t.db.positions = some p) (hahead : a.Ahead p.checkpoint.next (m - b))
  (hgathers : c.Gathers a text (Set.Ico j a.names.length ∪ Set.Ico (m - b) m) s t)

include hb hx hy hp hahead hgathers

/-- A run that goes the whole way back is the last one. -/
theorem reaches_of_le (hm : m ≤ b) (n : Nat) :
    c.Reaches a text b j m (n + 1) s ⟨⟨x, y⟩, 1, .backfillComplete⟩ t := by
  have hone : rounds m b = 1 := rounds_of_le hb hm
  have hlast : rounds m b ≤ n + 1 := by omega
  exact {
    runs := by dsimp only; omega
    reason := (if_pos hlast).symm
    newer := hx
    older := by rw [Nat.mul_one]; exact hy
    next := ⟨p, hp, iff_of_true (hahead.eq_done_iff.mpr (Nat.sub_eq_zero_of_le hm)) hlast⟩
    gathers := by rw [Nat.mul_one]; exact hgathers }

/-- A run that does not go the whole way back may be the only one there is. -/
theorem reaches_of_lt (hm : b < m) :
    c.Reaches a text b j m 1 s (.after ⟨x, y⟩ ⟨{}, 0, .maxIterationsReached⟩) t := by
  have hmore : ¬ rounds m b ≤ 1 := by
    have := rounds_of_lt hb hm
    have : 1 ≤ rounds (m - b) b := Nat.le_max_left ..
    omega
  have hnext : p.checkpoint.next ≠ .done := mt hahead.eq_done_iff.mp (Nat.sub_ne_zero_of_lt hm)
  exact {
    runs := (Nat.min_eq_right (Nat.le_of_not_le hmore)).symm
    reason := (if_neg hmore).symm
    newer := hx
    older := by rw [IterationOutcome.after, Nat.zero_add, Nat.mul_one]; exact hy
    next := ⟨p, hp, iff_of_false hnext hmore⟩
    gathers := by rw [IterationOutcome.after, Nat.zero_add, Nat.mul_one]; exact hgathers }

omit hp hahead in
/-- After a run that does not go the whole way back, the runs that follow go on from there. -/
theorem Reaches.after (hm : b < m)
    (h : c.Reaches a text b a.names.length (m - b) n t o u) :
    c.Reaches a text b j m (n + 1) s (o.after ⟨x, y⟩) u := by
  have hone : rounds m b = rounds (m - b) b + 1 := rounds_of_lt hb hm
  have hle : rounds m b ≤ n + 1 ↔ rounds (m - b) b ≤ n := by omega
  have hmul : b * (o.runs + 1) = b + b * o.runs := by rw [Nat.mul_succ, Nat.add_comm]
  have hnewer := h.newer
  have holder := h.older
  exact {
    runs := by
      have hruns := h.runs
      dsimp only [IterationOutcome.after]
      omega
    reason := by
      simp only [hle]
      exact h.reason
    newer := by
      change x.commits + o.totals.incremental.commits = _
      omega
    older := by
      change y.commits + o.totals.backfill.commits = min m (b * (o.runs + 1))
      omega
    next := by
      simp only [hle]
      exact h.next
    gathers := (hgathers.trans h.gathers).congr fun k => by
      change _ ↔ k ∈ Set.Ico j a.names.length ∪ Set.Ico (m - b * (o.runs + 1)) m
      simp only [Set.mem_union, Set.mem_Ico]
      omega }

end Reaches

/-- Runs in a row go on until the first commit has been reached, or their number is used up. -/
theorem iterate_of_stage (ha : a.IsLinear) (hne : a.commits ≠ []) (hc : c.Serves a text)
    (hyears : c.YearsFit) (hi : limits.incremental ≠ 0) (hb : limits.backfill ≠ 0)
    (hperPage : c.perPage limits.incremental = limits.incremental)
    (hs : Stage a limits.incremental s j m) (n : Nat) :
    ∃ o t, c.iterate limits (n + 1) s = (.ok o, t) ∧
      c.Reaches a text limits.backfill j m (n + 1) s o t := by
  -- each case has a run in front, so the induction is on the runs that may follow it
  induction n using Nat.strongRecOn generalizing s j m with
  | ind n ih =>
  obtain ⟨x, y, p, t, hrun, hx, hy, hstage, hp, hahead, hgathers⟩ :=
    run_of_stage ha hne hc hyears hi hb hperPage hs
  rw [iterate_succ_run hrun hp]
  by_cases hm : m ≤ limits.backfill
  · rw [if_pos (hahead.eq_done_iff.mpr (Nat.sub_eq_zero_of_le hm))]
    exact ⟨_, t, rfl, reaches_of_le hb hx hy hp hahead hgathers hm n⟩
  · have hlt : limits.backfill < m := Nat.lt_of_not_le hm
    -- commits on the way back have been processed, so the run has not been idle
    have hbusy : RunStats.isZero ⟨x, y⟩ = false := by
      have hpos : y ≠ {} := by
        rintro rfl
        have hzero : (0 : Nat) = min m limits.backfill := hy
        omega
      simp [RunStats.isZero, PassStats.isZero, hpos]
    rw [if_neg (mt hahead.eq_done_iff.mp (Nat.sub_ne_zero_of_lt hlt)), hbusy,
      if_neg Bool.false_ne_true]
    cases n with
    | zero => exact ⟨_, t, rfl, reaches_of_lt hb hx hy hp hahead hgathers hlt⟩
    | succ n =>
      obtain ⟨o, u, hiterate, ho⟩ := ih n (Nat.lt_succ_self n) hstage
      refine ⟨o.after ⟨x, y⟩, u, ?_, Reaches.after hb hx hy hgathers hlt ho⟩
      rw [bind_run, hiterate]
      rfl

/-! ### A full ingestion -/

theorem status_run (hp : s.db.positions = some p) {bs : List String}
    (hbs : s.db.blobs = some bs) :
    CrawlStep.status s = (.ok ⟨p.checkpoint.state, p.checkpoint.latest,
      p.checkpoint.next.stored?, bs.length⟩, s) := by
  have hcount : query .checkpoint Database.blobCount s = (.ok bs.length, s) := by
    rw [query, Database.blobCount, hbs]
    rfl
  rw [CrawlStep.status, bind_run, checkpoint_run hp]
  simp only [bind_run, hcount]
  rfl

/-- The limits with which a full ingestion makes its runs. -/
def ingestionLimits (c : Crawler) (o : FullOptions) : PassLimits :=
  o.limits.clamp (max c.settings.pageSize 1)

/-- A full ingestion makes its runs, from nothing if it is asked to, and reports where it stands. -/
theorem fullIngestion_run {o : FullOptions} {outcome : IterationOutcome} {bs : List String}
    (hstart : if o.reset then CrawlStep.reset s = (.ok (), t) else s = t)
    (hiterate : c.iterate (c.ingestionLimits o) (max o.maxIterations 1) t = (.ok outcome, u))
    (hp : u.db.positions = some p) (hbs : u.db.blobs = some bs) :
    c.fullIngestion o s = (.ok ⟨outcome.reason, outcome.runs, o.maxIterations,
      c.ingestionLimits o, outcome.totals, p.checkpoint.state, p.checkpoint.latest,
      p.checkpoint.next.stored?, bs.length⟩, u) := by
  have hstatus := status_run hp hbs
  have ingested : c.fullIngestion { o with reset := false } t = (.ok ⟨outcome.reason, outcome.runs,
      o.maxIterations, c.ingestionLimits o, outcome.totals, p.checkpoint.state,
      p.checkpoint.latest, p.checkpoint.next.stored?, bs.length⟩, u) := by
    change (c.iterate (c.ingestionLimits o) _ >>= fun outcome =>
      CrawlStep.status >>= fun final => pure _) t = _
    rw [bind_run, hiterate]
    dsimp only
    rw [bind_run, hstatus]
    rfl
  obtain ⟨maxIterations, limits, reset⟩ := o
  cases reset with
  | false =>
    obtain rfl : s = t := hstart
    exact ingested
  | true =>
    have hreset : CrawlStep.reset s = (.ok (), t) := hstart
    have hfirst : c.fullIngestion ⟨maxIterations, limits, true⟩ =
        CrawlStep.reset >>= fun _ => c.fullIngestion ⟨maxIterations, limits, false⟩ := rfl
    rw [hfirst, bind_run, hreset]
    exact ingested

/-- The commits with the numbers are all there are. -/
theorem exists_yields_iff {ks : Set Nat} (hks : ∀ k < a.commits.length, k ∈ ks) (blob : String) :
    (∃ k ∈ ks, a.Yields c.settings text k blob) ↔ ∃ d ∈ a.commits, ∃ f ∈ c.settings.snapshots d,
      f.blob = some blob ∧ ¬ c.settings.Undecodable (text f.url) := by
  constructor
  · rintro ⟨k, -, d, hd, hyields⟩
    exact ⟨d, List.mem_of_getElem? hd, hyields⟩
  · rintro ⟨d, hd, hyields⟩
    obtain ⟨k, hk, hdk⟩ := List.mem_iff_getElem.mp hd
    exact ⟨k, hks k hk, d, hdk ▸ List.getElem?_eq_getElem hk, hyields⟩

/-- A full ingestion begins with empty tables if it is asked to, or if they were empty before. -/
theorem exists_start {o : FullOptions} (hs : s.db.IsWorking)
    (hempty : o.reset = true ∨
      (∃ p, s.db.positions = some p ∧ p.checkpoint = {}) ∧ s.db.blobs = some []) :
    ∃ t : Crawl, (if o.reset then CrawlStep.reset s = (.ok (), t) else s = t) ∧ t.db.IsWorking ∧
      (∃ p, t.db.positions = some p ∧ p.checkpoint = {}) ∧ t.db.blobs = some [] := by
  cases hreset : o.reset with
  | true =>
    obtain ⟨p, hp⟩ := hs.positions
    obtain ⟨bs, hbs⟩ := hs.blobs
    exact ⟨s.forgotten, reset_run hs.refusal hp hbs,
      { hs with positions := ⟨_, rfl⟩, blobs := ⟨_, rfl⟩ },
      ⟨{}, rfl, rfl⟩, rfl⟩
  | false =>
    obtain ⟨hp, hbs⟩ := hempty.resolve_left (by rw [hreset]; exact Bool.false_ne_true)
    exact ⟨s, rfl, hs, hp, hbs⟩

/-- Runs that have gone the whole way back, after an incremental pass that went through the head,
have dealt with the snapshots of the whole history. -/
theorem Reaches.mem_blobs_iff {b count : Nat} {o : IterationOutcome} {bs : List String}
    (h : c.Reaches a text b (count - i) (count - 1) n s o t) (hcount : a.commits.length = count)
    (hi : i ≠ 0) (hwhole : count - 1 ≤ b * o.runs) (hs : s.db.blobs = some [])
    (hbs : t.db.blobs = some bs) (blob : String) :
    blob ∈ bs ↔ ∃ d ∈ a.commits, ∃ f ∈ c.settings.snapshots d,
      f.blob = some blob ∧ ¬ c.settings.Undecodable (text f.url) := by
  have hlen : a.names.length = a.commits.length := List.length_map _
  have hall : ∀ k < a.commits.length, k ∈ Set.Ico (count - i) a.names.length ∪
      Set.Ico (count - 1 - b * o.runs) (count - 1) := by
    intro k hk
    simp only [Set.mem_union, Set.mem_Ico]
    omega
  have hsettled : t.Settled blob ↔ blob ∈ bs := by
    simp [Crawl.settled_iff, hbs]
  have hnone : ¬ s.Settled blob := by
    simp [Crawl.settled_iff, hs]
  rw [← hsettled, h.gathers.settled, or_iff_right hnone]
  exact exists_yields_iff hall blob

/-- A full ingestion of a linear history goes up to its first commit, unless the runs are used up
before, and once it has got there, exactly the snapshots that can be unpacked have been dealt
with. -/
theorem fullIngestion_of_linear {o : FullOptions} (ha : a.IsLinear) (hne : a.commits ≠ [])
    (hc : c.Serves a text) (hyears : c.YearsFit) (hs : s.db.IsWorking)
    (hempty : o.reset = true ∨
      (∃ p, s.db.positions = some p ∧ p.checkpoint = {}) ∧ s.db.blobs = some [])
    (hi : 1 ≤ (c.ingestionLimits o).incremental) (hb : 1 ≤ (c.ingestionLimits o).backfill) :
    let count := a.commits.length
    let limits := c.ingestionLimits o
    let needed := max 1 ((count - 1) ⌈/⌉ limits.backfill)
    ∃ report t bs, c.fullIngestion o s = (.ok report, t) ∧ t.db.blobs = some bs ∧
      report.iterationsRun = min needed (max 1 o.maxIterations) ∧
      (report.reason, report.result) = (if needed ≤ max 1 o.maxIterations
        then (.backfillComplete, "success") else (.maxIterationsReached, "partial")) ∧
      report.totals.incremental.commits = min count limits.incremental ∧
      report.totals.backfill.commits = min (count - 1) (limits.backfill * report.iterationsRun) ∧
      (report.reason = .backfillComplete → ∀ blob, blob ∈ bs ↔
        ∃ d ∈ a.commits, ∃ f ∈ c.settings.snapshots d,
          f.blob = some blob ∧ ¬ c.settings.Undecodable (text f.url)) := by
  intro count limits needed
  obtain ⟨t, hstart, hworks, ⟨p, hp, hfirst⟩, hblobs⟩ := exists_start hs hempty
  have hperPage : c.perPage limits.incremental = limits.incremental := by
    change min (min _ _) _ = min _ _
    rw [Nat.min_assoc, Nat.min_self]
  obtain ⟨n, hn⟩ : ∃ n, max o.maxIterations 1 = n + 1 := ⟨max o.maxIterations 1 - 1, by omega⟩
  obtain ⟨outcome, u, hiterate, hreaches⟩ := iterate_of_stage ha hne hc hyears
    (Nat.ne_of_gt hi) (Nat.ne_of_gt hb) hperPage (stage_of_empty hne hworks hp hfirst) n
  obtain ⟨bs, hbs⟩ := hreaches.gathers.works.blobs
  obtain ⟨q, hq, hnext⟩ := hreaches.next
  rw [← hn, Nat.max_comm] at hreaches hnext
  have hruns : outcome.runs = min needed (max 1 o.maxIterations) := hreaches.runs
  have hreason : outcome.reason = (if needed ≤ max 1 o.maxIterations then .backfillComplete
    else .maxIterationsReached) := hreaches.reason
  have hdone : q.checkpoint.state = .backfillDone ↔ needed ≤ max 1 o.maxIterations :=
    Checkpoint.state_eq_done.trans hnext
  refine ⟨_, u, bs, fullIngestion_run hstart (hn ▸ hiterate) hq hbs, hbs, hruns, ?_, ?_,
    hreaches.older, fun hcomplete => ?_⟩
  · simp only [FullReport.result, FullReport.isComplete, beq_iff_eq, hreason, hdone]
    split <;> rfl
  · have hlen : a.names.length = count := List.length_map _
    have hnewer : outcome.totals.incremental.commits =
        a.names.length - (count - limits.incremental) := hreaches.newer
    dsimp only
    omega
  · -- only a way back that is over counts as complete
    have hneeded : needed ≤ max 1 o.maxIterations := by
      by_contra hmore
      rw [if_neg hmore] at hreason
      cases hreason.symm.trans hcomplete
    have hwhole : count - 1 ≤ limits.backfill * outcome.runs := by
      rw [hruns, Nat.min_eq_left hneeded]
      exact le_mul_rounds (Nat.ne_of_gt hb)
    exact hreaches.mem_blobs_iff rfl (Nat.ne_of_gt hi) hwhole hblobs hbs

/-! ### A small example -/

/-- The files of the small history are all empty. -/
theorem serves_small : (small .small).Serves .small fun _ => "" where
  answers := answers_small rfl
  raw d hd f hf past := by
    have hraw : ∀ d ∈ Archive.small.commits, ∀ f ∈ (small .small).settings.snapshots d,
        Archive.small.texts.lookup f.url = some "" := by decide +kernel
    have hin : Outage.raw f.url ∉ Archive.small.outages := List.not_mem_nil
    change Archive.small.answer (.raw f.url) f.url (Archive.small.texts.lookup f.url) = _
    rw [hraw d hd f hf, Archive.answer, if_neg hin]

/-- Three commits, of which each run goes back by one. -/
theorem fullIngestion_of_linear_small :
    let s : Crawl := { db := Database.fresh }
    let o : FullOptions := ⟨5, ⟨2, 1⟩, false⟩
    Archive.small.IsLinear ∧ Archive.small.commits ≠ [] ∧
    (small .small).Serves .small (fun _ => "") ∧ (small .small).YearsFit ∧ s.db.IsWorking ∧
    s.db.positions = some {} ∧ Positions.checkpoint {} = {} ∧ s.db.blobs = some [] ∧
    (small .small).ingestionLimits o = ⟨2, 1⟩ ∧
    ∃ report t bs, (small .small).fullIngestion o s = (.ok report, t) ∧ t.db.blobs = some bs ∧
      report.iterationsRun = 2 ∧ (report.reason, report.result) = (.backfillComplete, "success") ∧
      report.totals.incremental.commits = 2 ∧ report.totals.backfill.commits = 2 ∧
      ∀ blob, blob ∈ bs ↔ ∃ d ∈ Archive.small.commits,
        ∃ f ∈ (small .small).settings.snapshots d,
          f.blob = some blob ∧ ¬ (small .small).settings.Undecodable "" := by
  intro s o
  have hne : Archive.small.commits ≠ [] := by decide +kernel
  have hempty : Positions.checkpoint {} = {} := by decide +kernel
  have hlimits : (small .small).ingestionLimits o = ⟨2, 1⟩ := by decide +kernel
  obtain ⟨report, t, bs, hrun, hbs, hruns, hreason, hnewer, holder, hblobs⟩ :=
    fullIngestion_of_linear (s := s) (o := o) Archive.isLinear_small hne serves_small
      (yearsFit_small _) Database.isWorking_fresh (.inr ⟨⟨{}, rfl, hempty⟩, rfl⟩)
      (by rw [hlimits]; decide) (by rw [hlimits])
  have hneeded : max 1 ((Archive.small.commits.length - 1) ⌈/⌉
      ((small .small).ingestionLimits o).backfill) = 2 := by
    rw [hlimits]
    decide +kernel
  rw [hneeded] at hruns hreason
  rw [hruns] at holder
  rw [hlimits] at hnewer holder
  have hcomplete : (report.reason, report.result) = (.backfillComplete, "success") := hreason
  exact ⟨Archive.isLinear_small, hne, serves_small, yearsFit_small _, Database.isWorking_fresh, rfl,
    hempty, rfl, hlimits, report, t, bs, hrun, hbs, hruns, hcomplete, hnewer, holder,
    hblobs (congrArg Prod.fst hcomplete)⟩

end Crawler

end Harvest
