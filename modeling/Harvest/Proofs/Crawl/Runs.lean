import Harvest.Proofs.Crawl.Coverage

/-!
# Runs against a remote that answers

A remote that answers every request about commits leaves a run no reason to stop early: the
incremental pass goes through its whole page and moves the mark to the head. In particular a run
that has processed nothing has found the mark at the head already, so if the way back is over as
well, the positions cover the whole history.

## Main definitions

* `Remote.Answers` — every request about commits is answered
* `World.Runs` — what can become of a crawl in which nothing but runs of a certain kind is made

## Main results

* `World.Covered.incremental_answered` — what the incremental pass does if everything is answered
* `World.Reachable.whole` — what an idle run at the end of the way back tells
-/

namespace Harvest

open CrawlStep

/-- Every request about the commits of an archive is answered. -/
structure Remote.Answers (r : Remote) (a : Archive) : Prop where
  list : ∀ past n page, r.list past n page = .ok (a.page n page)
  commit : ∀ past sha d, a.find? sha = some d → r.commit past sha = .ok d

theorem Remote.Answers.exists_commit {r : Remote} {a : Archive} {sha : String} (h : r.Answers a)
    (hsha : sha ∈ a.names) (past : List RemoteCall) : ∃ d, r.commit past sha = .ok d := by
  obtain ⟨k, hk⟩ := List.mem_iff_getElem?.mp hsha
  obtain ⟨d, hd⟩ := Archive.IsLinear.isSome_find? hk
  exact ⟨d, h.commit past sha d hd⟩

/-- An archive answers as long as nothing is out of order. -/
theorem Crawler.answers_small {a : Archive} (ha : a.outages = []) : (small a).remote.Answers a where
  list _ n page := by simp [small, Archive.remote, Archive.answer, ha]
  commit _ sha d hd := by simp [small, Archive.remote, Archive.answer, ha, hd]

theorem Checkpoint.state_eq_done {cp : Checkpoint} : cp.state = .backfillDone ↔ cp.next = .done := by
  obtain ⟨latest, next⟩ := cp
  cases latest <;> cases next <;> simp [state]

namespace World

variable {σ : CrawlSettings} {P : World → Crawler → PassLimits → Prop} {w : World} {c : Crawler}
  {limit : Nat} {limits : PassLimits}

/-- What can become of a crawl that starts from nothing, while its history grows at the head and runs
of a certain kind are made. -/
inductive Runs (σ : CrawlSettings) (P : World → Crawler → PassLimits → Prop) : World → Prop
  | start {a : Archive} {s : Crawl} (ha : a.IsLinear) (hs : s.IsFresh) : Runs σ P ⟨a, s, none, []⟩
  | push {w : World} {d : CommitDetail} (hw : Runs σ P w) (hd : (w.archive.push d).IsLinear) :
      Runs σ P (w.push d)
  | run {w : World} {c : Crawler} {limits : PassLimits} (hw : Runs σ P w) (hσ : c.settings = σ)
      (hc : c.remote.Follows w.archive) (hP : P w c limits) : Runs σ P (w.run c limits)

theorem Runs.reachable (hw : Runs σ P w) : Reachable σ w := by
  induction hw with
  | start ha hs => exact .start ha hs
  | push _ hd ih => exact ih.push hd
  | run _ hσ hc _ ih => exact ih.run hσ hc

/-! ### The two passes of a run -/

/-- The world between the passes of a run. -/
def halfway (w : World) (c : Crawler) (limits : PassLimits) : World :=
  (w.withCache {}).incremental c limits.incremental

theorem Reachable.halfway (hw : Reachable σ w) (hσ : c.settings = σ)
    (hc : c.remote.Follows w.archive) (limits : PassLimits) : Reachable σ (w.halfway c limits) :=
  (hw.withCache {}).incremental hσ hc limits.incremental

/-- A run that ends with a value is made of two passes that do. -/
theorem run_ok {stats : RunStats} (h : (c.run limits w.crawl).1 = .ok stats) :
    (c.incremental limits.incremental (w.withCache {}).crawl).1 = .ok stats.incremental ∧
      (c.backfill limits.backfill (w.halfway c limits).crawl).1 = .ok stats.backfill ∧
      w.run c limits =
        ((w.halfway c limits).backfill c limits.backfill).withCache w.crawl.cache := by
  obtain ⟨u, v, hfirst, hsecond, -⟩ := Crawler.run_ok (Prod.ext h rfl)
  have hstats : (c.incremental limits.incremental (w.withCache {}).crawl).1 =
      .ok stats.incremental := congrArg Prod.fst hfirst
  have hhalfway : (w.halfway c limits).crawl = u := congrArg Prod.snd hfirst
  refine ⟨hstats, by rw [hhalfway, hsecond], ?_⟩
  unfold World.run
  dsimp only
  rw [hstats]
  rfl

/-- If everything is answered, no pending commit is left over. -/
theorem left_eq_nil {done left : List String} {n : Nat} (ha : c.remote.Answers w.archive)
    (hpending : w.archive.names.drop n = done ++ left)
    (hleft : ∀ sha ∈ left.head?, ∃ past e, c.remote.commit past sha = .error e) : left = [] := by
  cases left with
  | nil => rfl
  | cons sha left =>
    obtain ⟨past, e, he⟩ := hleft sha rfl
    have hmem : sha ∈ w.archive.names :=
      List.mem_of_mem_drop (hpending ▸ List.mem_append_right _ (List.mem_cons_self ..))
    obtain ⟨d, hd⟩ := ha.exists_commit hmem past
    rw [hd] at he
    cases he

/-- If everything is answered, the incremental pass processes all commits of its page that are newer
than the mark, and moves the mark to the head. -/
theorem Covered.incremental_answered {stats : PassStats} (hw : w.Covered)
    (hc : c.remote.Follows w.archive) (ha : c.remote.Answers w.archive) (hlimit : limit ≠ 0)
    (h : (c.incremental limit w.crawl).1 = .ok stats) :
    let done := w.archive.names.drop (w.archive.skipped w.checkpoint.latest (c.perPage limit))
    (w.incremental c limit).crawl.visited = w.crawl.visited ++ done ∧
      stats.commits = done.length ∧
      (w.incremental c limit).checkpoint = ⟨w.archive.names.getLast?, w.checkpoint.next⟩ := by
  have hn : c.perPage limit ≠ 0 := by unfold Crawler.perPage; omega
  have hlatest := fun mark hmark => (hw.mark mark hmark).1
  intro done
  cases incrementalRun h with
  | idle hidle ht hvisited =>
    -- an empty page is the only excuse, and the page is empty only if the history is
    have hempty : w.archive.names = [] := by
      rcases hidle with hidle | hidle | ⟨e, hidle⟩
      · exact absurd hidle hlimit
      · exact (Archive.page_eq_nil_iff hn).mp (hc.list hidle).symm
      · rw [ha.list] at hidle
        cases hidle
    have hdone : done = [] := by
      change w.archive.names.drop _ = []
      rw [hempty, List.drop_nil]
    refine ⟨by rw [hdone, hvisited, List.append_nil], by rw [hdone]; rfl, ?_⟩
    rw [(hw.later_incremental ht).checkpoint_eq, hempty, List.getLast?_nil]
    cases hmark : w.checkpoint.latest with
    | none => rw [← hmark]
    | some mark =>
      have hmem := hlatest mark hmark
      rw [hempty] at hmem
      cases hmem
  | @through _ _ p head page first left _ hp hpage hpending hleft hvisited hstats ht =>
    -- nothing is left over, so the mark comes to the head of the page, which is the newest commit
    have hcp := checkpoint_of_positions hp
    rw [← hcp, hc.list hpage, hw.linear.reverse_newer_eq hlatest] at hpending
    obtain rfl := left_eq_nil ha hpending hleft
    rw [List.append_nil] at hpending
    have hhead := Archive.names_of_head (hc.list hpage).symm
    have hproper : ∀ sha, some head.sha = some sha → sha ≠ "" := by
      rintro _ ⟨⟩
      exact (hw.linear.proper _ (Archive.mem_of_names hhead)).1
    rw [if_pos rfl] at ht
    refine ⟨hvisited.trans (by rw [← hpending]), hstats.trans (by rw [← hpending]), ?_⟩
    rw [checkpoint_of_positions ht, Positions.checkpoint_advance hproper, Option.some_or, ← hcp,
      List.getLast?_eq_getElem?, hhead]

/-- After a run in which everything is answered the mark is at the head. -/
theorem Reachable.latest_run {stats : RunStats} (hw : Reachable σ w) (hσ : c.settings = σ)
    (hc : c.remote.Follows w.archive) (ha : c.remote.Answers w.archive)
    (hlimit : limits.incremental ≠ 0) (h : (c.run limits w.crawl).1 = .ok stats) :
    (w.run c limits).checkpoint.latest = w.archive.names.getLast? := by
  obtain ⟨hfirst, -, hrun⟩ := run_ok h
  have hhalf := (hw.halfway hσ hc limits).covered
  obtain ⟨-, -, hcp⟩ := (hw.withCache {}).covered.incremental_answered hc ha hlimit hfirst
  rw [hrun]
  change ((w.halfway c limits).backfill c limits.backfill).checkpoint.latest = _
  rw [hhalf.latest_backfill]
  exact congrArg Checkpoint.latest hcp

theorem archive_run (w : World) (c : Crawler) (limits : PassLimits) :
    (w.run c limits).archive = w.archive := by
  unfold World.run
  dsimp only
  split <;> rfl

/-- After a run in which everything is answered and at whose end the way back is over, every commit
of the history has been processed or left out. -/
theorem Reachable.whole {stats : RunStats} {d : CommitDetail} (hw : Reachable σ w)
    (hσ : c.settings = σ) (hc : c.remote.Follows w.archive) (ha : c.remote.Answers w.archive)
    (hlimit : limits.incremental ≠ 0) (h : (c.run limits w.crawl).1 = .ok stats)
    (hdone : (w.run c limits).checkpoint.next = .done) (hd : d ∈ w.archive.commits) :
    (w.run c limits).crawl.Processed σ d ∨ d.sha ∈ (w.run c limits).leftOut := by
  have hafter : Reachable σ (w.run c limits) := hw.run hσ hc
  have hlatest := hw.latest_run hσ hc ha hlimit h
  obtain ⟨k, hk⟩ := List.mem_iff_getElem?.mp hd
  have hname : w.archive.names[k]? = some d.sha := by rw [Archive.getElem?_names, hk]; rfl
  have hlt := Archive.lt_of_names hname
  obtain ⟨low, high, hlow, hhigh, hspan⟩ := hafter.covered.span (by rw [hdone]; decide)
  rw [hdone] at hlow
  cases hlow
  rw [← w.archive_run c limits] at hname hlt hd hlatest
  -- the mark is at the head, so no commit lies above the top
  have hle : k < high := by
    cases hhigh with
    | mark hmark hj =>
      rw [hmark, List.getLast?_eq_getElem?] at hlatest
      have := hafter.covered.linear.names_inj hj hlatest.symm
      omega
    | anchor hnone _ _ =>
      rw [hnone] at hlatest
      rw [List.getLast?_eq_none_iff.mp hlatest.symm] at hlt
      exact absurd hlt (Nat.not_lt_zero k)
  exact (hspan k d.sha (Nat.zero_le k) hle hname).imp (hafter.processed_of_visited hd) id

end World

end Harvest
