import Harvest.Proofs.Crawl.Runs

/-!
# Bursts of commits

If more commits are pushed between two runs than fit on a page, the incremental pass moves the mark
to the head although the page does not reach down to the old mark. The commits in between lie above
the position on the way back and below the mark, and neither pass ever comes to them again: the
incremental pass only goes up from the mark, and the backfill pass only goes down from its position.

## Main definitions

* `World.Smooth` — a run in which nothing fails
* `World.Apart` — what has been left out lies where no pass comes to

## Main results

* `World.Runs.processed_iff_uncapped` — when the whole history has been processed once the way back
  is over
* `World.burst_lost` — a burst of which a commit is lost
-/

namespace Harvest

open CrawlStep

theorem Archive.Ahead.le {a : Archive} {next : BackfillCursor} {n : Nat} (h : a.Ahead next n) :
    n ≤ a.names.length := by
  cases h with
  | «at» hk => exact Archive.lt_of_names hk
  | done => exact Nat.zero_le _

theorem Archive.Ahead.unique {a : Archive} {next : BackfillCursor} {n m : Nat} (ha : a.IsLinear)
    (hn : a.Ahead next n) (hm : a.Ahead next m) : n = m := by
  cases hn with
  | «at» hn =>
    cases hm with
    | «at» hm => rw [ha.names_inj hn hm]
  | done =>
    cases hm with
    | done => rfl

namespace World

variable {σ : CrawlSettings} {w w' : World} {c : Crawler} {limit : Nat} {limits : PassLimits}

/-- A run that may process something in either pass, in which all requests about commits are answered,
and which ends with a value. -/
structure Smooth (w : World) (c : Crawler) (limits : PassLimits) : Prop where
  incremental : 1 ≤ limits.incremental
  backfill : 1 ≤ limits.backfill
  answers : c.remote.Answers w.archive
  ends : ∃ stats, (c.run limits w.crawl).1 = .ok stats

/-- The mark is on the commit with this number. -/
def MarkAt (w : World) (j : Nat) : Prop :=
  ∃ mark, w.checkpoint.latest = some mark ∧ w.archive.names[j]? = some mark

/-- There is a mark exactly if the way back has begun. -/
def Paired (w : World) : Prop := w.checkpoint.latest = none ↔ w.checkpoint.next = .unset

/-- What has been left out lies from the position on the way back up to the mark, and has not been
processed. -/
structure Apart (w : World) : Prop where
  /-- Nothing above the mark has been processed. -/
  below : ∀ sha ∈ w.crawl.visited, ∃ i j, w.MarkAt j ∧ w.archive.names[i]? = some sha ∧ i ≤ j
  cursor : ∀ j low, w.MarkAt j → w.archive.Ahead w.checkpoint.next low → low ≤ j + 1
  gap : ∀ sha ∈ w.leftOut, sha ∉ w.crawl.visited ∧ ∃ i j low, w.MarkAt j ∧
    w.archive.Ahead w.checkpoint.next low ∧ w.archive.names[i]? = some sha ∧ low ≤ i ∧ i ≤ j

theorem Later.markAt (h : Later w w') {j : Nat} (hj : w.MarkAt j) : w'.MarkAt j := by
  obtain ⟨mark, hmark, hname⟩ := hj
  exact ⟨mark, h.checkpoint_eq ▸ hmark, h.getElem?_names hname⟩

/-- Where the mark is does not change as long as the positions are the same. -/
theorem Covered.markAt_of_later (hw : w.Covered) (h : Later w w') {j : Nat} (hj : w'.MarkAt j) :
    w.MarkAt j := by
  obtain ⟨mark, hmark, hname⟩ := hj
  rw [h.checkpoint_eq] at hmark
  obtain ⟨k, hk⟩ := List.mem_iff_getElem?.mp (hw.mark mark hmark).1
  obtain rfl := h.linear.names_inj hname (h.getElem?_names hk)
  exact ⟨mark, hmark, hk⟩

theorem Apart.later (hw : w.Apart) (hcovered : w.Covered) (h : Later w w')
    (hvisited : w'.crawl.visited = w.crawl.visited) (hleftOut : w'.leftOut = w.leftOut) :
    w'.Apart := by
  refine ⟨fun sha hsha => ?_, fun j low hj hlow => ?_, fun sha hsha => ?_⟩
  · rw [hvisited] at hsha
    obtain ⟨i, j, hj, hi, hij⟩ := hw.below sha hsha
    exact ⟨i, j, h.markAt hj, h.getElem?_names hi, hij⟩
  · rw [h.checkpoint_eq] at hlow
    -- the position had a number before, and it is the same
    obtain ⟨low', high, hlow', -, -⟩ := hcovered.span hlow.ne_unset
    obtain rfl := hlow.unique h.linear (h.ahead hlow')
    exact hw.cursor j low (hcovered.markAt_of_later h hj) hlow'
  · rw [hleftOut] at hsha
    rw [hvisited, h.checkpoint_eq]
    obtain ⟨hnot, i, j, low, hj, hlow, hi, hbounds⟩ := hw.gap sha hsha
    exact ⟨hnot, i, j, low, h.markAt hj, h.ahead hlow, h.getElem?_names hi, hbounds⟩

/-! ### The mark at the head -/

/-- The mark is on the newest commit; there is none if there are no commits. -/
def AtHead (w : World) : Prop := w.checkpoint.latest = w.archive.names.getLast?

theorem AtHead.exists_markAt (hw : w.AtHead) {i : Nat} {sha : String}
    (hi : w.archive.names[i]? = some sha) : ∃ j, w.MarkAt j ∧ i ≤ j := by
  have hlt := Archive.lt_of_names hi
  refine ⟨w.archive.names.length - 1, ⟨w.archive.names[w.archive.names.length - 1], ?_, ?_⟩, by omega⟩
  · rw [hw, List.getLast?_eq_getElem?, List.getElem?_eq_getElem]
  · exact List.getElem?_eq_getElem _

theorem AtHead.below (hw : w.AtHead) (hnames : ∀ sha ∈ w.crawl.visited, sha ∈ w.archive.names) :
    ∀ sha ∈ w.crawl.visited, ∃ i j, w.MarkAt j ∧ w.archive.names[i]? = some sha ∧ i ≤ j := by
  intro sha hsha
  obtain ⟨i, hi⟩ := List.mem_iff_getElem?.mp (hnames sha hsha)
  obtain ⟨j, hj, hij⟩ := hw.exists_markAt hi
  exact ⟨i, j, hj, hi, hij⟩

theorem AtHead.cursor (hw : w.AtHead) (hlinear : w.archive.IsLinear) :
    ∀ j low, w.MarkAt j → w.archive.Ahead w.checkpoint.next low → low ≤ j + 1 := by
  rintro j low ⟨mark, hmark, hname⟩ hlow
  rw [hw, List.getLast?_eq_getElem?] at hmark
  have hlast := hlinear.names_inj hname hmark
  have hle := hlow.le
  omega

theorem Apart.visited_subset (hw : w.Apart) : w.crawl.visited ⊆ w.archive.names := by
  intro sha hsha
  obtain ⟨i, -, -, hi, -⟩ := hw.below sha hsha
  exact Archive.mem_of_names hi

/-! ### The incremental pass -/

/-- What an incremental pass leaves out is newer than the mark and does not stand on the page. -/
theorem index_of_leaves {sha : String} (hcovered : w.Covered) (hc : c.remote.Follows w.archive)
    (hpaired : w.Paired) (hsha : sha ∈ w.leaves c limit) :
    ∃ i j, w.MarkAt j ∧ w.archive.names[i]? = some sha ∧ j < i ∧
      sha ∉ w.archive.names.drop (w.archive.names.length - c.perPage limit) := by
  unfold leaves at hsha
  split at hsha
  · cases hsha
  cases hlist : c.remote.list w.crawl.calls (c.perPage limit) 1 with
  | error e => rw [hlist] at hsha; cases hsha
  | ok page =>
    rw [hlist, List.mem_filter] at hsha
    obtain ⟨hdue, hpage⟩ := hsha
    have hnot := of_decide_eq_true hpage
    rw [hc.list hlist, Archive.names_page_eq, List.mem_reverse] at hnot
    cases hmark : w.checkpoint.latest with
    | none =>
      -- without a mark the way back has not begun, so nothing is due
      rw [due, hmark, hpaired.mp hmark] at hdue
      cases hdue
    | some mark =>
      obtain ⟨j, hj⟩ := List.mem_iff_getElem?.mp (hcovered.mark mark hmark).1
      rw [(Top.mark hmark hj).due_eq hcovered.linear fun hnext => by
        rw [hpaired.mpr hnext] at hmark; cases hmark] at hdue
      obtain ⟨i, hi⟩ := List.mem_iff_getElem?.mp hdue
      rw [List.getElem?_drop] at hi
      exact ⟨_, j, ⟨mark, hmark, hj⟩, hi, by omega, hnot⟩

/-- A commit up to the mark is not pending. -/
theorem not_pending {i j n : Nat} {sha : String} (hlinear : w.archive.IsLinear) (hj : w.MarkAt j)
    (hi : w.archive.names[i]? = some sha) (hij : i ≤ j) :
    sha ∉ w.archive.names.drop (w.archive.skipped w.checkpoint.latest n) := by
  obtain ⟨mark, hmark, hname⟩ := hj
  intro hmem
  obtain ⟨k, hk⟩ := List.mem_iff_getElem?.mp hmem
  rw [List.getElem?_drop] at hk
  have hki := hlinear.names_inj hi hk
  rw [hmark, Archive.skipped, Option.elim_some, hlinear.idxOf_eq hname] at hki
  omega

/-- A commit above the mark has not been processed. -/
theorem Apart.not_visited {i j : Nat} {sha : String} (hw : w.Apart) (hlinear : w.archive.IsLinear)
    (hj : w.MarkAt j) (hi : w.archive.names[i]? = some sha) (hji : j < i) :
    sha ∉ w.crawl.visited := by
  intro hsha
  obtain ⟨i', j', ⟨mark', hmark', hname'⟩, hi', hij'⟩ := hw.below sha hsha
  obtain ⟨mark, hmark, hname⟩ := hj
  cases hmark.symm.trans hmark'
  have := hlinear.names_inj hname hname'
  have := hlinear.names_inj hi hi'
  omega

/-- What the incremental pass leaves out lies above the old mark and not on the page. -/
theorem Apart.incremental {stats : PassStats} (hw : w.Apart) (hcovered : w.Covered)
    (hpaired : w.Paired) (hc : c.remote.Follows w.archive) (ha : c.remote.Answers w.archive)
    (hlimit : limit ≠ 0) (h : (c.incremental limit w.crawl).1 = .ok stats) :
    (w.incremental c limit).Apart := by
  obtain ⟨hvisited, -, hcp⟩ := hcovered.incremental_answered hc ha hlimit h
  have hhead : (w.incremental c limit).AtHead := by rw [AtHead, hcp]; rfl
  refine ⟨hhead.below fun sha hsha => ?_, hhead.cursor hcovered.linear, fun sha hsha => ?_⟩
  · rw [hvisited, List.mem_append] at hsha
    exact hsha.elim (fun hold => hw.visited_subset hold) List.mem_of_mem_drop
  · have hnext : (w.incremental c limit).checkpoint.next = w.checkpoint.next := by rw [hcp]
    rw [hvisited, List.mem_append, hnext, not_or]
    rcases List.mem_append.mp hsha with hold | hleaves
    · -- what was left out before lies below the old mark, where nothing is pending
      obtain ⟨hnot, i, j, low, hj, hlow, hi, hlowi, hij⟩ := hw.gap sha hold
      obtain ⟨j', hj', hij'⟩ := hhead.exists_markAt hi
      exact ⟨⟨hnot, not_pending hcovered.linear hj hi hij⟩, i, j', low, hj', hlow, hi, hlowi, hij'⟩
    · -- what is left out now lies above the old mark and is not on the page
      obtain ⟨i, j, hj, hi, hji, hpage⟩ := index_of_leaves hcovered hc hpaired hleaves
      obtain ⟨j', hj', hij'⟩ := hhead.exists_markAt hi
      have hbegun : w.checkpoint.next ≠ .unset := fun hunset => by
        obtain ⟨mark, hmark, -⟩ := hj
        rw [hpaired.mpr hunset] at hmark
        cases hmark
      obtain ⟨low, high, hlow, -, -⟩ := hcovered.span hbegun
      have hle := hw.cursor j low hj hlow
      exact ⟨⟨hw.not_visited hcovered.linear hj hi hji,
        fun hmem => hpage (List.drop_subset_drop_left _ (Nat.le_max_right _ _) hmem)⟩,
        i, j', low, hj', hlow, hi, by omega, hij'⟩

/-! ### The backfill pass -/

theorem AtHead.backfill (hw : w.AtHead) (hcovered : w.Covered) : (w.backfill c limit).AtHead :=
  (hcovered.latest_backfill c limit).trans hw

/-- The way back begins and goes on below what has been left out. -/
theorem Apart.walk {p : Positions} {start : String} {shas : List String} {next : BackfillCursor}
    (hw : w.Apart) (hcovered : w.Covered) (hhead : w.AtHead)
    (hgap : w.checkpoint.next = .unset → w.leftOut = []) (hc : c.remote.Follows w.archive)
    (hstart : Crawler.IsStart c w.crawl.calls w.checkpoint start)
    (hway : Crawler.WayBack c start shas next)
    (hvisited : (w.backfill c limit).crawl.visited = w.crawl.visited ++ shas)
    (ht : (w.backfill c limit).crawl.db.positions = some { p with next := next.stored? }) :
    (w.backfill c limit).Apart := by
  have hsub : w.crawl.visited ⊆ (w.backfill c limit).crawl.visited :=
    hvisited ▸ List.subset_append_left _ _
  obtain ⟨k, -, hk, -, -⟩ := hcovered.started hc hstart hsub
  obtain ⟨low', hlow', hle, hshas⟩ := hway.names hc hcovered.linear hk
  have hhead' : (w.backfill c limit).AtHead := hhead.backfill hcovered
  refine ⟨hhead'.below fun sha hsha => ?_, hhead'.cursor hcovered.linear, fun sha hsha => ?_⟩
  · rw [hvisited, List.mem_append] at hsha
    refine hsha.elim (fun hold => hw.visited_subset hold) fun hnew => ?_
    obtain ⟨i, -, -, hi⟩ := (hshas sha).mp hnew
    exact Archive.mem_of_names hi
  · obtain ⟨hnot, i, j, low, -, hlow, hi, hlowi, -⟩ := hw.gap sha hsha
    obtain ⟨j', hj', hij'⟩ := hhead'.exists_markAt hi
    cases hstart with
    | anchored hnext _ _ _ =>
      -- a way back that begins only now has left out nothing so far
      rw [World.backfill, hgap hnext] at hsha
      cases hsha
    | resumed hnext =>
      rw [hnext] at hlow
      obtain rfl := hlow.unique hcovered.linear (.at hk)
      rw [hvisited, List.mem_append, next_moved hcovered.linear hlow' ht, not_or]
      refine ⟨⟨hnot, fun hnew => ?_⟩, i, j', low', hj', hlow', hi, by omega, hij'⟩
      -- the pass only goes down from its old position, and what was left out lies above it
      obtain ⟨i', -, hi'k, hi'⟩ := (hshas sha).mp hnew
      have := hcovered.linear.names_inj hi hi'
      omega

theorem Apart.backfill {stats : PassStats} (hw : w.Apart) (hcovered : w.Covered)
    (hhead : w.AtHead) (hgap : w.checkpoint.next = .unset → w.leftOut = [])
    (hc : c.remote.Follows w.archive) (h : (c.backfill limit w.crawl).1 = .ok stats) :
    (w.backfill c limit).Apart := by
  cases backfillRun h with
  | idle _ ht =>
    exact hw.later hcovered (hcovered.later_backfill (ht ▸ refl_of Crawl.Extends _))
      (congrArg Crawl.visited ht) rfl
  | unanchored _ _ _ ht hvisited =>
    exact hw.later hcovered (hcovered.later_backfill ht) hvisited rfl
  | rootless hp hnext _ _ _ hvisited ht =>
    rw [← checkpoint_of_positions hp] at hnext
    have hhead' : (w.backfill c limit).AtHead := hhead.backfill hcovered
    refine ⟨hhead'.below fun sha hsha => ?_, hhead'.cursor hcovered.linear, fun sha hsha => ?_⟩
    · rw [hvisited] at hsha
      exact hw.visited_subset hsha
    · rw [World.backfill, hgap hnext] at hsha
      cases hsha
  | walk hp hstart hway _ hvisited _ ht =>
    rw [← checkpoint_of_positions hp] at hstart
    exact hw.walk hcovered hhead hgap hc hstart hway hvisited ht

theorem mem_of_isAnchor {anchor : String} (hcovered : w.Covered) (hc : c.remote.Follows w.archive)
    (hanchor : Crawler.IsAnchor c w.crawl.calls w.checkpoint.latest anchor) :
    anchor ∈ w.archive.names := by
  cases hlatest : w.checkpoint.latest with
  | some mark =>
    rw [hlatest] at hanchor
    cases hanchor
    exact (hcovered.mark _ hlatest).1
  | none =>
    rw [hlatest] at hanchor
    cases hanchor with
    | head hpage => exact Archive.mem_of_names (Archive.names_of_head (hc.list hpage).symm)

/-- If everything is answered, the way back begins at the mark if there is one. -/
theorem Covered.latest_of_stuck (hcovered : w.Covered) (hc : c.remote.Follows w.archive)
    (ha : c.remote.Answers w.archive)
    (hstuck : Crawler.IsStuck c w.crawl.calls w.checkpoint.latest) : w.checkpoint.latest = none := by
  cases hlatest : w.checkpoint.latest with
  | none => rfl
  | some mark =>
    -- the mark would be an anchor, and its details are to be had
    rw [hlatest] at hstuck
    cases hstuck with
    | unknown hanchor he =>
      obtain ⟨d, hd⟩ := ha.exists_commit (mem_of_isAnchor hcovered hc (hlatest ▸ hanchor)) _
      rw [hd] at he
      cases he

/-- A backfill pass that has stored a position has begun the way back, and there is a mark if the
history is not empty. -/
theorem Paired.moved {p : Positions} {next : BackfillCursor} {low : Nat} {sha : String}
    (hcovered : w.Covered) (hhead : w.AtHead)
    (ht : (w.backfill c limit).crawl.db.positions = some { p with next := next.stored? })
    (hlow : w.archive.Ahead next low) (hsha : sha ∈ w.archive.names) :
    (w.backfill c limit).Paired := by
  rw [Paired, hcovered.latest_backfill, hhead, List.getLast?_eq_none_iff,
    next_moved hcovered.linear hlow ht]
  exact ⟨fun hnil => absurd hnil (List.ne_nil_of_mem hsha),
    fun hunset => absurd hunset hlow.ne_unset⟩

/-- At the end of a run in which everything is answered, the way back has begun if there is a mark. -/
theorem Paired.backfill {stats : PassStats} (hcovered : w.Covered) (hhead : w.AtHead)
    (hempty : w.archive.names = [] → w.checkpoint.next = .unset) (hc : c.remote.Follows w.archive)
    (ha : c.remote.Answers w.archive) (hlimit : limit ≠ 0)
    (h : (c.backfill limit w.crawl).1 = .ok stats) : (w.backfill c limit).Paired := by
  cases backfillRun h with
  | idle hidle ht =>
    rcases hidle with hidle | ⟨p, hp, hnext⟩
    · exact absurd hidle hlimit
    · rw [← checkpoint_of_positions hp] at hnext
      rw [Paired, (hcovered.later_backfill (ht ▸ refl_of Crawl.Extends _)).checkpoint_eq, hhead,
        List.getLast?_eq_none_iff]
      refine ⟨hempty, fun hunset => ?_⟩
      rw [hnext] at hunset
      cases hunset
  | unanchored hp hnext hstuck ht _ =>
    rw [← checkpoint_of_positions hp] at hnext hstuck
    rw [Paired, (hcovered.later_backfill ht).checkpoint_eq]
    exact ⟨fun _ => hnext, fun _ => hcovered.latest_of_stuck hc ha hstuck⟩
  | rootless hp _ hanchor _ _ _ ht =>
    rw [← checkpoint_of_positions hp] at hanchor
    exact Paired.moved hcovered hhead ht .done (mem_of_isAnchor hcovered hc hanchor)
  | walk hp hstart hway _ hvisited _ ht =>
    rw [← checkpoint_of_positions hp] at hstart
    have hsub : w.crawl.visited ⊆ (w.backfill c limit).crawl.visited :=
      hvisited ▸ List.subset_append_left _ _
    obtain ⟨k, -, hk, -, -⟩ := hcovered.started hc hstart hsub
    obtain ⟨low, hlow, -, -⟩ := hway.names hc hcovered.linear hk
    exact Paired.moved hcovered hhead ht hlow (Archive.mem_of_names hk)

/-! ### Runs in which nothing fails -/

theorem apart_start {a : Archive} {s : Crawl} (hs : s.IsFresh) :
    Apart ⟨a, s, none, []⟩ ∧ Paired ⟨a, s, none, []⟩ := by
  have hcp : World.checkpoint ⟨a, s, none, []⟩ = {} :=
    (checkpoint_of_positions hs.positions).trans rfl
  refine ⟨⟨fun sha hsha => ?_, fun j low hj => ?_, fun sha hsha => ?_⟩, ?_⟩
  · rw [Crawl.visited, hs.events] at hsha
    cases hsha
  · obtain ⟨mark, hmark, -⟩ := hj
    rw [hcp] at hmark
    cases hmark
  · cases hsha
  · rw [Paired, hcp]
    exact ⟨fun _ => rfl, fun _ => rfl⟩

/-- Without a mark nothing has been left out, and nothing is due. -/
theorem Apart.leftOut_eq_nil (hw : w.Apart) (hnone : w.checkpoint.latest = none) :
    w.leftOut = [] := by
  refine List.eq_nil_iff_forall_not_mem.mpr fun sha hsha => ?_
  obtain ⟨-, -, -, -, ⟨mark, hmark, -⟩, -⟩ := hw.gap sha hsha
  rw [hnone] at hmark
  cases hmark

theorem leaves_eq_nil (hdue : w.due = []) : w.leaves c limit = [] := by
  unfold leaves
  split
  · rfl
  · cases c.remote.list w.crawl.calls (c.perPage limit) 1 with
    | error e => rfl
    | ok page => simp only [hdue, List.filter_nil]

/-- As long as the way back has not begun, nothing is due and so nothing is left out. -/
theorem Apart.leftOut_halfway (hw : w.Apart) (hpaired : w.Paired)
    (hunset : w.checkpoint.next = .unset) : (w.halfway c limits).leftOut = [] := by
  have hnone : w.checkpoint.latest = none := hpaired.mpr hunset
  have hdue : (w.withCache {}).due = [] := by
    unfold due
    rw [show (w.withCache {}).checkpoint.latest = none from hnone,
      show (w.withCache {}).checkpoint.next = .unset from hunset]
  change w.leftOut ++ (w.withCache {}).leaves c limits.incremental = []
  rw [hw.leftOut_eq_nil hnone, leaves_eq_nil hdue, List.append_nil]

/-- In an empty history the way back has not begun. -/
theorem Paired.next_eq_unset (hpaired : w.Paired) (hcovered : w.Covered)
    (hnil : w.archive.names = []) : w.checkpoint.next = .unset := by
  refine hpaired.mp ?_
  cases hmark : w.checkpoint.latest with
  | none => rfl
  | some mark => exact absurd hnil (List.ne_nil_of_mem (hcovered.mark mark hmark).1)

/-- A run in which nothing fails keeps apart what has been left out. -/
theorem Apart.run (hw : w.Apart) (hpaired : w.Paired) (hreachable : Reachable σ w)
    (hσ : c.settings = σ) (hc : c.remote.Follows w.archive) (hsmooth : w.Smooth c limits) :
    (w.run c limits).Apart ∧ (w.run c limits).Paired := by
  obtain ⟨hincremental, hbackfill, ha, stats, hstats⟩ := hsmooth
  obtain ⟨hfirst, hsecond, hrun⟩ := run_ok hstats
  have hcovered := (hreachable.withCache {}).covered
  have hhalfway := (hreachable.halfway hσ hc limits).covered
  -- remembered resolutions have no part in any of this
  have hw' : (w.withCache {}).Apart := ⟨hw.below, hw.cursor, hw.gap⟩
  have hpaired' : (w.withCache {}).Paired := hpaired
  -- the first pass: the mark comes to the head, and the way back is where it was
  obtain ⟨-, -, hcp⟩ := hcovered.incremental_answered hc ha (by omega) hfirst
  have happart : (w.halfway c limits).Apart :=
    hw'.incremental hcovered hpaired' hc ha (by omega) hfirst
  have hhead : (w.halfway c limits).AtHead := by rw [AtHead, halfway, hcp]; rfl
  have hnext : (w.halfway c limits).checkpoint.next = w.checkpoint.next := by rw [halfway, hcp]; rfl
  -- the second pass: if it begins the way back, there is nothing to keep apart
  have hgap : (w.halfway c limits).checkpoint.next = .unset → (w.halfway c limits).leftOut = [] :=
    fun hunset => hw.leftOut_halfway hpaired (hnext ▸ hunset)
  have hempty : (w.halfway c limits).archive.names = [] →
      (w.halfway c limits).checkpoint.next = .unset :=
    fun hnil => hnext.trans (hpaired'.next_eq_unset hcovered hnil)
  have hend : ((w.halfway c limits).backfill c limits.backfill).Apart :=
    happart.backfill hhalfway hhead hgap hc hsecond
  rw [hrun]
  exact ⟨⟨hend.below, hend.cursor, hend.gap⟩,
    Paired.backfill hhalfway hhead hempty hc ha (by omega) hsecond⟩

theorem Runs.apart (hw : Runs σ Smooth w) : w.Apart ∧ w.Paired := by
  induction hw with
  | start _ hs => exact apart_start hs
  | push hw hd ih =>
    have hcovered := hw.reachable.covered
    have hlater := hcovered.later_push hd
    refine ⟨ih.1.later hcovered hlater rfl rfl, ?_⟩
    rw [Paired, hlater.checkpoint_eq]
    exact ih.2
  | run hw hσ hc hsmooth ih => exact ih.1.run ih.2 hw.reachable hσ hc hsmooth

/-- Once the way back is over, the whole history has been processed exactly if no incremental pass
ever had to leave out a commit that was due. -/
theorem Runs.processed_iff_uncapped (hw : Runs σ Smooth w) (hσ : c.settings = σ)
    (hc : c.remote.Follows w.archive) (hsmooth : w.Smooth c limits)
    (hdone : (w.run c limits).checkpoint.state = .backfillDone) :
    (∀ d ∈ (w.run c limits).archive.commits, (w.run c limits).crawl.Processed σ d) ↔
      (w.run c limits).leftOut = [] := by
  have hafter : Runs σ Smooth (w.run c limits) := hw.run hσ hc hsmooth
  obtain ⟨stats, hstats⟩ := hsmooth.ends
  have hlimit : limits.incremental ≠ 0 := by have := hsmooth.incremental; omega
  constructor
  · -- no pass ever comes to a commit that has been left out
    intro hall
    refine List.eq_nil_iff_forall_not_mem.mpr fun sha hsha => ?_
    obtain ⟨hnot, i, -, -, -, -, hi, -⟩ := hafter.apart.1.gap sha hsha
    obtain ⟨d, hd, rfl⟩ := Archive.exists_commit hi
    exact hnot (hall d (List.mem_of_getElem? hd)).mem_visited
  · -- the stretch that is accounted for is the whole history
    intro hcap d hd
    rw [archive_run] at hd
    rcases hw.reachable.whole hσ hc hsmooth.answers hlimit hstats
      (Checkpoint.state_eq_done.mp hdone) hd with hprocessed | hleft
    · exact hprocessed
    · rw [hcap] at hleft
      cases hleft

/-- A run over one commit, and three more commits. -/
def burst : World :=
  ((((fresh .root).run (.small .root) ⟨2, 2⟩).push (.small "b" ["a"])).push (.small "c" ["b"])).push
    (.small "d" ["c"])

/-- A run whose page holds only two of the three commits. -/
def afterBurst : World := burst.run (.small burst.archive) ⟨2, 2⟩

theorem smooth_small (w : World) (stats : RunStats) (ha : w.archive.outages = [])
    (hstats : ((Crawler.small w.archive).run ⟨2, 2⟩ w.crawl).1 = .ok stats) :
    w.Smooth (.small w.archive) ⟨2, 2⟩ :=
  ⟨by decide, by decide, Crawler.answers_small ha, stats, hstats⟩

theorem runs_burst : Runs {} Smooth burst := by
  have hroot : Runs {} Smooth ((fresh .root).run (.small .root) ⟨2, 2⟩) :=
    (Runs.start Archive.isLinear_root ⟨rfl, rfl, rfl, rfl⟩).run rfl (Crawler.follows_small _)
      (smooth_small (fresh .root) ⟨⟨1, 0, 0⟩, {}⟩ rfl (by decide +kernel))
  have hb : (Archive.root.push (.small "b" ["a"])).IsLinear :=
    Archive.isLinear_root.push rfl (by decide +kernel) (by decide +kernel)
  have hc : Archive.small.IsLinear := Archive.isLinear_small
  have hd : (Archive.small.push (.small "d" ["c"])).IsLinear :=
    hc.push rfl (by decide +kernel) (by decide +kernel)
  have harchive := archive_run (fresh .root) (.small .root) ⟨2, 2⟩
  refine ((hroot.push ?_).push ?_).push ?_
  · rw [harchive]
    exact hb
  · rw [push, harchive]
    exact hc
  · rw [push, push, harchive]
    exact hd

theorem runs_afterBurst : Runs {} Smooth afterBurst :=
  runs_burst.run rfl (Crawler.follows_small _)
    (smooth_small burst ⟨⟨2, 0, 0⟩, {}⟩ (by decide +kernel) (by decide +kernel))

theorem smooth_afterBurst : afterBurst.Smooth (.small afterBurst.archive) ⟨2, 2⟩ :=
  smooth_small afterBurst {} (by decide +kernel) (by decide +kernel)

theorem processed_iff_afterBurst :
    (∀ d ∈ (afterBurst.run (.small afterBurst.archive) ⟨2, 2⟩).archive.commits,
      (afterBurst.run (.small afterBurst.archive) ⟨2, 2⟩).crawl.Processed {} d) ↔
    (afterBurst.run (.small afterBurst.archive) ⟨2, 2⟩).leftOut = [] :=
  runs_afterBurst.processed_iff_uncapped rfl (Crawler.follows_small _) smooth_afterBurst
    (by decide +kernel)

/-- The burst is lost: a run in which nothing fails and which finds nothing to do reports that the
first commit has been reached, and yet a commit has never been processed. -/
theorem burst_lost : Runs {} Smooth afterBurst ∧
    afterBurst.Smooth (.small afterBurst.archive) ⟨2, 2⟩ ∧
    ((Crawler.small afterBurst.archive).run ⟨2, 2⟩ afterBurst.crawl).1 = .ok {} ∧
    (afterBurst.run (.small afterBurst.archive) ⟨2, 2⟩).checkpoint.state = .backfillDone ∧
    ¬ ∀ d ∈ (afterBurst.run (.small afterBurst.archive) ⟨2, 2⟩).archive.commits,
      (afterBurst.run (.small afterBurst.archive) ⟨2, 2⟩).crawl.Processed {} d := by
  refine ⟨runs_afterBurst, smooth_afterBurst, by decide +kernel, by decide +kernel, fun hall => ?_⟩
  -- the page holds the two newest commits, and the way back was over before the burst
  have hmem : CommitDetail.small "b" ["a"] ∈
      (afterBurst.run (.small afterBurst.archive) ⟨2, 2⟩).archive.commits := by decide +kernel
  have hnot : "b" ∉ (afterBurst.run (.small afterBurst.archive) ⟨2, 2⟩).crawl.visited := by
    decide +kernel
  exact hnot (hall _ hmem).mem_visited

end World

end Harvest
