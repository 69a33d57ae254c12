import Harvest.Proofs.Crawl.World

/-!
# What a crawl has covered

As long as no incremental pass leaves out a commit that is due, the mark and the position on the way
back tell which commits have been processed: those from the commit after the position up to the
mark. The two move independently of each other, and either pass may stop at any commit. What stays
true in between is that every commit from the position up to the top has been processed or left
out, where the top lies behind the mark or, as long as there is no mark, before the anchor of the way
back.

## Main definitions

* `World.Top` — how many commits lie below the upper end of the stretch that has been covered
* `World.Covered` — the positions are right about the commits that have been processed
* `World.Recorded` — whatever counts as processed has been processed

## Main results

* `World.Reachable.covered`, `World.Reachable.recorded` — both hold of whatever can happen
* `World.Reachable.coverage` — which commits the positions promise to have been processed
-/

namespace Harvest

open CrawlStep

/-- How many of the oldest commits do not belong to what an incremental pass goes through: those up
to the mark, and those that the page does not reach. -/
def Archive.skipped (a : Archive) (latest : Option String) (n : Nat) : Nat :=
  max (latest.elim 0 fun mark => a.names.idxOf mark + 1) (a.names.length - n)

theorem Archive.IsLinear.reverse_newer_eq {a : Archive} (ha : a.IsLinear) {latest : Option String}
    (hlatest : ∀ mark, latest = some mark → mark ∈ a.names) (n : Nat) :
    (Crawler.newer latest (a.page n 1)).reverse = a.names.drop (a.skipped latest n) := by
  cases latest with
  | none => rw [a.reverse_newer_none, skipped, Option.elim_none, Nat.zero_max]
  | some mark =>
    obtain ⟨k, hk⟩ := List.mem_iff_getElem?.mp (hlatest mark rfl)
    rw [ha.reverse_newer hk, skipped, Option.elim_some, ha.idxOf_eq hk]

/-- The mark is moved to the last commit that has been processed, if there is one: if none has been
left, that commit is the head. -/
theorem Archive.IsLinear.through_last {a : Archive} {latest : Option String} {head : CommitSummary}
    {page : List CommitSummary} {done left : List String} {n : Nat} (ha : a.IsLinear) (hn : n ≠ 0)
    (hlatest : ∀ mark, latest = some mark → mark ∈ a.names) (hpage : head :: page = a.page n 1)
    (hpending : (Crawler.newer latest (head :: page)).reverse = done ++ left) :
    (if left = [] then some head.sha else done.getLast?).or latest = done.getLast?.or latest := by
  split
  next hleft =>
    -- all pending commits have been processed, so the last of them is the newest commit
    rw [hleft, List.append_nil, hpage, ha.reverse_newer_eq hlatest] at hpending
    have hhead := Archive.names_of_head hpage.symm
    have hpos := Archive.lt_of_names hhead
    rcases Nat.lt_or_ge (a.skipped latest n) a.names.length with hlt | hge
    · rw [← hpending, List.getLast?_drop, if_neg (Nat.not_le_of_lt hlt),
        List.getLast?_eq_getElem?, hhead]
    · -- nothing is pending, so the head is the mark
      rw [← hpending, List.drop_of_length_le hge]
      cases latest with
      | none =>
        -- without a mark the whole page is pending, and it is not empty
        rw [Archive.skipped, Option.elim_none] at hge
        omega
      | some mark =>
        obtain ⟨k, hk⟩ := List.mem_iff_getElem?.mp (hlatest mark rfl)
        have hlt := Archive.lt_of_names hk
        rw [Archive.skipped, Option.elim_some, ha.idxOf_eq hk] at hge
        obtain rfl : k = a.names.length - 1 := by omega
        exact hhead.symm.trans hk
  next => rfl

/-- After a pass that has gone through a page, the mark is on the last commit that has been
processed. -/
theorem Archive.IsLinear.checkpoint_through {a : Archive} {p : Positions} {head : CommitSummary}
    {page : List CommitSummary} {done left : List String} {n : Nat} (ha : a.IsLinear) (hn : n ≠ 0)
    (hlatest : ∀ mark, p.checkpoint.latest = some mark → mark ∈ a.names)
    (hpage : head :: page = a.page n 1)
    (hpending : (Crawler.newer p.checkpoint.latest (head :: page)).reverse = done ++ left) :
    (p.advance (if left = [] then some head.sha else done.getLast?)).checkpoint =
      ⟨done.getLast?.or p.checkpoint.latest, p.checkpoint.next⟩ := by
  have hdone : ∀ sha ∈ done, sha ∈ a.names := by
    intro sha hsha
    rw [hpage, ha.reverse_newer_eq hlatest] at hpending
    refine List.mem_of_mem_drop (i := a.skipped p.checkpoint.latest n) ?_
    rw [hpending]
    exact List.mem_append_left _ hsha
  rw [← ha.through_last hn hlatest hpage hpending]
  refine Positions.checkpoint_advance fun sha hsha => (ha.proper sha ?_).1
  split at hsha
  · cases hsha
    exact Archive.mem_of_names (Archive.names_of_head hpage.symm)
  · exact hdone sha (List.mem_of_getLast? hsha)

/-- A position on the way back is read back as it was stored. -/
theorem Archive.Ahead.ofStored_eq {a : Archive} {next : BackfillCursor} {n : Nat} (ha : a.IsLinear)
    (h : a.Ahead next n) : BackfillCursor.ofStored next.stored? = next := by
  refine BackfillCursor.ofStored_stored fun sha hsha => ?_
  cases h with
  | «at» h =>
    cases hsha
    exact ha.proper _ (Archive.mem_of_names h)
  | done => cases hsha

theorem Archive.Ahead.ne_unset {a : Archive} {next : BackfillCursor} {n : Nat}
    (h : a.Ahead next n) : next ≠ .unset := by
  cases h <;> exact BackfillCursor.noConfusion

namespace World

variable {σ : CrawlSettings} {w w' : World} {c : Crawler} {limit : Nat}

/-- How many commits lie below the upper end of the stretch that has been covered: with a mark, those
up to the mark; without one, those before the anchor of the way back. -/
inductive Top (w : World) : Nat → Prop
  | mark {sha : String} {k : Nat} (hlatest : w.checkpoint.latest = some sha)
      (hk : w.archive.names[k]? = some sha) : Top w (k + 1)
  | anchor {sha : String} {k : Nat} (hlatest : w.checkpoint.latest = none)
      (hanchor : w.anchor = some sha) (hk : w.archive.names[k]? = some sha) : Top w k

/-- The commits of a stretch have been processed or left out. -/
def Accounted (w : World) (low high : Nat) : Prop :=
  ∀ i sha, low ≤ i → i < high → w.archive.names[i]? = some sha →
    sha ∈ w.crawl.visited ∨ sha ∈ w.leftOut

/-- The positions are right about the commits that have been processed or left out. -/
structure Covered (w : World) : Prop where
  linear : w.archive.IsLinear
  positions : ∃ p, w.crawl.db.positions = some p
  /-- The mark is on a commit that has been processed. -/
  mark : ∀ sha, w.checkpoint.latest = some sha → sha ∈ w.archive.names ∧ sha ∈ w.crawl.visited
  /-- Whatever lies between the position on the way back and the top is accounted for. -/
  span : w.checkpoint.next ≠ .unset →
    ∃ low high, w.archive.Ahead w.checkpoint.next low ∧ w.Top high ∧ w.Accounted low high

/-- The second world comes later, and its positions mean the same. -/
structure Later (w w' : World) : Prop where
  linear : w'.archive.IsLinear
  names : w.archive.names <+: w'.archive.names
  positions : ∃ p, w'.crawl.db.positions = some p ∧ p.checkpoint = w.checkpoint
  visited : w.crawl.visited ⊆ w'.crawl.visited
  leftOut : w.leftOut ⊆ w'.leftOut
  anchor : w.checkpoint.next ≠ .unset → w'.anchor = w.anchor

theorem Later.checkpoint_eq (h : Later w w') : w'.checkpoint = w.checkpoint := by
  obtain ⟨p, hp, hcheckpoint⟩ := h.positions
  rw [checkpoint_of_positions hp, hcheckpoint]

theorem Later.getElem?_names (h : Later w w') {k : Nat} {sha : String}
    (hk : w.archive.names[k]? = some sha) : w'.archive.names[k]? = some sha := by
  obtain ⟨more, hmore⟩ := h.names
  rw [← hmore, List.getElem?_append_left (Archive.lt_of_names hk), hk]

theorem Later.ahead (h : Later w w') {next : BackfillCursor} {n : Nat}
    (hn : w.archive.Ahead next n) : w'.archive.Ahead next n := by
  cases hn with
  | «at» hk => exact .at (h.getElem?_names hk)
  | done => exact .done

theorem Top.le {k : Nat} (h : w.Top k) : k ≤ w.archive.names.length := by
  cases h with
  | mark _ hk => exact Archive.lt_of_names hk
  | anchor _ _ hk => exact Nat.le_of_lt (Archive.lt_of_names hk)

/-- What is covered stays covered as long as the positions are the same. -/
theorem Covered.later (hw : w.Covered) (h : Later w w') : w'.Covered where
  linear := h.linear
  positions := h.positions.imp fun _ hp => hp.1
  mark sha hsha := by
    rw [h.checkpoint_eq] at hsha
    obtain ⟨hname, hvisited⟩ := hw.mark sha hsha
    exact ⟨h.names.mem hname, h.visited hvisited⟩
  span hnext := by
    rw [h.checkpoint_eq] at hnext ⊢
    obtain ⟨low, high, hlow, hhigh, hspan⟩ := hw.span hnext
    refine ⟨low, high, h.ahead hlow, ?_, fun i sha hi hi' hsha => ?_⟩
    · cases hhigh with
      | mark hlatest hk =>
        exact .mark (h.checkpoint_eq ▸ hlatest) (h.getElem?_names hk)
      | anchor hlatest hanchor hk =>
        exact .anchor (h.checkpoint_eq ▸ hlatest) (h.anchor hnext ▸ hanchor)
          (h.getElem?_names hk)
    · -- the history has only grown at its head, so the commit had this number before
      have hlt : i < w.archive.names.length := Nat.lt_of_lt_of_le hi' hhigh.le
      have hbefore := List.getElem?_eq_getElem hlt
      rw [h.getElem?_names hbefore] at hsha
      cases hsha
      exact (hspan i _ hi hi' hbefore).imp (@h.visited _) (@h.leftOut _)

/-! ### The incremental pass -/

/-- An incremental pass that has not moved the mark. -/
theorem Covered.later_incremental (hw : w.Covered)
    (ht : Crawl.Extends w.crawl (w.incremental c limit).crawl) :
    Later w (w.incremental c limit) where
  linear := hw.linear
  names := List.prefix_rfl
  positions := by
    obtain ⟨p, hp⟩ := hw.positions
    exact ⟨p, ht.positions.trans hp, (checkpoint_of_positions hp).symm⟩
  visited := ht.visited.subset
  leftOut := List.subset_append_left _ _
  anchor _ := rfl

/-- The commits that are due are those from the top on. -/
theorem Top.due_eq {high : Nat} (h : w.Top high) (hw : w.archive.IsLinear)
    (hnext : w.checkpoint.next ≠ .unset) : w.due = w.archive.names.drop high := by
  unfold due
  cases h with
  | mark hlatest hk =>
    rw [hlatest]
    exact hw.after_eq hk
  | anchor hlatest hanchor hk =>
    rw [hlatest, hanchor]
    cases hcursor : w.checkpoint.next with
    | unset => exact absurd hcursor hnext
    | «at» sha => exact hw.since_eq hk
    | done => exact hw.since_eq hk

theorem Top.skipped_le {high n : Nat} (h : w.Top high) (hw : w.archive.IsLinear) :
    w.archive.skipped w.checkpoint.latest n ≤ max high (w.archive.names.length - n) := by
  unfold Archive.skipped
  cases h with
  | mark hlatest hk =>
    rw [hlatest, Option.elim_some, hw.idxOf_eq hk]
  | anchor hlatest _ _ =>
    rw [hlatest, Option.elim_none]
    omega

/-- A commit that is due and does not stand on the page is left out. -/
theorem mem_leaves {page : List CommitSummary} {i : Nat} {sha : String} (hlimit : limit ≠ 0)
    (hw : w.archive.IsLinear) (hc : c.remote.Follows w.archive)
    (hpage : c.remote.list w.crawl.calls (c.perPage limit) 1 = .ok page) (hdue : sha ∈ w.due)
    (hi : i < w.archive.names.length - c.perPage limit) (hsha : w.archive.names[i]? = some sha) :
    sha ∈ w.leaves c limit := by
  have hnot : sha ∉ page.map CommitSummary.sha := by
    rw [hc.list hpage, Archive.names_page_eq, List.mem_reverse]
    intro hmem
    obtain ⟨j, hj⟩ := List.mem_iff_getElem?.mp hmem
    rw [List.getElem?_drop] at hj
    have := hw.names_inj hsha hj
    omega
  simp only [leaves, if_neg hlimit, hpage]
  exact List.mem_filter.mpr ⟨hdue, decide_eq_true hnot⟩

/-- What has been processed or left out after a pass that has gone through a page: everything up to
the last commit of the page that has been processed. -/
theorem accounted_incremental {low high : Nat} {page : List CommitSummary} {done left : List String}
    (hw : w.archive.IsLinear) (hc : c.remote.Follows w.archive) (hlimit : limit ≠ 0)
    (hnext : w.checkpoint.next ≠ .unset) (hhigh : w.Top high) (hspan : w.Accounted low high)
    (hpage : c.remote.list w.crawl.calls (c.perPage limit) 1 = .ok page)
    (hpending : w.archive.names.drop (w.archive.skipped w.checkpoint.latest (c.perPage limit)) =
      done ++ left)
    (hvisited : (w.incremental c limit).crawl.visited = w.crawl.visited ++ done) :
    (w.incremental c limit).Accounted low
      (w.archive.skipped w.checkpoint.latest (c.perPage limit) + done.length) := by
  intro i sha hlow hi hsha
  change w.archive.names[i]? = some sha at hsha
  rw [hvisited]
  -- below the old top nothing changes; above it come the commits that are due, of which the pass has
  -- processed those from the first pending one up to the last of `done`
  rcases Nat.lt_or_ge i high with hbelow | habove
  · exact (hspan i sha hlow hbelow hsha).imp (List.mem_append_left _) (List.mem_append_left _)
  rcases Nat.lt_or_ge i (w.archive.skipped w.checkpoint.latest (c.perPage limit)) with hout | hin
  · -- the commit is due, but the page does not reach it
    have hle := hhigh.skipped_le hw (n := c.perPage limit)
    have hdue : sha ∈ w.due := by
      rw [hhigh.due_eq hw hnext]
      refine List.mem_of_getElem? (i := i - high) ?_
      rw [List.getElem?_drop, Nat.add_sub_cancel' habove, hsha]
    exact .inr (List.mem_append_right _ (mem_leaves hlimit hw hc hpage hdue (by omega) hsha))
  · -- the commit is pending, and there are at least that many in `done`
    have hdone : done[i - w.archive.skipped w.checkpoint.latest (c.perPage limit)]? = some sha := by
      rw [← List.getElem?_append_left (by omega), ← hpending, List.getElem?_drop,
        Nat.add_sub_cancel' hin, hsha]
    exact .inl (List.mem_append_right _ (List.mem_of_getElem? hdone))

/-- An incremental pass that has processed a commit keeps what is covered: the new top lies right
behind the last commit that it has processed. -/
theorem Covered.advanced {page : List CommitSummary} {done left : List String} {last : String}
    {q : Positions} (hw : w.Covered) (hc : c.remote.Follows w.archive) (hlimit : limit ≠ 0)
    (hpage : c.remote.list w.crawl.calls (c.perPage limit) 1 = .ok page)
    (hpending : w.archive.names.drop (w.archive.skipped w.checkpoint.latest (c.perPage limit)) =
      done ++ left)
    (hlast : done.getLast? = some last)
    (hvisited : (w.incremental c limit).crawl.visited = w.crawl.visited ++ done)
    (hq : (w.incremental c limit).crawl.db.positions = some q)
    (hcp : q.checkpoint = ⟨some last, w.checkpoint.next⟩) : (w.incremental c limit).Covered := by
  rw [← checkpoint_of_positions hq] at hcp
  have hpos : 0 < done.length := List.length_pos_of_mem (List.mem_of_getLast? hlast)
  have hname : w.archive.names[w.archive.skipped w.checkpoint.latest (c.perPage limit) +
      (done.length - 1)]? = some last := by
    rw [← List.getElem?_drop, hpending, List.getElem?_append_left (by omega),
      ← List.getLast?_eq_getElem?, hlast]
  refine ⟨hw.linear, ⟨q, hq⟩, fun sha hsha => ?_, fun hnext => ?_⟩
  · rw [hcp] at hsha
    cases hsha
    refine ⟨Archive.mem_of_names hname, ?_⟩
    rw [hvisited]
    exact List.mem_append_right _ (List.mem_of_getLast? hlast)
  · rw [hcp] at hnext ⊢
    obtain ⟨low, high, hlow, hhigh, hspan⟩ := hw.span hnext
    have htop : (w.incremental c limit).Top _ := .mark (by rw [hcp]) hname
    refine ⟨low, _, hlow, htop, ?_⟩
    rw [Nat.add_assoc, Nat.sub_add_cancel hpos]
    exact accounted_incremental hw.linear hc hlimit hnext hhigh hspan hpage hpending hvisited

/-- An incremental pass keeps what is covered, whatever it leaves out. -/
theorem Covered.incremental (hw : w.Covered) (hc : c.remote.Follows w.archive) :
    (w.incremental c limit).Covered := by
  cases hr : (c.incremental limit w.crawl).1 with
  | error e => exact hw.later (hw.later_incremental (extends_incremental hr))
  | ok stats =>
    cases incrementalRun hr with
    | idle _ ht _ => exact hw.later (hw.later_incremental ht)
    | @through _ _ p head page done left hlimit hp hpage hpending _ hvisited _ ht =>
      have hn : c.perPage limit ≠ 0 := by unfold Crawler.perPage; omega
      have hlatest := fun mark hmark => (hw.mark mark hmark).1
      rw [checkpoint_of_positions hp] at hlatest
      have hcp := hw.linear.checkpoint_through hn hlatest (hc.list hpage) hpending
      rw [hc.list hpage, hw.linear.reverse_newer_eq hlatest, ← checkpoint_of_positions hp]
        at hpending
      rw [← checkpoint_of_positions hp] at hcp
      cases hlast : done.getLast? with
      | none =>
        -- nothing was pending, or the details of the first pending commit could not be had
        rw [hlast] at ht hcp
        have hsub : w.crawl.visited ⊆ (w.incremental c limit).crawl.visited :=
          hvisited ▸ List.subset_append_left _ _
        exact hw.later ⟨hw.linear, List.prefix_rfl, ⟨_, ht, hcp⟩, hsub,
          List.subset_append_left _ _, fun _ => rfl⟩
      | some last =>
        rw [hlast] at ht hcp
        exact hw.advanced hc hlimit hpage hpending hlast hvisited ht hcp

/-! ### The backfill pass -/

/-- A backfill pass that has not moved on. -/
theorem Covered.later_backfill (hw : w.Covered)
    (ht : Crawl.Extends w.crawl (w.backfill c limit).crawl) : Later w (w.backfill c limit) where
  linear := hw.linear
  names := List.prefix_rfl
  positions := by
    obtain ⟨p, hp⟩ := hw.positions
    exact ⟨p, ht.positions.trans hp, (checkpoint_of_positions hp).symm⟩
  visited := ht.visited.subset
  leftOut := List.Subset.refl _
  anchor hnext := if_neg fun h => hnext (by rw [h])

theorem latest_moved {p : Positions} {next : Option String}
    (hp : w.crawl.db.positions = some p)
    (ht : (w.backfill c limit).crawl.db.positions = some { p with next := next }) :
    (w.backfill c limit).checkpoint.latest = w.checkpoint.latest := by
  rw [checkpoint_of_positions ht, checkpoint_of_positions hp]
  rfl

/-- The backfill pass leaves the mark where it is. -/
theorem Covered.latest_backfill (hw : w.Covered) (c : Crawler) (limit : Nat) :
    (w.backfill c limit).checkpoint.latest = w.checkpoint.latest := by
  have kept : Crawl.Extends w.crawl (w.backfill c limit).crawl →
      (w.backfill c limit).checkpoint.latest = w.checkpoint.latest := fun ht =>
    congrArg Checkpoint.latest (hw.later_backfill ht).checkpoint_eq
  cases hr : (c.backfill limit w.crawl).1 with
  | error e => exact kept (extends_backfill hr)
  | ok stats =>
    cases backfillRun hr with
    | idle _ ht => exact kept (ht ▸ refl_of Crawl.Extends _)
    | unanchored _ _ _ ht _ => exact kept ht
    | rootless hp _ _ _ _ _ ht => exact latest_moved hp ht
    | walk hp _ _ _ _ _ ht => exact latest_moved hp ht

/-- The position after a backfill pass has moved on. -/
theorem next_moved {p : Positions} {next : BackfillCursor} {low : Nat}
    (hlinear : w.archive.IsLinear) (hlow : w.archive.Ahead next low)
    (ht : (w.backfill c limit).crawl.db.positions = some { p with next := next.stored? }) :
    (w.backfill c limit).checkpoint.next = next := by
  rw [checkpoint_of_positions ht]
  exact hlow.ofStored_eq hlinear

/-- A backfill pass that has stored a position keeps what is covered, if everything from the position
up to the top is accounted for. -/
theorem Covered.moved {p : Positions} {next : BackfillCursor} {low high : Nat} (hw : w.Covered)
    (ht : (w.backfill c limit).crawl.db.positions = some { p with next := next.stored? })
    (hvisited : w.crawl.visited ⊆ (w.backfill c limit).crawl.visited)
    (hlow : w.archive.Ahead next low) (hhigh : (w.backfill c limit).Top high)
    (hspan : (w.backfill c limit).Accounted low high) : (w.backfill c limit).Covered := by
  refine ⟨hw.linear, ⟨_, ht⟩, fun sha hsha => ?_, fun _ => ⟨low, high, ?_, hhigh, hspan⟩⟩
  · rw [hw.latest_backfill] at hsha
    exact (hw.mark sha hsha).imp id (@hvisited _)
  · rw [next_moved hw.linear hlow ht]
    exact hlow

/-- The top lies right behind the anchor of the way back if that is the mark, and before it otherwise. -/
theorem Covered.anchored {anchor : String} (hw : w.Covered) (hc : c.remote.Follows w.archive)
    (hnext : w.checkpoint.next = .unset)
    (hanchor : Crawler.IsAnchor c w.crawl.calls w.checkpoint.latest anchor)
    (hvisited : w.crawl.visited ⊆ (w.backfill c limit).crawl.visited) :
    ∃ k high, w.archive.names[k]? = some anchor ∧ (w.backfill c limit).Top high ∧
      (w.backfill c limit).Accounted k high := by
  have hsame := hw.latest_backfill c limit
  cases hlatest : w.checkpoint.latest with
  | some sha =>
    -- the stretch is the mark alone, which has been processed
    rw [hlatest] at hanchor hsame
    cases hanchor
    obtain ⟨hname, hmark⟩ := hw.mark _ hlatest
    obtain ⟨k, hk⟩ := List.mem_iff_getElem?.mp hname
    refine ⟨k, k + 1, hk, .mark hsame hk, fun i sha hi hi' hsha => .inl (hvisited ?_)⟩
    obtain rfl : i = k := by omega
    rwa [Option.some.inj (hsha.symm.trans hk)]
  | none =>
    -- the stretch is empty: the head is left to the incremental pass
    rw [hlatest] at hanchor hsame
    cases hanchor with
    | head hpage =>
      have hk := Archive.names_of_head (hc.list hpage).symm
      refine ⟨_, _, hk, .anchor hsame ?_ hk, fun i sha hi hi' _ => by omega⟩
      have hcp : w.checkpoint = {} := by
        rw [show w.checkpoint = ⟨w.checkpoint.latest, w.checkpoint.next⟩ from rfl, hlatest, hnext]
      rw [backfill, if_pos hcp, Archive.head?, ← List.getLast?_map, ← Archive.names,
        List.getLast?_eq_getElem?, hk]

/-- What the way back has processed is accounted for. -/
theorem Accounted.extend {low high k : Nat} {shas : List String} (h : w.Accounted (k + 1) high)
    (hshas : ∀ name, name ∈ shas ↔ ∃ i, low ≤ i ∧ i ≤ k ∧ w.archive.names[i]? = some name)
    (hvisited : shas ⊆ w.crawl.visited) : w.Accounted low high := by
  intro i sha hi hi' hsha
  rcases Nat.lt_or_ge k i with hlt | hle
  · exact h i sha hlt hi' hsha
  · exact .inl (hvisited ((hshas sha).mpr ⟨i, hi, hle, hsha⟩))

/-- From where the way back starts up to the top, everything is accounted for. -/
theorem Covered.started {start : String} (hw : w.Covered) (hc : c.remote.Follows w.archive)
    (hstart : Crawler.IsStart c w.crawl.calls w.checkpoint start)
    (hvisited : w.crawl.visited ⊆ (w.backfill c limit).crawl.visited) :
    ∃ k high, w.archive.names[k]? = some start ∧ (w.backfill c limit).Top high ∧
      (w.backfill c limit).Accounted (k + 1) high := by
  cases hstart with
  | resumed hnext =>
    have hset : w.checkpoint.next ≠ .unset := by rw [hnext]; exact BackfillCursor.noConfusion
    obtain ⟨low, high, hlow, hhigh, hspan⟩ := hw.span hset
    rw [hnext] at hlow
    cases hlow with
    | @«at» k _ hk =>
      refine ⟨k, high, hk, ?_, fun i sha hi hi' hsha => ?_⟩
      · cases hhigh with
        | mark hlatest hk => exact .mark ((hw.latest_backfill c limit).trans hlatest) hk
        | anchor hlatest hanchor hk =>
          -- the anchor is noted only by the pass that begins the way back
          have hkept : (w.backfill c limit).anchor = w.anchor :=
            if_neg fun hcp => hset (by rw [hcp])
          exact .anchor ((hw.latest_backfill c limit).trans hlatest) (hkept.trans hanchor) hk
      · exact (hspan i sha hi hi' hsha).imp (@hvisited _) id
  | anchored hnext hanchor hd hparent =>
    obtain ⟨k, high, hk, hhigh, hspan⟩ := hw.anchored hc hnext hanchor hvisited
    obtain ⟨j, rfl, hj⟩ := Crawler.exists_parent hc hw.linear hk hd hparent
    exact ⟨j, high, hj, hhigh, hspan⟩

/-- A backfill pass keeps what is covered. -/
theorem Covered.backfill (hw : w.Covered) (hc : c.remote.Follows w.archive) :
    (w.backfill c limit).Covered := by
  cases hr : (c.backfill limit w.crawl).1 with
  | error e => exact hw.later (hw.later_backfill (extends_backfill hr))
  | ok stats =>
    cases backfillRun hr with
    | idle _ ht => exact hw.later (hw.later_backfill (ht ▸ refl_of Crawl.Extends _))
    | unanchored _ _ _ ht _ => exact hw.later (hw.later_backfill ht)
    | @rootless _ p anchor past d hp hnext hanchor hd hparent hvisited ht =>
      rw [← checkpoint_of_positions hp] at hnext hanchor
      have hsub : w.crawl.visited ⊆ (w.backfill c limit).crawl.visited :=
        hvisited ▸ List.Subset.refl _
      obtain ⟨k, high, hk, hhigh, hspan⟩ := hw.anchored hc hnext hanchor hsub
      obtain rfl := Crawler.eq_zero_of_root hc hw.linear hk hd hparent
      exact hw.moved ht hsub .done hhigh hspan
    | @walk _ _ p start shas next hp hstart hway _ hvisited _ ht =>
      rw [← checkpoint_of_positions hp] at hstart
      have hsub : w.crawl.visited ⊆ (w.backfill c limit).crawl.visited :=
        hvisited ▸ List.subset_append_left _ _
      obtain ⟨k, high, hk, hhigh, hspan⟩ := hw.started hc hstart hsub
      obtain ⟨low, hlow, -, hshas⟩ := hway.names hc hw.linear hk
      -- the pass has processed the commits from the one where it stops up to where it starts
      exact hw.moved ht hsub hlow hhigh
        (hspan.extend hshas (hvisited ▸ List.subset_append_right _ _))

/-! ### Everything that can happen -/

theorem covered_start {a : Archive} {s : Crawl} (ha : a.IsLinear) (hs : s.IsFresh) :
    Covered ⟨a, s, none, []⟩ := by
  have hcp : World.checkpoint ⟨a, s, none, []⟩ = {} :=
    (checkpoint_of_positions hs.positions).trans rfl
  refine ⟨ha, ⟨_, hs.positions⟩, fun sha hsha => ?_, fun hnext => ?_⟩
  · rw [hcp] at hsha
    cases hsha
  · rw [hcp] at hnext
    exact absurd rfl hnext

theorem Covered.later_push {d : CommitDetail} (hw : w.Covered) (hd : (w.archive.push d).IsLinear) :
    Later w (w.push d) := by
  obtain ⟨p, hp⟩ := hw.positions
  refine ⟨hd, ?_, ⟨p, hp, (checkpoint_of_positions hp).symm⟩, List.Subset.refl _,
    List.Subset.refl _, fun _ => rfl⟩
  exact w.archive.names_push d ▸ List.prefix_append _ _

theorem Covered.withCache (hw : w.Covered) (cache : ResolutionCache) :
    (w.withCache cache).Covered := by
  obtain ⟨p, hp⟩ := hw.positions
  exact hw.later ⟨hw.linear, List.prefix_rfl, ⟨p, hp, (checkpoint_of_positions hp).symm⟩,
    List.Subset.refl _, List.Subset.refl _, fun _ => rfl⟩

/-- The positions are always right about the commits that have been processed or left out. -/
theorem Reachable.covered (hw : Reachable σ w) : w.Covered := by
  induction hw with
  | start ha hs => exact covered_start ha hs
  | push _ hd ih => exact ih.later (ih.later_push hd)
  | withCache _ cache ih => exact ih.withCache cache
  | incremental _ _ hc _ ih => exact ih.incremental hc
  | backfill _ _ hc _ ih => exact ih.backfill hc

/-- Whatever counts as processed is a commit of the history and has been processed. -/
def Recorded (σ : CrawlSettings) (a : Archive) (s : Crawl) : Prop :=
  ∀ sha ∈ s.visited, ∃ d ∈ a.commits, d.sha = sha ∧ s.Processed σ d

theorem Recorded.mono {a : Archive} {s t : Crawl} (h : Recorded σ a s)
    (hvisited : t.visited = s.visited) (hcalls : s.calls <+: t.calls)
    (hevents : s.events <+: t.events) : Recorded σ a t := by
  intro sha hsha
  obtain ⟨d, hd, rfl, hprocessed⟩ := h sha (hvisited ▸ hsha)
  exact ⟨d, hd, rfl, hprocessed.mono hcalls hevents⟩

/-- A commit that is processed is a commit of the history. -/
theorem recorded_processCommit {a : Archive} (hσ : c.settings = σ) (hc : c.remote.Follows a)
    (pass : Pass) (sha : String) :
    Within (fun s t => Recorded σ a s → Recorded σ a t) (c.processCommit pass sha) := by
  intro s hs
  cases h : c.processCommit pass sha s with
  | mk r t =>
    have hext := (Crawler.within_extends_processCommit c pass sha).of_run h
    cases r with
    | error e => exact hs.mono (Crawler.processCommit_error h).2 hext.calls hext.events
    | ok p =>
      cases p with
      | none =>
        obtain ⟨-, rfl⟩ := Crawler.processCommit_none h
        exact hs.mono rfl hext.calls hext.events
      | some p =>
        obtain ⟨d, reports, hd, -, hreports, hcall, ht⟩ := Crawler.processCommit_some h
        have hfind := hc.commit hd
        have hsha : d.sha = sha := by simpa using List.find?_some hfind
        intro name hname
        rw [Crawler.visited_of_processCommit h, List.mem_append, List.mem_singleton] at hname
        rcases hname with hname | rfl
        · -- a commit from before has kept its reports, since the log has only grown
          obtain ⟨d', hd', rfl, hprocessed⟩ := hs name hname
          exact ⟨d', hd', rfl, hprocessed.mono hext.calls hext.events⟩
        · -- the reports on this commit come right after what was in the log
          refine ⟨d, List.mem_of_find?_eq_some hfind, hsha, hsha ▸ hcall.mem (by simp), s.events,
            reports, pass.name, p.files, p.streams, [], hσ ▸ hreports, ?_⟩
          rw [ht, hsha]

/-- Whatever counts as processed has always been processed. -/
theorem Reachable.recorded (hw : Reachable σ w) : Recorded σ w.archive w.crawl := by
  induction hw with
  | start _ hs =>
    intro sha hsha
    rw [Crawl.visited, hs.events] at hsha
    cases hsha
  | push _ _ ih =>
    intro sha hsha
    obtain ⟨d, hd, hprocessed⟩ := ih sha hsha
    exact ⟨d, List.mem_append_left _ hd, hprocessed⟩
  | withCache _ _ ih => exact ih
  | incremental _ hσ hc _ ih =>
    exact Crawler.within_incremental
      (fun s _ _ hs => hs.mono rfl (List.prefix_append _ _) List.prefix_rfl)
      (recorded_processCommit hσ hc) (fun _ _ => id) _ _ ih
  | backfill _ hσ hc _ ih =>
    exact Crawler.within_backfill
      (fun s _ _ hs => hs.mono rfl (List.prefix_append _ _) List.prefix_rfl)
      (fun s _ hs => hs.mono rfl (List.prefix_append _ _) List.prefix_rfl)
      (recorded_processCommit hσ hc) (fun _ _ => id) _ _ ih

/-- What the positions of a crawl promise: the commit with the mark has been processed, and so has
every commit from the one after the position on the way back up to the mark. -/
structure Promise (σ : CrawlSettings) (a : Archive) (s : Crawl) (cp : Checkpoint) : Prop where
  mark : ∀ sha, cp.latest = some sha → ∃ d ∈ a.commits, d.sha = sha ∧ s.Processed σ d
  newer : ∀ next sha, cp.next = .at next → cp.latest = some sha →
    ∃ i j : Nat, a.names[i]? = some next ∧ a.names[j]? = some sha ∧
      ∀ k d, i < k → k ≤ j → a.commits[k]? = some d → s.Processed σ d
  all : ∀ sha, cp.next = .done → cp.latest = some sha →
    ∃ j : Nat, a.names[j]? = some sha ∧ ∀ k d, k ≤ j → a.commits[k]? = some d → s.Processed σ d

theorem Reachable.processed_of_visited {d : CommitDetail} (hw : Reachable σ w)
    (hd : d ∈ w.archive.commits) (hsha : d.sha ∈ w.crawl.visited) : w.crawl.Processed σ d := by
  obtain ⟨e, he, heq, hprocessed⟩ := hw.recorded d.sha hsha
  rwa [hw.covered.linear.eq_of_sha hd he heq.symm]

/-- With a mark, whatever lies between the position on the way back and the mark has been processed,
unless something was left out. -/
theorem Reachable.processed_span {next : BackfillCursor} {sha : String} (hw : Reachable σ w)
    (hcap : w.leftOut = []) (hnext : w.checkpoint.next = next) (hset : next ≠ .unset)
    (hlatest : w.checkpoint.latest = some sha) :
    ∃ low j, w.archive.Ahead next low ∧ w.archive.names[j]? = some sha ∧
      ∀ k d, low ≤ k → k ≤ j → w.archive.commits[k]? = some d → w.crawl.Processed σ d := by
  subst hnext
  obtain ⟨low, high, hlow, hhigh, hspan⟩ := hw.covered.span hset
  cases hhigh with
  | anchor hnone => rw [hlatest] at hnone; cases hnone
  | @mark _ j hmark hj =>
    cases hlatest.symm.trans hmark
    refine ⟨low, j, hlow, hj, fun k d hk hkj hd => ?_⟩
    have hname : w.archive.names[k]? = some d.sha := by rw [Archive.getElem?_names, hd]; rfl
    -- the mark is the last commit below the top
    rcases hspan k d.sha hk (by omega) hname with hvisited | hleft
    · exact hw.processed_of_visited (List.mem_of_getElem? hd) hvisited
    · rw [hcap] at hleft
      cases hleft

/-- Whatever happens, the positions keep their promise, as long as every incremental pass that gets a
page finds all commits that are due on it. -/
theorem Reachable.coverage (hw : Reachable σ w) (hcap : w.leftOut = []) :
    ∃ cp, w.crawl.db.load = .ok cp ∧ Promise σ w.archive w.crawl cp := by
  obtain ⟨p, hp⟩ := hw.covered.positions
  have hcp := checkpoint_of_positions hp
  refine ⟨w.checkpoint, by rw [Database.load, hp, hcp]; rfl, fun sha hsha => ?_,
    fun next sha hnext hsha => ?_, fun sha hnext hsha => ?_⟩
  · obtain ⟨-, hvisited⟩ := hw.covered.mark sha hsha
    exact hw.recorded sha hvisited
  · obtain ⟨low, j, hlow, hj, hspan⟩ := hw.processed_span hcap hnext BackfillCursor.noConfusion hsha
    cases hlow with
    | @«at» i _ hi => exact ⟨i, j, hi, hj, fun k d hk => hspan k d hk⟩
  · obtain ⟨low, j, hlow, hj, hspan⟩ := hw.processed_span hcap hnext BackfillCursor.noConfusion hsha
    cases hlow with
    | done => exact ⟨j, hj, fun k d => hspan k d (Nat.zero_le k)⟩

/-- A backfill pass from the head of three commits, and another commit. -/
def smallBefore : World := ((fresh .small).backfill (.small .small) 1).push (.small "d" ["c"])

theorem isLinear_smallBefore : smallBefore.archive.IsLinear :=
  Archive.isLinear_small.push (d := .small "d" ["c"]) rfl (by decide) (by decide)

/-- An incremental pass that reaches down to the head of before. -/
def small : World := smallBefore.incremental (.small smallBefore.archive) 2

theorem coverage_small : Reachable {} small ∧ small.leftOut = [] ∧
    ∃ cp, small.crawl.db.load = .ok cp ∧ Promise {} small.archive small.crawl cp := by
  have hlinear : (Archive.small.push (.small "d" ["c"])).IsLinear :=
    Archive.isLinear_small.push rfl (by decide +kernel) (by decide +kernel)
  have hbefore : Reachable {} smallBefore :=
    ((reachable_fresh Archive.isLinear_small).backfill rfl (Crawler.follows_small _) 1).push hlinear
  have hreachable : Reachable {} small := hbefore.incremental rfl (Crawler.follows_small _) 2
  have hcap : small.leftOut = [] := by decide +kernel
  exact ⟨hreachable, hcap, hreachable.coverage hcap⟩

end World

end Harvest
