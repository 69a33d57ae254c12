import Harvest.Proofs.Crawl.Course
import Harvest.Proofs.Crawl.Runs
import Mathlib.Data.List.Infix

/-!
# A crawl only moves forward

Whatever fails, and however the history grows in the meantime, the positions of a crawl move in one
direction only: the mark to newer commits, the position on the way back from commit to first parent,
and the state from one to the next, up to the last one, in which it stays.

## Main definitions

* `CrawlState.rank` — how far a state is from the beginning
* `Remote.Tracks` — what a remote tells about a history that grows while it is asked
* `Checkpoint.LiesIn`, `Checkpoint.Forward` — positions in a history, and later ones
* `FirstParents` — commits in a row along first parents
* `Crawler.CursorMove`, `Crawler.PassMove` — what a pass does to the positions
* `Crawl.Evolves` — what passes make of a crawl beside a growing history

## Main results

* `Crawler.passMove` — one pass moves forward
* `Crawl.Evolves.forward` — so does any sequence of passes, and each pass of it moves as it should
-/

namespace Harvest

open CrawlStep

/-- How far a state is from the beginning. -/
def CrawlState.rank : CrawlState → Nat
  | init => 0
  | incrementalCatchingUp => 1
  | backfillActive => 2
  | backfillDone => 3

/-! ### Growing histories -/

namespace Archive

variable {a b : Archive} {sha old new : String} {k : Nat}

/-- One commit comes before another one. -/
def Precedes (a : Archive) (old new : String) : Prop :=
  ∃ i j : Nat, i < j ∧ a.names[i]? = some old ∧ a.names[j]? = some new

theorem names_kept (h : a.commits <+: b.commits) : a.names <+: b.names := h.map _

theorem getElem?_of_commits (h : a.commits <+: b.commits) (hk : a.names[k]? = some sha) :
    b.names[k]? = some sha := by
  obtain ⟨more, hmore⟩ := names_kept h
  rw [← hmore, List.getElem?_append_left (lt_of_names hk), hk]

theorem Precedes.mono (h : a.commits <+: b.commits) (hold : a.Precedes old new) :
    b.Precedes old new := by
  obtain ⟨i, j, hij, hi, hj⟩ := hold
  exact ⟨i, j, hij, getElem?_of_commits h hi, getElem?_of_commits h hj⟩

theorem Precedes.trans {mid : String} (ha : a.IsLinear) (h : a.Precedes old mid)
    (h' : a.Precedes mid new) : a.Precedes old new := by
  obtain ⟨i, j, hij, hi, hj⟩ := h
  obtain ⟨j', k, hjk, hj', hk⟩ := h'
  obtain rfl := ha.names_inj hj hj'
  exact ⟨i, k, Nat.lt_trans hij hjk, hi, hk⟩

/-- The beginning of a linear history is linear. -/
theorem IsLinear.of_grown (hb : b.IsLinear) (h : a.commits <+: b.commits) : a.IsLinear where
  root d hd := by
    obtain ⟨more, hmore⟩ := h
    refine hb.root d ?_
    rw [← hmore, List.getElem?_append_left (List.getElem?_eq_some_iff.mp hd).1, hd]
  parent k d e hd he := by
    obtain ⟨more, hmore⟩ := h
    refine hb.parent k d e ?_ ?_
    · rw [← hmore, List.getElem?_append_left (List.getElem?_eq_some_iff.mp hd).1, hd]
    · rw [← hmore, List.getElem?_append_left (List.getElem?_eq_some_iff.mp he).1, he]
  nodup := hb.nodup.sublist (names_kept h).sublist
  proper sha hsha := hb.proper sha ((names_kept h).mem hsha)

theorem IsLinear.mem_of_firstParent? (ha : a.IsLinear) {d : CommitDetail} {parent : String}
    (hd : d ∈ a.commits) (hparent : d.firstParent? = some parent) : parent ∈ a.names := by
  obtain ⟨k, hk⟩ := List.mem_iff_getElem?.mp hd
  rw [ha.firstParent?_eq hk] at hparent
  split at hparent
  · cases hparent
  · exact mem_of_names hparent

end Archive

/-- What a remote tells about a history that grows from one archive to another while it is asked: a
page of the listing is that of some moment in between, and any request may fail. -/
structure Remote.Tracks (r : Remote) (a b : Archive) : Prop where
  list : ∀ {past n page ls}, r.list past n page = .ok ls →
    ∃ x : Archive, a.commits <+: x.commits ∧ x.commits <+: b.commits ∧ ls = x.page n page
  commit : ∀ {past sha d}, r.commit past sha = .ok d → b.find? sha = some d

/-- A remote that agrees with an archive tells about a history that does not grow. -/
theorem Remote.Follows.tracks {r : Remote} {a : Archive} (h : r.Follows a) : r.Tracks a a where
  list hls := ⟨a, List.prefix_rfl, List.prefix_rfl, h.list hls⟩
  commit := h.commit

theorem Remote.Tracks.detail {r : Remote} {a b : Archive} (h : r.Tracks a b)
    {past : List RemoteCall} {sha : String} {d : CommitDetail} (hd : r.commit past sha = .ok d) :
    d ∈ b.commits ∧ d.sha = sha := by
  have hfind := h.commit hd
  exact ⟨List.mem_of_find?_eq_some hfind, by simpa using List.find?_some hfind⟩

/-! ### Positions -/

namespace Checkpoint

variable {a b : Archive} {x y z : Checkpoint}

/-- The positions are on commits of the history. -/
structure LiesIn (x : Checkpoint) (a : Archive) : Prop where
  mark : ∀ sha, x.latest = some sha → sha ∈ a.names
  next : ∀ sha, x.next = .at sha → sha ∈ a.names

/-- The second positions may come after the first ones. -/
structure Forward (a : Archive) (x y : Checkpoint) : Prop where
  state : x.state.rank ≤ y.state.rank
  done : x.state = .backfillDone → y.state = .backfillDone
  mark : ∀ old, x.latest = some old → ∃ new, y.latest = some new ∧ (new = old ∨ a.Precedes old new)

theorem LiesIn.mono (h : x.LiesIn a) (hgrow : a.commits <+: b.commits) : x.LiesIn b where
  mark sha hsha := (Archive.names_kept hgrow).mem (h.mark sha hsha)
  next sha hsha := (Archive.names_kept hgrow).mem (h.next sha hsha)

theorem Forward.refl (a : Archive) (x : Checkpoint) : Forward a x x :=
  ⟨Nat.le_refl _, id, fun old hold => ⟨old, hold, .inl rfl⟩⟩

theorem Forward.mono (h : Forward a x y) (hgrow : a.commits <+: b.commits) : Forward b x y :=
  ⟨h.state, h.done, fun old hold =>
    (h.mark old hold).imp fun _ hnew => hnew.imp id (.imp id (.mono hgrow))⟩

theorem Forward.trans (ha : a.IsLinear) (h : Forward a x y) (h' : Forward a y z) :
    Forward a x z where
  state := Nat.le_trans h.state h'.state
  done hx := h'.done (h.done hx)
  mark old hold := by
    obtain ⟨mid, hmid, hold⟩ := h.mark old hold
    obtain ⟨new, hnew, hmid⟩ := h'.mark mid hmid
    refine ⟨new, hnew, ?_⟩
    rcases hold with rfl | hold
    · exact hmid
    · rcases hmid with rfl | hmid
      · exact .inr hold
      · exact .inr (hold.trans ha hmid)

/-- The state does not move back if neither position does. -/
theorem Forward.of_positions
    (hmark : ∀ old, x.latest = some old → ∃ new, y.latest = some new ∧
      (new = old ∨ a.Precedes old new))
    (hdone : x.next = .done → y.next = .done) (hset : x.next ≠ .unset → y.next ≠ .unset) :
    Forward a x y := by
  refine ⟨?_, fun hx => ?_, hmark⟩
  · -- the state depends only on which positions are set, so the cases are few
    obtain ⟨latest, next⟩ := x
    obtain ⟨latest', next'⟩ := y
    cases next <;> cases next' <;> cases latest <;> cases latest' <;>
      simp_all [Checkpoint.state, CrawlState.rank]
  · rw [Checkpoint.state_eq_done] at hx ⊢
    exact hdone hx

end Checkpoint

theorem Database.load_eq {d : Database} {x : Checkpoint} :
    d.load = .ok x ↔ ∃ p, d.positions = some p ∧ p.checkpoint = x := by
  unfold load
  cases d.positions <;> simp [table, Except.map]

theorem Crawl.Extends.load_eq {s t : Crawl} (h : Crawl.Extends s t) : t.db.load = s.db.load := by
  unfold Database.load
  rw [h.positions]

/-! ### The way back -/

/-- The commits lie in a row from the named one on, each followed by its first parent, and the
position comes after the last of them. -/
inductive FirstParents : String → List CommitDetail → BackfillCursor → Prop
  | here (sha : String) : FirstParents sha [] (.at sha)
  | root {d : CommitDetail} (hparent : d.firstParent? = none) : FirstParents d.sha [d] .done
  | step {d : CommitDetail} {parent : String} {ds : List CommitDetail} {next : BackfillCursor}
      (hparent : d.firstParent? = some parent) (rest : FirstParents parent ds next) :
      FirstParents d.sha (d :: ds) next

namespace FirstParents

variable {a : Archive} {sha : String} {ds : List CommitDetail} {next : BackfillCursor}

theorem ne_unset (h : FirstParents sha ds next) : next ≠ .unset := by
  induction h with
  | here | root => exact BackfillCursor.noConfusion
  | step _ _ ih => exact ih

/-- The first commit of the history is reached only by coming to a commit without parent. -/
theorem exists_root (h : FirstParents sha ds next) (hnext : next = .done) :
    ∃ d ∈ ds, d.firstParent? = none := by
  induction h with
  | here => cases hnext
  | root hparent => exact ⟨_, List.mem_singleton_self _, hparent⟩
  | step _ _ ih =>
    obtain ⟨d, hd, hparent⟩ := ih hnext
    exact ⟨d, List.mem_cons_of_mem _ hd, hparent⟩

/-- The way leads to commits of the history. -/
theorem mem_names (h : FirstParents sha ds next) (ha : a.IsLinear) (hsha : sha ∈ a.names)
    (hds : ∀ d ∈ ds, d ∈ a.commits) : ∀ sha', next = .at sha' → sha' ∈ a.names := by
  induction h with
  | here =>
    rintro _ ⟨⟩
    exact hsha
  | root => exact fun _ hnext => by cases hnext
  | step hparent _ ih =>
    obtain ⟨hd, hds⟩ := List.forall_mem_cons.mp hds
    exact ih (ha.mem_of_firstParent? hd hparent) hds

/-- The position that the way leads to is read back as it was stored. -/
theorem ofStored_eq (h : FirstParents sha ds next) (ha : a.IsLinear) (hsha : sha ∈ a.names)
    (hds : ∀ d ∈ ds, d ∈ a.commits) : BackfillCursor.ofStored next.stored? = next :=
  BackfillCursor.ofStored_stored fun sha' hnext =>
    ha.proper sha' (h.mem_names ha hsha hds sha' hnext)

end FirstParents

/-! ### What is processed in a pass -/

namespace Crawl

variable {s t u : Crawl} {σ : CrawlSettings} {d : CommitDetail}

/-- Nothing that was asked or reported is lost. -/
structure Continues (s t : Crawl) : Prop where
  calls : s.calls <+: t.calls
  events : s.events <+: t.events

theorem Extends.continues (h : Extends s t) : Continues s t := ⟨h.calls, h.events⟩

/-- What has been asked and reported since an earlier state. -/
def since (t s : Crawl) : Crawl :=
  { t with calls := t.calls.drop s.calls.length, events := t.events.drop s.events.length }

theorem since_of_eq {ks : List RemoteCall} {es : List Event} (hcalls : t.calls = s.calls ++ ks)
    (hevents : t.events = s.events ++ es) : t.since s = { t with calls := ks, events := es } := by
  simp [since, hcalls, hevents]

/-- What has been processed since a later state has been processed since an earlier one. -/
theorem Processed.since_earlier (h : (t.since u).Processed σ d) (hsu : Continues s u)
    (hut : Continues u t) : (t.since s).Processed σ d := by
  obtain ⟨⟨ks, hks⟩, es, hes⟩ := hsu
  obtain ⟨⟨ks', hks'⟩, es', hes'⟩ := hut
  rw [since_of_eq hks'.symm hes'.symm] at h
  rw [← hks, List.append_assoc] at hks'
  rw [← hes, List.append_assoc] at hes'
  rw [since_of_eq hks'.symm hes'.symm]
  obtain ⟨hcall, past, reports, pass, files, streams, future, hreports, hevents⟩ := h
  refine ⟨List.mem_append_right _ hcall, es ++ past, reports, pass, files, streams, future, hreports,
    ?_⟩
  have hlog : es' = past ++ reports ++ .commit pass d.sha files streams :: future := hevents
  simp [hlog]

/-- What has been processed by now has been processed later as well. -/
theorem Processed.since_later (h : (u.since s).Processed σ d) (hut : Continues u t) :
    (t.since s).Processed σ d :=
  h.mono (hut.calls.drop _) (hut.events.drop _)

end Crawl

namespace Crawler

variable {c : Crawler} {a b : Archive} {s t : Crawl} {x : Checkpoint} {limit : Nat}

/-- A commit that is processed is a commit of the history, and all that belongs to it is asked and
reported in between. -/
theorem processed_since {pass : Pass} {sha : String} {p : ProcessedCommit}
    (hc : c.remote.Tracks a b) (h : c.processCommit pass sha s = (.ok (some p), t)) :
    ∃ d ∈ b.commits, d.sha = sha ∧ p.firstParent = d.firstParent? ∧
      (t.since s).Processed c.settings d := by
  obtain ⟨d, reports, hd, hparent, hreports, hcalls, hevents⟩ := processCommit_some h
  obtain ⟨hmem, hsha⟩ := hc.detail hd
  obtain ⟨ks, hks⟩ := hcalls
  -- the calls and events of this commit are exactly what comes behind those of the state before
  rw [List.append_assoc] at hks hevents
  refine ⟨d, hmem, hsha, hparent, ?_⟩
  rw [Crawl.since_of_eq hks.symm hevents, hsha.symm]
  exact ⟨List.mem_append_left _ (List.mem_singleton_self _), [], reports, pass.name, p.files,
    p.streams, [], hreports, rfl⟩

/-- The backfill pass goes along first parents through commits that it processes. -/
theorem firstParents_of_walkBack {n : Nat} {sha : String} {stats : PassStats}
    {next : BackfillCursor} (hc : c.remote.Tracks a b)
    (h : c.walkBack n sha s = (.ok (stats, next), t)) :
    ∃ ds, FirstParents sha ds next ∧
      ∀ d ∈ ds, d ∈ b.commits ∧ (t.since s).Processed c.settings d := by
  induction n generalizing sha s stats next with
  | zero =>
    cases h
    exact ⟨[], .here sha, fun d hd => by cases hd⟩
  | succ n ih =>
    obtain ⟨p, u, hp, hrest⟩ := bind_ok h
    cases p with
    | none =>
      cases hrest
      exact ⟨[], .here sha, fun d hd => by cases hd⟩
    | some p =>
      obtain ⟨d, hd, rfl, hfirst, hprocessed⟩ := processed_since hc hp
      cases hparent : p.firstParent with
      | none =>
        simp only [hparent] at hrest
        cases hrest
        exact ⟨[d], .root (hfirst ▸ hparent), by simpa using ⟨hd, hprocessed⟩⟩
      | some parent =>
        simp only [hparent] at hrest
        obtain ⟨⟨stats', next'⟩, v, hwalk, hend⟩ := bind_ok hrest
        cases hend
        obtain ⟨ds, hway, hds⟩ := ih hwalk
        -- the rest is processed since the first commit, and the first commit before the rest
        have hsu := ((within_extends_processCommit c .backfill d.sha).of_run hp).continues
        have hextends := (within_walkBack (within_extends_processCommit c) n parent).of_run hwalk
        have hut := hextends.continues
        refine ⟨d :: ds, .step (hfirst ▸ hparent) hway, List.forall_mem_cons.mpr
          ⟨⟨hd, hprocessed.since_later hut⟩, fun e he => ?_⟩⟩
        obtain ⟨hmem, he⟩ := hds e he
        exact ⟨hmem, he.since_earlier hsu hut⟩

/-! ### What a pass does to the positions -/

/-- The commit is the anchor of the way back, and its details have been fetched in between. -/
structure Anchors (c : Crawler) (b : Archive) (s t : Crawl) (latest : Option String)
    (d : CommitDetail) : Prop where
  mem : d ∈ b.commits
  anchor : IsAnchor c s.calls latest d.sha
  fetched : ∃ past, s.calls <+: past ∧ past ++ [.commit d.sha] <+: t.calls ∧
    c.remote.commit past d.sha = .ok d

theorem Anchors.later {u : Crawl} {latest : Option String} {d : CommitDetail}
    (h : c.Anchors b s t latest d) (ht : t.calls <+: u.calls) : c.Anchors b s u latest d :=
  { h with fetched := h.fetched.imp fun _ hpast => ⟨hpast.1, hpast.2.1.trans ht, hpast.2.2⟩ }

/-- The ways in which a backfill pass leaves or moves the position on the way back. -/
inductive CursorMove (c : Crawler) (b : Archive) (s t : Crawl) (latest : Option String) :
    BackfillCursor → BackfillCursor → Prop
  /-- The position stays. -/
  | stays (next : BackfillCursor) : CursorMove c b s t latest next next
  /-- The position moves along first parents through commits that are processed in the pass. -/
  | walks {sha : String} {next : BackfillCursor} {ds : List CommitDetail}
      (hway : FirstParents sha ds next)
      (hds : ∀ d ∈ ds, d ∈ b.commits ∧ (t.since s).Processed c.settings d) :
      CursorMove c b s t latest (.at sha) next
  /-- The way back begins at the first parent of the anchor, and moves in the same manner. -/
  | begins {anchor : CommitDetail} {start : String} {next : BackfillCursor} {ds : List CommitDetail}
      (hanchor : c.Anchors b s t latest anchor) (hparent : anchor.firstParent? = some start)
      (hway : FirstParents start ds next)
      (hds : ∀ d ∈ ds, d ∈ b.commits ∧ (t.since s).Processed c.settings d) :
      CursorMove c b s t latest .unset next
  /-- The way back is over before it begins, since the anchor has no parent. -/
  | ends {anchor : CommitDetail} (hanchor : c.Anchors b s t latest anchor)
      (hparent : anchor.firstParent? = none) : CursorMove c b s t latest .unset .done

/-- What a pass does to the positions: neither pass touches the position of the other one. -/
inductive PassMove (c : Crawler) (b : Archive) (s t : Crawl) :
    Pass → Checkpoint → Checkpoint → Prop
  | incremental {x y : Checkpoint} (hnext : y.next = x.next) : PassMove c b s t .incremental x y
  | backfill {x y : Checkpoint} (hlatest : y.latest = x.latest)
      (hmove : CursorMove c b s t x.latest x.next y.next) : PassMove c b s t .backfill x y

namespace CursorMove

variable {latest : Option String} {next next' : BackfillCursor}

theorem done_of_done (h : CursorMove c b s t latest next next') (hnext : next = .done) :
    next' = .done := by
  cases h with
  | stays => exact hnext
  | walks | begins | ends => cases hnext

theorem ne_unset (h : CursorMove c b s t latest next next') (hnext : next ≠ .unset) :
    next' ≠ .unset := by
  cases h with
  | stays => exact hnext
  | walks hway => exact hway.ne_unset
  | begins | ends => exact absurd rfl hnext

/-- The way back is over only after a commit without parent, or an anchor without parent. -/
theorem exists_root (h : CursorMove c b s t latest next .done) (hnext : next ≠ .done) :
    (∃ d ∈ b.commits, (t.since s).Processed c.settings d ∧ d.firstParent? = none) ∨
      ∃ d, c.Anchors b s t latest d ∧ d.firstParent? = none := by
  have processed : ∀ {ds : List CommitDetail},
      (∀ d ∈ ds, d ∈ b.commits ∧ (t.since s).Processed c.settings d) →
      (∃ d ∈ ds, d.firstParent? = none) →
      ∃ d ∈ b.commits, (t.since s).Processed c.settings d ∧ d.firstParent? = none := by
    rintro ds hds ⟨d, hd, hparent⟩
    exact ⟨d, (hds d hd).1, (hds d hd).2, hparent⟩
  cases h with
  | stays => exact absurd rfl hnext
  | walks hway hds | begins _ _ hway hds => exact .inl (processed hds (hway.exists_root rfl))
  | ends hanchor hparent => exact .inr ⟨_, hanchor, hparent⟩

end CursorMove

/-- The incremental pass moves the mark to a newer commit or leaves it, and leaves the position on
the way back. -/
theorem incremental_moves (hb : b.IsLinear) (hgrow : a.commits <+: b.commits)
    (hc : c.remote.Tracks a b) (hx : s.db.load = .ok x) (hin : x.LiesIn a) (limit : Nat) :
    ∃ y, (c.incremental limit s).2.db.load = .ok y ∧ y.LiesIn b ∧ x.Forward b y ∧
      y.next = x.next := by
  have still : ∀ {t : Crawl}, Crawl.Extends s t →
      ∃ y, t.db.load = .ok y ∧ y.LiesIn b ∧ x.Forward b y ∧ y.next = x.next := fun ht =>
    -- a pass that fails, or finds nothing to do, has written no position
    ⟨x, ht.load_eq.trans hx, hin.mono hgrow, .refl b x, rfl⟩
  cases h : c.incremental limit s with
  | mk r t =>
    cases r with
    | error e => exact still (incremental_error h)
    | ok stats =>
      cases incrementalRun_of_incremental h with
      | idle _ ht => exact still ht
      | @through _ _ p head page done left hlimit hp hpage hpending _ _ _ ht =>
        obtain ⟨p', hp', rfl⟩ := Database.load_eq.mp hx
        cases hp.symm.trans hp'
        -- the page is that of a moment during the pass
        obtain ⟨m, ham, hmb, hm⟩ := hc.list hpage
        have hlinear := hb.of_grown hmb
        have hn : c.perPage limit ≠ 0 := by unfold perPage; omega
        have hlatest : ∀ mark, p.checkpoint.latest = some mark → mark ∈ m.names := fun mark hmark =>
          (Archive.names_kept ham).mem (hin.mark mark hmark)
        have hcp := hlinear.checkpoint_through hn hlatest hm hpending
        rw [hm, hlinear.reverse_newer_eq hlatest] at hpending
        -- the commits that the pass processes come after the mark
        have hdone : ∀ last, done.getLast? = some last → last ∈ m.names ∧
            ∀ old, p.checkpoint.latest = some old → m.Precedes old last := by
          intro last hlast
          have hlen : 0 < done.length := List.length_pos_of_mem (List.mem_of_getLast? hlast)
          have hname : m.names[m.skipped p.checkpoint.latest (c.perPage limit) +
              (done.length - 1)]? = some last := by
            rw [← List.getElem?_drop, hpending, List.getElem?_append_left (by omega),
              ← List.getLast?_eq_getElem?, hlast]
          refine ⟨Archive.mem_of_names hname, fun old hold => ?_⟩
          obtain ⟨k, hk⟩ := List.mem_iff_getElem?.mp (hlatest old hold)
          refine ⟨k, _, ?_, hk, hname⟩
          rw [Archive.skipped, hold, Option.elim_some, hlinear.idxOf_eq hk]
          omega
        refine ⟨_, Database.load_eq.mpr ⟨_, ht, hcp⟩, ⟨fun sha hsha => ?_, fun sha hsha => ?_⟩,
          .of_positions (fun old hold => ?_) id id, rfl⟩
        · refine (Archive.names_kept hmb).mem ?_
          rcases Option.or_eq_some_iff.mp hsha with hlast | ⟨-, hsha⟩
          · exact (hdone sha hlast).1
          · exact hlatest sha hsha
        · exact (hin.mono hgrow).next sha hsha
        · cases hlast : done.getLast? with
          | none => exact ⟨old, hold, .inl rfl⟩
          | some last => exact ⟨last, rfl, .inr (((hdone last hlast).2 old hold).mono hmb)⟩

/-- Where the way back begins turns out with an anchor whose details are fetched, or not at all. -/
theorem anchors_of_backfillStart {p : Positions} {latest start : Option String}
    (hc : c.remote.Tracks a b) (hp : s.db.positions = some p)
    (h : c.backfillStart latest s = (.ok start, t)) :
    start = none ∧ Crawl.Extends s t ∨
      ∃ d, c.Anchors b s t latest d ∧ start = d.firstParent? ∧
        ((∃ parent, start = some parent) ∧ Crawl.Extends s t ∨
          start = none ∧ t.db.positions = some { p with next := BackfillCursor.done.stored? }) := by
  obtain ⟨anchor, u, hu, hrest⟩ := bind_ok h
  obtain ⟨hext, -, ⟨sha, rfl, hanchor⟩ | ⟨rfl, -⟩⟩ := anchor_ok hu
  · obtain ⟨answer, v, hv, hrest⟩ := bind_ok hrest
    rw [commit_run] at hv
    cases hv
    have hcall := trans_of Crawl.Extends hext (u.extends_call (.commit sha))
    cases hd : c.remote.commit u.calls sha with
    | error e =>
      -- the anchor is known, but nothing is decided without its details
      rw [hd] at hrest
      cases hrest
      exact .inl ⟨rfl, hcall⟩
    | ok d =>
      obtain ⟨hmem, rfl⟩ := hc.detail hd
      have hfetched : c.Anchors b s (u.call (.commit d.sha)) latest d :=
        ⟨hmem, hanchor, u.calls, hext.calls, List.prefix_rfl, hd⟩
      simp only [hd] at hrest
      cases hparent : d.firstParent? with
      | some parent =>
        simp only [hparent] at hrest
        cases hrest
        exact .inr ⟨d, hfetched, hparent.symm, .inl ⟨⟨parent, rfl⟩, hcall⟩⟩
      | none =>
        -- the history begins with the anchor: the end of the way back is saved at once
        simp only [hparent] at hrest
        obtain ⟨_, w, hsave, hend⟩ := bind_ok hrest
        cases hend
        have ht := updatePositions_ok (hcall.positions.trans hp) hsave
        subst ht
        exact .inr ⟨d, hfetched.later List.prefix_rfl, hparent.symm, .inr ⟨rfl, rfl⟩⟩
  · cases hrest
    exact .inl ⟨rfl, hext⟩

/-- From a commit on, the position moves along first parents. -/
theorem backfillFrom_moves {p : Positions} {start : String} {stats : PassStats} (hb : b.IsLinear)
    (hc : c.remote.Tracks a b) (hp : s.db.positions = some p) (hstart : start ∈ b.names)
    (h : c.backfillFrom limit start s = (.ok stats, t)) :
    ∃ y ds, t.db.load = .ok y ∧ y.latest = p.checkpoint.latest ∧ FirstParents start ds y.next ∧
      (∀ sha, y.next = .at sha → sha ∈ b.names) ∧ Crawl.Continues s t ∧
      ∀ d ∈ ds, d ∈ b.commits ∧ (t.since s).Processed c.settings d := by
  obtain ⟨⟨stats', next⟩, u, hwalk, hrest⟩ := bind_ok h
  obtain ⟨_, v, hsave, hend⟩ := bind_ok hrest
  cases hend
  obtain ⟨ds, hway, hds⟩ := firstParents_of_walkBack hc hwalk
  have hext := (within_walkBack (within_extends_processCommit c) limit start).of_run hwalk
  have hmem : ∀ d ∈ ds, d ∈ b.commits := fun d hd => (hds d hd).1
  obtain rfl := updatePositions_ok (hext.positions.trans hp) hsave
  refine ⟨⟨p.checkpoint.latest, next⟩, ds, Database.load_eq.mpr ⟨_, rfl, ?_⟩, rfl, hway,
    hway.mem_names hb hstart hmem, ⟨hext.calls, hext.events⟩, hds⟩
  rw [Positions.checkpoint, hway.ofStored_eq hb hstart hmem]
  rfl

/-- The backfill pass moves the position on the way back in one of four ways, and keeps the mark. -/
theorem backfill_moves (hb : b.IsLinear) (hgrow : a.commits <+: b.commits)
    (hc : c.remote.Tracks a b) (hx : s.db.load = .ok x) (hin : x.LiesIn a) (limit : Nat) :
    ∃ y, (c.backfill limit s).2.db.load = .ok y ∧ y.LiesIn b ∧ y.latest = x.latest ∧
      CursorMove c b s (c.backfill limit s).2 x.latest x.next y.next := by
  have hin' := hin.mono hgrow
  have still : ∀ {t : Crawl}, Crawl.Extends s t → ∃ y, t.db.load = .ok y ∧ y.LiesIn b ∧
      y.latest = x.latest ∧ CursorMove c b s t x.latest x.next y.next := fun ht =>
    ⟨x, ht.load_eq.trans hx, hin', rfl, .stays _⟩
  cases h : c.backfill limit s with
  | mk r t =>
    cases r with
    | error e => exact still (backfill_error h)
    | ok stats =>
      obtain ⟨p, hp, rfl⟩ := Database.load_eq.mp hx
      unfold backfill at h
      split at h
      · cases h
        exact still (refl_of Crawl.Extends _)
      obtain ⟨cp, u, hcp, hrest⟩ := bind_ok h
      obtain ⟨rfl, p', hp', rfl⟩ := checkpoint_ok hcp
      cases hp.symm.trans hp'
      cases hnext : p.checkpoint.next with
      | done =>
        simp only [hnext] at hrest
        cases hrest
        exact hnext ▸ still (refl_of Crawl.Extends _)
      | «at» sha =>
        simp only [hnext] at hrest
        obtain ⟨y, ds, hy, hlatest, hway, hnames, -, hds⟩ :=
          backfillFrom_moves hb hc hp (hin'.next sha hnext) hrest
        exact ⟨y, hy, ⟨fun sha hsha => hin'.mark sha (hlatest ▸ hsha), hnames⟩, hlatest,
          .walks hway hds⟩
      | unset =>
        simp only [hnext] at hrest
        obtain ⟨start, v, hv, hfrom⟩ := bind_ok hrest
        rcases anchors_of_backfillStart hc hp hv with
          ⟨rfl, hext⟩ | ⟨d, hd, hparent, ⟨⟨start, rfl⟩, hext⟩ | ⟨rfl, hpos⟩⟩
        · cases hfrom
          exact hnext ▸ still hext
        · -- the pass goes on from the first parent of the anchor
          have hstart := hb.mem_of_firstParent? hd.mem hparent.symm
          obtain ⟨y, ds, hy, hlatest, hway, hnames, hmore, hds⟩ :=
            backfillFrom_moves hb hc (hext.positions.trans hp) hstart hfrom
          exact ⟨y, hy, ⟨fun sha hsha => hin'.mark sha (hlatest ▸ hsha), hnames⟩, hlatest,
            .begins (hd.later hmore.calls) hparent.symm hway fun e he =>
              ⟨(hds e he).1, (hds e he).2.since_earlier hext.continues hmore⟩⟩
        · cases hfrom
          refine ⟨⟨p.checkpoint.latest, .done⟩, Database.load_eq.mpr ⟨_, hpos, ?_⟩,
            ⟨hin'.mark, fun sha hsha => by cases hsha⟩, rfl, .ends hd hparent.symm⟩
          rw [Positions.checkpoint, BackfillCursor.ofStored_stored fun sha hsha => by cases hsha]
          rfl

/-- A pass moves the positions forward, each in its own way. -/
theorem passMove (hb : b.IsLinear) (hgrow : a.commits <+: b.commits) (hc : c.remote.Tracks a b)
    (hx : s.db.load = .ok x) (hin : x.LiesIn a) (p : Pass) (limit : Nat) :
    ∃ y, (c.pass limit p s).2.db.load = .ok y ∧ y.LiesIn b ∧ x.Forward b y ∧
      c.PassMove b s (c.pass limit p s).2 p x y := by
  cases p with
  | incremental =>
    obtain ⟨y, hy, hlies, hforward, hnext⟩ := incremental_moves hb hgrow hc hx hin limit
    exact ⟨y, hy, hlies, hforward, .incremental hnext⟩
  | backfill =>
    obtain ⟨y, hy, hlies, hlatest, hmove⟩ := backfill_moves hb hgrow hc hx hin limit
    refine ⟨y, hy, hlies, .of_positions (fun old hold => ⟨old, hlatest.trans hold, .inl rfl⟩)
      hmove.done_of_done hmove.ne_unset, .backfill hlatest hmove⟩

/-- The way back is over only after a commit without parent, or an anchor without parent. -/
theorem PassMove.exists_root {p : Pass} {y : Checkpoint} (h : c.PassMove b s t p x y)
    (hx : x.next ≠ .done) (hy : y.next = .done) :
    (∃ d ∈ b.commits, (t.since s).Processed c.settings d ∧ d.firstParent? = none) ∨
      ∃ d, c.Anchors b s t x.latest d ∧ d.firstParent? = none := by
  cases h with
  | incremental hnext => exact absurd (hnext ▸ hy) hx
  | backfill _ hmove => exact (hy ▸ hmove).exists_root hx

end Crawler

/-! ### Any sequence of passes -/

namespace Crawl

/-- What becomes of an archive and of a crawl beside it, while commits are pushed and passes are
made. Each pass may have a remote, a search, settings and a limit of its own, may be made while the
history grows, and may end with an error. -/
inductive Evolves (a : Archive) (s : Crawl) : Archive → Crawl → Prop
  | here : Evolves a s a s
  | grow {b b' : Archive} {t : Crawl} (h : Evolves a s b t) (hgrow : b.commits <+: b'.commits)
      (hb' : b'.IsLinear) : Evolves a s b' t
  | pass {b b' : Archive} {t : Crawl} {c : Crawler} (h : Evolves a s b t)
      (hgrow : b.commits <+: b'.commits) (hb' : b'.IsLinear) (hc : c.remote.Tracks b b') (p : Pass)
      (limit : Nat) : Evolves a s b' (c.pass limit p t).2
  | withCache {b : Archive} {t : Crawl} (h : Evolves a s b t) (cache : ResolutionCache) :
      Evolves a s b { t with cache := cache }

namespace Evolves

variable {a b : Archive} {s t : Crawl} {x : Checkpoint} {c : Crawler}

/-- A run is made of passes. -/
theorem run (h : Evolves a s b t) (hb : b.IsLinear) (hc : c.remote.Follows b)
    (limits : PassLimits) : Evolves a s b (c.run limits t).2 := by
  have hpass : ∀ p limit, Within (fun t u => Evolves a s b t → Evolves a s b u) (c.pass limit p) :=
    fun p limit _ ht => ht.pass List.prefix_rfl hb hc.tracks p limit
  exact Crawler.within_run (fun _ cache ht => ht.withCache cache) (hpass .incremental _)
    (hpass .backfill _) t h

/-- The positions have moved forward, and are still on commits of the history. -/
theorem exists_forward (h : Evolves a s b t) (hx : s.db.load = .ok x) (hin : x.LiesIn a) :
    ∃ y, t.db.load = .ok y ∧ y.LiesIn b ∧ x.Forward b y := by
  -- the history only grows, so what is known of the positions stays true of the longer one
  induction h with
  | here => exact ⟨x, hx, hin, .refl a x⟩
  | grow _ hgrow _ ih =>
    obtain ⟨y, hy, hlies, hforward⟩ := ih
    exact ⟨y, hy, hlies.mono hgrow, hforward.mono hgrow⟩
  | pass _ hgrow hb' hc p limit ih =>
    obtain ⟨y, hy, hlies, hforward⟩ := ih
    obtain ⟨z, hz, hlies', hforward', -⟩ := Crawler.passMove hb' hgrow hc hy hlies p limit
    exact ⟨z, hz, hlies', (hforward.mono hgrow).trans hb' hforward'⟩
  | withCache _ _ ih => exact ih

/-- Whatever happens beside a linear history, the positions move forward, and the next pass moves
them as it should: the way back goes along first parents through commits that the pass processes, and
it is over only after a commit without parent or an anchor without parent. -/
theorem forward {b' : Archive} (h : Evolves a s b t) (hx : s.db.load = .ok x) (hin : x.LiesIn a)
    (hgrow : b.commits <+: b'.commits) (hb' : b'.IsLinear) (hc : c.remote.Tracks b b') (p : Pass)
    (limit : Nat) :
    let u := (c.pass limit p t).2
    ∃ y z, t.db.load = .ok y ∧ u.db.load = .ok z ∧ x.Forward b y ∧ y.Forward b' z ∧
      c.PassMove b' t u p y z ∧
      (y.next ≠ .done → z.next = .done →
        (∃ d ∈ b'.commits, (u.since t).Processed c.settings d ∧ d.firstParent? = none) ∨
          ∃ d, c.Anchors b' t u y.latest d ∧ d.firstParent? = none) := by
  obtain ⟨y, hy, hlies, hforward⟩ := h.exists_forward hx hin
  obtain ⟨z, hz, -, hforward', hmove⟩ := Crawler.passMove hb' hgrow hc hy hlies p limit
  exact ⟨y, z, hy, hz, hforward, hforward', hmove, hmove.exists_root⟩

/-- A backfill pass begins at the head of three commits; then another commit is pushed. -/
theorem smallBefore :
    Evolves .small (World.fresh .small).crawl World.smallBefore.archive World.smallBefore.crawl :=
  (here.pass List.prefix_rfl Archive.isLinear_small (Crawler.follows_small .small).tracks
    .backfill 1).grow ⟨_, rfl⟩ World.isLinear_smallBefore

theorem forward_smallBefore :
    let a := World.smallBefore.archive
    let t := World.smallBefore.crawl
    let u := ((Crawler.small a).pass 2 .backfill t).2
    Evolves .small (World.fresh .small).crawl a t ∧ (World.fresh .small).crawl.db.load = .ok {} ∧
      Checkpoint.LiesIn {} .small ∧ a.commits <+: a.commits ∧ a.IsLinear ∧
      (Crawler.small a).remote.Tracks a a ∧
      ∃ y z, t.db.load = .ok y ∧ u.db.load = .ok z ∧ Checkpoint.Forward a {} y ∧ y.Forward a z ∧
        (Crawler.small a).PassMove a t u .backfill y z ∧
        (y.next ≠ .done → z.next = .done →
          (∃ d ∈ a.commits, (u.since t).Processed (Crawler.small a).settings d ∧
            d.firstParent? = none) ∨
            ∃ d, (Crawler.small a).Anchors a t u y.latest d ∧ d.firstParent? = none) := by
  have hin : Checkpoint.LiesIn {} .small := ⟨fun _ => nofun, fun _ => nofun⟩
  have htracks := (Crawler.follows_small World.smallBefore.archive).tracks
  exact ⟨smallBefore, rfl, hin, List.prefix_rfl, World.isLinear_smallBefore, htracks,
    smallBefore.forward rfl hin List.prefix_rfl World.isLinear_smallBefore htracks .backfill 2⟩

end Evolves

end Crawl

end Harvest
