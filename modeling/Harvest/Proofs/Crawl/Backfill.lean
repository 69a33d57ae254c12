import Harvest.Proofs.Crawl.Incremental

/-!
# What the backfill pass does

The pass goes on from its stored position, or else begins at the first parent of an anchor: the mark,
or the head if there is no mark. It stores its position once, at its end; if it ends with an error of
the database, the position is what it was.

## Main definitions

* `Crawler.IsAnchor`, `Crawler.IsStuck`, `Crawler.IsStart` — where the way back begins
* `Crawler.StartRun`, `Crawler.BackfillRun` — the ways in which the pass begins, and ends with a value

## Main results

* `Crawler.backfillRun_of_backfill` — no other ways exist
* `Crawler.backfill_error` — an error leaves the positions alone
* `Crawler.within_backfill`, `Crawler.within_run`, `Crawler.within_fullIngestion` — the pass, the run
  and the full ingestion are within what their parts are within
* `Crawler.run_ok` — the two passes of a run
-/

namespace Harvest

open CrawlStep

namespace Crawler

variable {c : Crawler} {limit : Nat} {stats : PassStats} {s t : Crawl}

/-- The commit whose first parent is the first on the way back: the mark, or else the head. -/
inductive IsAnchor (c : Crawler) (calls : List RemoteCall) : Option String → String → Prop
  | mark (sha : String) : IsAnchor c calls (some sha) sha
  | head {head : CommitSummary} {page : List CommitSummary}
      (hpage : c.remote.list calls 1 1 = .ok (head :: page)) : IsAnchor c calls none head.sha

/-- The way back cannot begin: there is no anchor, or its details cannot be had. -/
inductive IsStuck (c : Crawler) (calls : List RemoteCall) : Option String → Prop
  | empty (hpage : c.remote.list calls 1 1 = .ok []) : IsStuck c calls none
  | unlisted {e : FetchError} (hpage : c.remote.list calls 1 1 = .error e) : IsStuck c calls none
  | unknown {latest : Option String} {anchor : String} {past : List RemoteCall} {e : FetchError}
      (hanchor : IsAnchor c calls latest anchor) (he : c.remote.commit past anchor = .error e) :
      IsStuck c calls latest

/-- The first commit on the way back. -/
inductive IsStart (c : Crawler) (calls : List RemoteCall) (cp : Checkpoint) : String → Prop
  /-- The way back goes on. -/
  | resumed {sha : String} (hnext : cp.next = .at sha) : IsStart c calls cp sha
  /-- The way back begins. -/
  | anchored {anchor sha : String} {past : List RemoteCall} {d : CommitDetail}
      (hnext : cp.next = .unset) (hanchor : IsAnchor c calls cp.latest anchor)
      (hd : c.remote.commit past anchor = .ok d) (hparent : d.firstParent? = some sha) :
      IsStart c calls cp sha

/-- The ways in which the backfill pass ends with a value. -/
inductive BackfillRun (c : Crawler) (limit : Nat) (s : Crawl) : PassStats → Crawl → Prop
  /-- There is nothing to do. -/
  | idle {t : Crawl} (hidle : limit = 0 ∨ ∃ p, s.db.positions = some p ∧ p.checkpoint.next = .done)
      (ht : t = s) : BackfillRun c limit s {} t
  /-- The way back cannot begin. -/
  | unanchored {t : Crawl} {p : Positions} (hp : s.db.positions = some p)
      (hnext : p.checkpoint.next = .unset) (hstuck : IsStuck c s.calls p.checkpoint.latest)
      (ht : Crawl.Extends s t) (hvisited : t.visited = s.visited) : BackfillRun c limit s {} t
  /-- The anchor has no parent. -/
  | rootless {t : Crawl} {p : Positions} {anchor : String} {past : List RemoteCall}
      {d : CommitDetail} (hp : s.db.positions = some p) (hnext : p.checkpoint.next = .unset)
      (hanchor : IsAnchor c s.calls p.checkpoint.latest anchor)
      (hd : c.remote.commit past anchor = .ok d) (hparent : d.firstParent? = none)
      (hvisited : t.visited = s.visited)
      (ht : t.db.positions = some { p with next := BackfillCursor.done.stored? }) :
      BackfillRun c limit s {} t
  /-- The pass walks back from commit to first parent. -/
  | walk {t : Crawl} {stats : PassStats} {p : Positions} {start : String} {shas : List String}
      {next : BackfillCursor} (hp : s.db.positions = some p)
      (hstart : IsStart c s.calls p.checkpoint start) (hway : WayBack c start shas next)
      (hstuck : shas = [] → ∃ past e, c.remote.commit past start = .error e)
      (hvisited : t.visited = s.visited ++ shas) (hstats : stats.commits = shas.length)
      (ht : t.db.positions = some { p with next := next.stored? }) : BackfillRun c limit s stats t

/-- The ways in which it turns out where the way back begins. -/
inductive StartRun (c : Crawler) (latest : Option String) (s : Crawl) (p : Positions) :
    Option String → Crawl → Prop
  /-- It begins at the first parent of the anchor. -/
  | begun {t : Crawl} {anchor sha : String} {past : List RemoteCall} {d : CommitDetail}
      (hanchor : IsAnchor c s.calls latest anchor) (hd : c.remote.commit past anchor = .ok d)
      (hparent : d.firstParent? = some sha) (ht : Crawl.Extends s t)
      (hvisited : t.visited = s.visited) : StartRun c latest s p (some sha) t
  /-- The anchor has no parent. -/
  | rootless {t : Crawl} {anchor : String} {past : List RemoteCall} {d : CommitDetail}
      (hanchor : IsAnchor c s.calls latest anchor) (hd : c.remote.commit past anchor = .ok d)
      (hparent : d.firstParent? = none) (hvisited : t.visited = s.visited)
      (ht : t.db.positions = some { p with next := BackfillCursor.done.stored? }) :
      StartRun c latest s p none t
  /-- The way back cannot begin. -/
  | stuck {t : Crawl} (hstuck : IsStuck c s.calls latest) (ht : Crawl.Extends s t)
      (hvisited : t.visited = s.visited) : StartRun c latest s p none t

/-- Looking for the anchor finds it, or there is none to be had. -/
theorem anchor_ok {latest a : Option String} (h : c.anchor latest s = (.ok a, t)) :
    Crawl.Extends s t ∧ t.visited = s.visited ∧
      ((∃ sha, a = some sha ∧ IsAnchor c s.calls latest sha) ∨
        a = none ∧ IsStuck c s.calls latest) := by
  unfold anchor at h
  cases latest with
  | some sha =>
    cases h
    exact ⟨refl_of Crawl.Extends s, rfl, .inl ⟨sha, rfl, .mark sha⟩⟩
  | none =>
    obtain ⟨answer, u, hu, hpage⟩ := bind_ok h
    rw [list_run] at hu
    cases hu
    have hext := s.extends_call (.list 1 1)
    cases hlist : c.remote.list s.calls 1 1 with
    | error e =>
      rw [hlist] at hpage
      cases hpage
      exact ⟨hext, rfl, .inr ⟨rfl, .unlisted hlist⟩⟩
    | ok page =>
      rw [hlist] at hpage
      cases page with
      | nil =>
        cases hpage
        exact ⟨hext, rfl, .inr ⟨rfl, .empty hlist⟩⟩
      | cons head page =>
        cases hpage
        exact ⟨hext, rfl, .inl ⟨head.sha, rfl, .head hlist⟩⟩

theorem backfillFrom_ok {p : Positions} {start : String} (hlimit : limit ≠ 0)
    (hp : s.db.positions = some p) (h : c.backfillFrom limit start s = (.ok stats, t)) :
    ∃ shas next, WayBack c start shas next ∧ t.visited = s.visited ++ shas ∧
      stats.commits = shas.length ∧ (shas = [] → ∃ past e, c.remote.commit past start = .error e) ∧
      t.db.positions = some { p with next := next.stored? } := by
  obtain ⟨⟨stats', next⟩, u, hwalk, h⟩ := bind_ok h
  obtain ⟨⟨⟩, v, hsave, h⟩ := bind_ok h
  cases h
  obtain ⟨shas, hway, hu, hstats, hstuck⟩ := walkBack_ok hwalk
  -- the walk has not touched the positions, so only the place on the way back is written over
  have hext := (within_walkBack (within_extends_processCommit c) _ _).of_run hwalk
  have ht := updatePositions_ok (hext.positions.trans hp) hsave
  refine ⟨shas, next, hway, ?_, hstats, fun hnil => hstuck hnil hlimit, ?_⟩
  · rw [ht]
    exact hu
  · rw [ht]

theorem backfillFrom_error {start : String} {e : CrawlError}
    (h : c.backfillFrom limit start s = (.error e, t)) : Crawl.Extends s t := by
  have hwalkBack := within_walkBack (within_extends_processCommit c) limit start
  rcases bind_error h with hwalk | ⟨⟨stats', next⟩, u, hwalk, hsave⟩
  · exact hwalkBack.of_run hwalk
  · rcases bind_error hsave with hsave | ⟨_, _, _, hend⟩
    · rw [(update_error hsave).1]
      exact hwalkBack.of_run hwalk
    · cases hend

/-- It turns out in one of three ways where the way back begins. -/
theorem startRun_of_backfillStart {p : Positions} {latest start : Option String}
    (hp : s.db.positions = some p) (h : c.backfillStart latest s = (.ok start, t)) :
    StartRun c latest s p start t := by
  obtain ⟨a, u, ha, hdetail⟩ := bind_ok h
  obtain ⟨hext, hvisited, hanchor⟩ := anchor_ok ha
  rcases hanchor with ⟨anchor, rfl, hanchor⟩ | ⟨rfl, hstuck⟩
  · obtain ⟨answer, v, hv, hparent⟩ := bind_ok hdetail
    rw [commit_run] at hv
    cases hv
    have hcall := trans_of Crawl.Extends hext (u.extends_call (.commit anchor))
    cases hd : c.remote.commit u.calls anchor with
    | error e =>
      rw [hd] at hparent
      cases hparent
      exact .stuck (.unknown hanchor hd) hcall hvisited
    | ok d =>
      simp only [hd] at hparent
      cases hfirst : d.firstParent? with
      | some parent =>
        simp only [hfirst] at hparent
        cases hparent
        exact .begun hanchor hd hfirst hcall hvisited
      | none =>
        -- the history ends with the anchor, which is noted at once
        simp only [hfirst] at hparent
        obtain ⟨⟨⟩, w, hsave, hend⟩ := bind_ok hparent
        cases hend
        have ht := updatePositions_ok (hcall.positions.trans hp) hsave
        refine .rootless hanchor hd hfirst ?_ ?_
        · rw [ht]
          exact hvisited
        · rw [ht]
  · cases hdetail
    exact .stuck hstuck hext hvisited

/-- Looking for the anchor writes nothing, so it never ends with an error. -/
theorem anchor_ne_error {latest : Option String} {e : CrawlError} :
    c.anchor latest s ≠ (.error e, t) := by
  intro h
  unfold anchor at h
  cases latest with
  | some sha => cases h
  | none =>
    rcases bind_error h with hlist | ⟨answer, u, hu, hpage⟩
    · cases hlist
    · cases answer <;> cases hpage

theorem backfillStart_error {latest : Option String} {e : CrawlError}
    (h : c.backfillStart latest s = (.error e, t)) : Crawl.Extends s t := by
  rcases bind_error h with ha | ⟨a, u, ha, hdetail⟩
  · exact absurd ha anchor_ne_error
  -- so the error is that of the one write at the end
  obtain ⟨hext, -, -⟩ := anchor_ok ha
  refine trans_of Crawl.Extends hext ?_
  cases a with
  | none => cases hdetail
  | some anchor =>
    rcases bind_error hdetail with hcall | ⟨answer, v, hv, hparent⟩
    · cases hcall
    rw [commit_run] at hv
    cases hv
    refine trans_of Crawl.Extends (u.extends_call (.commit anchor)) ?_
    cases hd : c.remote.commit u.calls anchor with
    | error e => rw [hd] at hparent; cases hparent
    | ok d =>
      simp only [hd] at hparent
      cases hfirst : d.firstParent? with
      | some parent => rw [hfirst] at hparent; cases hparent
      | none =>
        simp only [hfirst] at hparent
        rcases bind_error hparent with hsave | ⟨_, _, _, hend⟩
        · rw [(update_error hsave).1]
          exact refl_of Crawl.Extends _
        · cases hend

/-- The backfill pass ends with a value in one of four ways. -/
theorem backfillRun_of_backfill (h : c.backfill limit s = (.ok stats, t)) :
    BackfillRun c limit s stats t := by
  unfold backfill at h
  split at h
  next hlimit =>
    cases h
    exact .idle (.inl hlimit) rfl
  next hlimit =>
    obtain ⟨cp, u, hcp, hrest⟩ := bind_ok h
    obtain ⟨rfl, p, hp, rfl⟩ := checkpoint_ok hcp
    cases hnext : p.checkpoint.next with
    | done =>
      simp only [hnext] at hrest
      cases hrest
      exact .idle (.inr ⟨p, hp, hnext⟩) rfl
    | «at» sha =>
      simp only [hnext] at hrest
      obtain ⟨shas, next, hway, hvisited, hstats, hstuck, ht⟩ := backfillFrom_ok hlimit hp hrest
      exact .walk hp (.resumed hnext) hway hstuck hvisited hstats ht
    | unset =>
      simp only [hnext] at hrest
      obtain ⟨start, v, hstart, hfrom⟩ := bind_ok hrest
      cases startRun_of_backfillStart hp hstart with
      | begun hanchor hd hparent hext hv =>
        obtain ⟨shas, next, hway, hvisited, hstats, hstuck, ht⟩ :=
          backfillFrom_ok hlimit (hext.positions.trans hp) hfrom
        rw [hv] at hvisited
        exact .walk hp (.anchored hnext hanchor hd hparent) hway hstuck hvisited hstats ht
      | rootless hanchor hd hparent hv hpos =>
        cases hfrom
        exact .rootless hp hnext hanchor hd hparent hv hpos
      | stuck hstuck hext hv =>
        cases hfrom
        exact .unanchored hp hnext hstuck hext hv

/-- An error in the backfill pass leaves the positions alone. -/
theorem backfill_error {e : CrawlError} (h : c.backfill limit s = (.error e, t)) :
    Crawl.Extends s t := by
  unfold backfill at h
  split at h
  · cases h
  rcases bind_error h with hcp | ⟨cp, u, hcp, hrest⟩
  · rw [checkpoint_error hcp]
    exact refl_of Crawl.Extends s
  obtain ⟨rfl, p, hp, rfl⟩ := checkpoint_ok hcp
  cases hnext : p.checkpoint.next with
  | done => rw [hnext] at hrest; cases hrest
  | «at» sha =>
    simp only [hnext] at hrest
    exact backfillFrom_error hrest
  | unset =>
    simp only [hnext] at hrest
    rcases bind_error hrest with hstart | ⟨start, v, hstart, hfrom⟩
    · exact backfillStart_error hstart
    · cases startRun_of_backfillStart hp hstart with
      | begun _ _ _ hext _ => exact trans_of Crawl.Extends hext (backfillFrom_error hfrom)
      | rootless | stuck => cases hfrom

section Within

variable {R : Crawl → Crawl → Prop} [IsPreorder Crawl R]

/-- The backfill pass is within what its requests, its commits and its writes are within. -/
theorem within_backfill (hlist : ∀ s n page, R s (s.call (.list n page)))
    (hcall : ∀ s sha, R s (s.call (.commit sha)))
    (hcommit : ∀ pass sha, Within R (c.processCommit pass sha))
    (hsave : ∀ s positions, R s { s with db := { s.db with positions := positions } })
    (limit : Nat) : Within R (c.backfill limit) := by
  have hfrom : ∀ start, Within R (c.backfillFrom limit start) := fun start =>
    .bind (within_walkBack hcommit limit start) fun _ =>
      .bind (within_updatePositions hsave) fun _ => within_pure _
  have hanchor : ∀ latest, Within R (c.anchor latest) := by
    intro latest
    cases latest with
    | some sha => exact within_pure _
    | none =>
      refine .bind (fun s => hlist s _ _) fun answer => ?_
      cases answer <;> exact within_pure _
  have hstart : ∀ latest, Within R (c.backfillStart latest) := by
    intro latest
    refine .bind (hanchor latest) fun anchor => ?_
    cases anchor with
    | none => exact within_pure _
    | some sha =>
      refine .bind (fun s => hcall s sha) fun answer => ?_
      cases answer with
      | error e => exact within_pure _
      | ok d =>
        cases h : d.firstParent? with
        | some parent => simpa only [h] using within_pure _
        | none =>
          simpa only [h] using .bind (within_updatePositions hsave) fun _ => within_pure _
  unfold backfill
  split
  · exact within_pure _
  refine .bind (within_query _ _) fun cp => ?_
  cases h : cp.next with
  | done => simpa only [h] using within_pure _
  | «at» sha => simpa only [h] using hfrom sha
  | unset =>
    simp only
    refine .bind (hstart cp.latest) fun start => ?_
    cases start with
    | none => exact within_pure _
    | some sha => exact hfrom sha

/-- A run is within what its passes are within. -/
theorem within_run {limits : PassLimits} (hcache : ∀ s cache, R s { s with cache := cache })
    (hincremental : Within R (c.incremental limits.incremental))
    (hbackfill : Within R (c.backfill limits.backfill)) : Within R (c.run limits) := by
  intro s
  have hpasses : Within R (do
      let incremental ← (c.incremental limits.incremental).during .walker
      let backfill ← (c.backfill limits.backfill).during .walker
      return (⟨incremental, backfill⟩ : RunStats)) :=
    .bind (hincremental.during _) fun _ => .bind (hbackfill.during _) fun _ => within_pure _
  exact trans_of R (trans_of R (hcache s {}) (hpasses _)) (hcache _ _)

/-- Repeated runs are within what a run is within. -/
theorem within_iterate {limits : PassLimits} (hrun : Within R (c.run limits)) (n : Nat) :
    Within R (c.iterate limits n) := by
  induction n with
  | zero => exact within_pure _
  | succ n ih =>
    have hstate : Within R (CrawlStep.state.during .walker) :=
      Within.during _ (.bind (within_query _ _) fun _ => within_pure _)
    refine .bind hrun fun stats => .bind hstate fun state => ?_
    split
    · exact within_pure _
    · split
      · exact within_pure _
      · exact .bind ih fun _ => within_pure _

/-- A full ingestion is within what a reset and its runs are within. -/
theorem within_fullIngestion (hreset : Within R CrawlStep.reset)
    (hrun : ∀ limits, Within R (c.run limits)) (o : FullOptions) : Within R (c.fullIngestion o) := by
  have hstatus : Within R CrawlStep.status :=
    .bind (within_query _ _) fun _ => .bind (within_query _ _) fun _ => within_pure _
  unfold fullIngestion
  cases o.reset with
  | false =>
    exact .bind (within_iterate (hrun _) _) fun _ => .bind hstatus fun _ => within_pure _
  | true =>
    exact .bind hreset fun _ =>
      .bind (within_iterate (hrun _) _) fun _ => .bind hstatus fun _ => within_pure _

end Within

/-- A run that ends with a value is made of two passes that do. -/
theorem run_ok {limits : PassLimits} {stats : RunStats} (h : c.run limits s = (.ok stats, t)) :
    ∃ u v, c.incremental limits.incremental { s with cache := {} } = (.ok stats.incremental, u) ∧
      c.backfill limits.backfill u = (.ok stats.backfill, v) ∧ t = { v with cache := s.cache } := by
  obtain ⟨w, hpasses, rfl⟩ := withFreshCache_ok h
  obtain ⟨x, u, hfirst, hrest⟩ := bind_ok hpasses
  obtain ⟨y, v, hsecond, hend⟩ := bind_ok hrest
  cases hend
  exact ⟨u, w, during_ok hfirst, during_ok hsecond, rfl⟩

end Crawler

/-! ### Resets -/

/-- The crawl after it has forgotten where it stands. -/
def Crawl.forgotten (s : Crawl) : Crawl :=
  ({ s with db := { s.db with positions := some {}, blobs := some [] } } : Crawl).log
    (.system "checkpoints_reset" "cursors and processed blobs cleared")

/-- If both tables are there and take every change, a reset empties them. -/
theorem CrawlStep.reset_run {s : Crawl} {p : Positions} {bs : List String}
    (hopen : s.db.RefusesNothing) (hp : s.db.positions = some p) (hbs : s.db.blobs = some bs) :
    CrawlStep.reset s = (.ok (), s.forgotten) := by
  have hpositions : s.db.clearPositions = .ok { s.db with positions := some {} } :=
    Database.updatePositions_eq_ok_iff.mpr ⟨p, hp, hopen _, rfl⟩
  have hblobs : Database.clearBlobs { s.db with positions := some {} } =
      .ok { s.db with positions := some {}, blobs := some [] } :=
    Database.clearBlobs_eq_ok_iff.mpr ⟨bs, hbs, hopen _, rfl⟩
  rw [CrawlStep.reset, bind_run, update, hpositions]
  simp only [bind_run, update, hblobs]
  rfl

end Harvest
