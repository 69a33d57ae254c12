import Harvest.Proofs.Crawl.Budget
import Harvest.Proofs.Crawl.Streams
import Harvest.Proofs.Store.Registers
import Mathlib.Data.List.Infix

/-!
# How passes end

A pass asks for commits, reports on them, and deals with their files. It writes its own position
once at most, and does nothing afterwards. If it ends with an error, the positions are what they
were: there is no table of them, the write of the new position is refused, or the pass has come to
grief at a file. The blob of that file is not marked, and nothing is stored of the file unless all
of its entries are and only the mark is refused. Rows are only ever added.

## Main definitions

* `Crawl.Gains` — no row disappears
* `Crawler.Trail` — the way of a pass up to its write
* `Crawler.Failure` — dealing with a file ends with an error
* `Crawler.Treads` — a step that goes along a trail
* `Visit.FailsToStore` — the entries in a file cannot be linked or stored
* `Crawler.Exit` — the ways in which a pass ends

## Main results

* `Crawler.Failure.sameStreams` — nothing is stored of a file that ends with an error, unless all is
* `Crawler.exit_pass` — no other ways exist
* `Crawler.pass_writes_last` — what a pass leaves behind
-/

namespace Harvest

open CrawlStep

/-! ### Rows are only added -/

/-- No row of a table disappears or changes. New blobs stand in front. -/
structure Crawl.Gains (s t : Crawl) : Prop where
  grows : s.db.Grows t.db
  blobs : ∀ bs, s.db.blobs = some bs → ∃ bs', t.db.blobs = some bs' ∧ bs <:+ bs'

instance : IsPreorder Crawl Crawl.Gains where
  refl s := ⟨refl_of Database.Grows s.db, fun bs hbs => ⟨bs, hbs, List.suffix_rfl⟩⟩
  trans _ _ _ h h' := by
    refine ⟨trans_of Database.Grows h.grows h'.grows, fun bs hbs => ?_⟩
    obtain ⟨bs', hbs', hsuffix⟩ := h.blobs bs hbs
    obtain ⟨bs'', hbs'', hsuffix'⟩ := h'.blobs bs' hbs'
    exact ⟨bs'', hbs'', hsuffix.trans hsuffix'⟩

/-- A statement that leaves the set of blobs alone adds rows if it does so in the other tables. -/
theorem Crawl.gains_of_grows {s t : Crawl} (hgrows : s.db.Grows t.db)
    (hblobs : t.db.blobs = s.db.blobs) : Crawl.Gains s t :=
  ⟨hgrows, fun bs hbs => ⟨bs, hblobs.trans hbs, List.suffix_rfl⟩⟩

/-- The tables of streams and of files are the same. -/
structure Crawl.SameStreams (s t : Crawl) : Prop where
  streams : t.db.streams = s.db.streams
  files : t.db.files = s.db.files

instance : IsPreorder Crawl Crawl.SameStreams where
  refl _ := ⟨rfl, rfl⟩
  trans _ _ _ h h' := ⟨h'.streams.trans h.streams, h'.files.trans h.files⟩

open Crawl

namespace Crawler

variable {c : Crawler} {d : CommitDetail} {f : ChangedFile} {s t u : Crawl} {e : CrawlError}

theorem gains_storeEntries (entries : List Entry) (createdAt : Moment) :
    Within Gains (c.storeEntries entries createdAt) := by
  refine within_storeEntries_of (within_resolve (fun s n m => ?_) fun s _ => ?_)
    (fun _ _ _ t _ => ?_) fun s => ?_
  · exact gains_of_grows (s.db.getOrCreateMedia_grows n m).1
      (s.db.getOrCreateMedia_progress n m).2.1
  · exact gains_of_grows (refl_of Database.Grows s.db) rfl
  · exact gains_of_grows (refl_of Database.Grows t.db) rfl
  · exact gains_of_grows (s.db.storeStreams_grows _) (s.db.storeStreams_progress _).2.1

theorem gains_markProcessed (f : ChangedFile) : Within Gains (markProcessed f) := by
  refine within_markProcessed (fun s bs b hbs => ?_) f
  refine ⟨⟨.refl _, .refl _, .refl _⟩, fun bs' hbs' => ⟨_, rfl, ?_⟩⟩
  cases hbs.symm.trans hbs'
  exact List.suffix_insert b bs

theorem gains_processFile (d : CommitDetail) (f : ChangedFile) :
    Within Gains (c.processFile d f) :=
  within_processFile_of (fun _ _ => gains_of_grows (refl_of _ _) rfl)
    (fun _ _ _ => gains_of_grows (refl_of _ _) rfl) (gains_markProcessed f)
    fun _ _ _ => gains_storeEntries _ _

theorem gains_pass (limit : Nat) (p : Pass) : Within Gains (c.pass limit p) := by
  have still : ∀ {s t : Crawl}, t.db = s.db → Gains s t := by
    rintro s t hdb
    exact gains_of_grows (hdb ▸ refl_of Database.Grows s.db) (hdb ▸ rfl)
  have hcommit : ∀ pass sha, Within Gains (c.processCommit pass sha) := fun pass sha =>
    within_processCommit (fun _ _ d _ f _ => gains_processFile d f) (fun _ _ => still rfl)
      (fun _ _ _ _ _ => still rfl) pass sha
  have hsave : ∀ (s : Crawl) positions,
      Gains s { s with db := { s.db with positions := positions } } := fun s _ =>
    gains_of_grows ⟨.refl _, .refl _, .refl _⟩ rfl
  cases p with
  | incremental => exact within_incremental (fun _ _ _ => still rfl) hcommit hsave limit
  | backfill =>
    exact within_backfill (fun _ _ _ => still rfl) (fun _ _ => still rfl) hcommit hsave limit

/-! ### A file that ends with an error -/

/-- Linking names touches neither streams nor files. -/
theorem sameStreams_resolveAll (rs : List ResolutionRequest) :
    Within SameStreams (c.resolveAll rs) := by
  have hresolve : ∀ r, Within SameStreams (c.resolve r) := by
    refine within_resolve (fun s n m => ?_) fun _ _ => ⟨rfl, rfl⟩
    obtain ⟨-, hstreams, hfiles⟩ := s.db.getOrCreateMedia_grows n m
    exact ⟨hstreams, hfiles⟩
  exact .bind (fun s => refl_of _ s) fun _ =>
    within_resolveEach hresolve (fun _ _ _ _ _ => ⟨rfl, rfl⟩) _

/-- If the entries of a list cannot be stored, none of them is. -/
theorem sameStreams_of_storeEntries_error {entries : List Entry} {createdAt : Moment}
    (h : c.storeEntries entries createdAt s = (.error e, t)) : SameStreams s t := by
  -- linking writes to the catalog only, and the statement that stores is one transaction
  rcases bind_error h with hlink | ⟨_, u, hlink, hrest⟩
  · exact ((sameStreams_resolveAll _).during _).of_run hlink
  have hlinked := ((sameStreams_resolveAll _).during _).of_run hlink
  refine trans_of SameStreams hlinked ?_
  rcases bind_error hrest with hcache | ⟨cache, v, hcache, hstore⟩
  · cases hcache
  cases hcache
  rcases bind_error hstore with hstore | ⟨_, _, _, hend⟩
  · obtain ⟨e', d', hfail, rfl⟩ := perform_error hstore
    obtain ⟨hstreams, hfiles⟩ := Database.storeStreams_error hfail
    exact ⟨hstreams, hfiles⟩
  · cases hend

/-- A blob that is settled is known to be, so its file is not fetched. -/
theorem isProcessed_of_settled {b : String} (hb : f.blob = some b) (hs : s.Settled b) :
    isProcessed f s = (.ok true, s) := by
  have hs' : s.db.hasBlob b = .ok true := hs
  simp [isProcessed, hb, query, hs']

/-- The blob of a file that ends with an error is not settled, neither before nor afterwards. -/
theorem unsettled_of_processFile_error (h : c.processFile d f s = (.error e, t)) {b : String}
    (hb : f.blob = some b) : ¬ t.Settled b := by
  rw [(processFile_error h).2.2.2]
  intro hs
  rw [processFile, bind_run, isProcessed_of_settled hb hs] at h
  cases h

/-- If it cannot be found out whether a file needs further work, there is no set of blobs. -/
theorem blobs_of_isProcessed_error (h : isProcessed f s = (.error e, t)) : s.db.blobs = none := by
  by_contra hsome
  obtain ⟨bs, hbs⟩ := Option.ne_none_iff_exists'.mp hsome
  exact isProcessed_ne_error hbs h

/-- If it can be found out and the mark fails all the same, the file has a blob that is refused. -/
theorem refused_of_markProcessed_error {known : Bool} (hnew : isProcessed f s = (.ok known, s))
    (hblobs : t.db.blobs = s.db.blobs) (h : markProcessed f t = (.error e, u)) :
    ∃ b why, f.blob = some b ∧ t.db.refusal (.insertBlob b) = some why ∧
      e = ⟨[.checkpoint], .refused why⟩ := by
  unfold isProcessed at hnew
  unfold markProcessed at h
  cases hb : f.blob with
  | none => rw [hb] at h; cases h
  | some b =>
    simp only [hb] at h hnew
    obtain ⟨-, e', hinsert, rfl⟩ := update_error h
    obtain ⟨-, hasked⟩ := query_ok hnew
    rcases Database.map_writable_eq_error_iff.mp hinsert with ⟨hnone, -⟩ | ⟨-, why, hwhy, rfl⟩
    · -- without the set, it could not have been found out
      simp [Database.hasBlob, ← hblobs, hnone, Database.table, Except.map] at hasked
    · exact ⟨b, why, rfl, hwhy, rfl⟩

/-! ### Trails -/

/-- The way of a pass up to its write: it asks for commits, reports on them, and deals with files,
none of which ends with an error. -/
inductive Trail (c : Crawler) : Crawl → Crawl → Prop
  | here (s : Crawl) : Trail c s s
  | list {s t : Crawl} (n page : Nat) (h : Trail c (s.call (.list n page)) t) : Trail c s t
  | commit {s t : Crawl} (sha : String) (h : Trail c (s.call (.commit sha)) t) : Trail c s t
  | report {s t : Crawl} (pass sha : String) (files streams : Nat)
      (h : Trail c (s.log (.commit pass sha files streams)) t) : Trail c s t
  | visit {s t u : Crawl} {past : List RemoteCall} {sha : String} {d : CommitDetail}
      {f : ChangedFile} {new : Option Nat} (hcommit : c.remote.commit past sha = .ok d)
      (hfile : f ∈ c.settings.snapshots d) (hrun : c.processFile d f s = (.ok new, t))
      (h : Trail c t u) : Trail c s u

theorem Trail.append (h : c.Trail s t) (h' : c.Trail t u) : c.Trail s u := by
  induction h with
  | here => exact h'
  | list n page _ ih => exact .list n page (ih h')
  | commit sha _ ih => exact .commit sha (ih h')
  | report pass sha files streams _ ih => exact .report pass sha files streams (ih h')
  | visit hcommit hfile hrun _ ih => exact .visit hcommit hfile hrun (ih h')

theorem Trail.positions (h : c.Trail s t) : t.db.positions = s.db.positions := by
  induction h with
  | here => rfl
  | list _ _ _ ih | commit _ _ ih | report _ _ _ _ _ ih => exact ih
  | visit _ _ hrun _ ih => exact ih.trans ((within_processFile c _ _).of_run hrun).positions

/-- A trail leads to a file that ends with an error. -/
structure Failure (c : Crawler) (s : Crawl) (e : CrawlError) (v : Visit) (t : Crawl) : Prop where
  trail : c.Trail s v.before
  commit : ∃ past sha, c.remote.commit past sha = .ok v.commit
  file : v.file ∈ c.settings.snapshots v.commit
  failed : c.processFile v.commit v.file v.before = (.error e, t)

theorem Failure.of_trail {v : Visit} (h : c.Trail s t) (hv : c.Failure t e v u) :
    c.Failure s e v u :=
  { hv with trail := h.append hv.trail }

/-- The step goes along a trail, and ends with an error only where a file does. -/
structure Treads {α : Type} (c : Crawler) (x : CrawlStep α) : Prop where
  ok : ∀ {s a t}, x s = (.ok a, t) → c.Trail s t
  error : ∀ {s e t}, x s = (.error e, t) → ∃ v, c.Failure s e v t

section Treads

variable {α β : Type} {x : CrawlStep α} {g : α → CrawlStep β}

theorem treads_pure (a : α) : c.Treads (pure a) where
  ok h := by
    obtain ⟨-, rfl⟩ := pure_ok h
    exact .here _
  error h := by cases h

/-- A sequence goes along a trail if its parts do, the second one after a value of the first. -/
theorem Treads.bind (hx : c.Treads x) (hg : ∀ a, (∃ s t, x s = (.ok a, t)) → c.Treads (g a)) :
    c.Treads (x >>= g) where
  ok h := by
    obtain ⟨a, u, hfirst, hrest⟩ := bind_ok h
    exact (hx.ok hfirst).append ((hg a ⟨_, u, hfirst⟩).ok hrest)
  error h := by
    rcases bind_error h with hfirst | ⟨a, u, hfirst, hrest⟩
    · exact hx.error hfirst
    · obtain ⟨v, hv⟩ := (hg a ⟨_, u, hfirst⟩).error hrest
      exact ⟨v, hv.of_trail (hx.ok hfirst)⟩

theorem treads_list (n page : Nat) : c.Treads (c.list n page) where
  ok h := by
    cases h
    exact .list n page (.here _)
  error h := by cases h

theorem treads_commit (sha : String) : c.Treads (c.commit sha) where
  ok h := by
    cases h
    exact .commit sha (.here _)
  error h := by cases h

theorem treads_processFile {past : List RemoteCall} {sha : String}
    (hcommit : c.remote.commit past sha = .ok d) (hfile : f ∈ c.settings.snapshots d) :
    c.Treads (c.processFile d f) where
  ok h := .visit hcommit hfile h (.here _)
  error {s _ _} h := ⟨⟨d, f, s⟩, .here s, ⟨past, sha, hcommit⟩, hfile, h⟩

theorem treads_processFiles {past : List RemoteCall} {sha : String}
    (hcommit : c.remote.commit past sha = .ok d) {fs : List ChangedFile}
    (hfiles : ∀ f ∈ fs, f ∈ c.settings.snapshots d) : c.Treads (c.processFiles d fs) := by
  induction fs with
  | nil => exact treads_pure _
  | cons f fs ih =>
    obtain ⟨hf, hfs⟩ := List.forall_mem_cons.mp hfiles
    exact (treads_processFile hcommit hf).bind fun _ _ => (ih hfs).bind fun _ _ => treads_pure _

theorem treads_processCommit (pass : Pass) (sha : String) :
    c.Treads (c.processCommit pass sha) := by
  refine (treads_commit sha).bind fun answer hanswer => ?_
  obtain ⟨s, t, hrun⟩ := hanswer
  rw [commit_run] at hrun
  cases answer with
  | error e => exact treads_pure _
  | ok d =>
    have hd : c.remote.commit s.calls sha = .ok d := congrArg Prod.fst hrun |> Except.ok.inj
    refine (treads_processFiles hd fun _ => id).bind fun n _ => Treads.bind ⟨?_, ?_⟩ fun _ _ =>
      treads_pure _
    · intro s a t h
      cases h
      exact .report _ _ _ _ (.here _)
    · intro s e t h
      cases h

theorem treads_catchUp (shas : List String) : c.Treads (c.catchUp shas) := by
  induction shas with
  | nil => exact treads_pure _
  | cons sha shas ih =>
    refine (treads_processCommit .incremental sha).bind fun found _ => ?_
    cases found with
    | none => exact treads_pure _
    | some q => exact ih.bind fun _ _ => treads_pure _

theorem treads_walkBack (n : Nat) (sha : String) : c.Treads (c.walkBack n sha) := by
  induction n generalizing sha with
  | zero => exact treads_pure _
  | succ n ih =>
    refine (treads_processCommit .backfill sha).bind fun found _ => ?_
    cases found with
    | none => exact treads_pure _
    | some q =>
      cases hq : q.firstParent with
      | none => simpa only [hq] using treads_pure _
      | some parent => simpa only [hq] using (ih parent).bind fun _ _ => treads_pure _

theorem treads_anchor (latest : Option String) : c.Treads (c.anchor latest) := by
  cases latest with
  | some sha => exact treads_pure _
  | none =>
    refine (treads_list 1 1).bind fun answer _ => ?_
    cases answer <;> exact treads_pure _

end Treads

end Crawler

/-! ### The ends of both passes -/

namespace Visit

/-- The file is fetched, and the entries in it cannot be linked or stored. -/
def FailsToStore (c : Crawler) (v : Visit) : Prop :=
  v.isOpen = true ∧ ∃ html fragment entries e, v.body c = .ok html ∧
    Snapshot.fragment? c.settings.host html = some fragment ∧
    Snapshot.entriesOfPayload fragment = .ok entries ∧
    (c.storeEntries entries v.commit.date (v.before.call (.raw v.file.url))).1 = .error e

end Visit

namespace Pass

/-- The changes that a pass makes to the positions: it notes its own one. -/
inductive Writes : Pass → Change → Prop
  | saveLatest (sha : String) : Writes incremental (.saveLatest sha)
  | saveNext (next : BackfillCursor) : Writes backfill (.saveNext next)

/-- The position that belongs to the other pass. -/
def other : Pass → Positions → Option String
  | incremental => Positions.next
  | backfill => Positions.latest

variable {p : Pass} {w : Change}

theorem Writes.other_onPositions (h : p.Writes w) (q : Positions) :
    p.other (w.onPositions q) = p.other q := by
  cases h <;> rfl

theorem Writes.apply_eq (h : p.Writes w) (d : Database) :
    w.apply d = d.updatePositions w w.onPositions := by
  cases h <;> rfl

end Pass

namespace Crawler

variable {α : Type} {c : Crawler} {p : Pass} {s t u : Crawl} {e : CrawlError} {v : Visit}
  {w : Change} {q : Positions} {r : Except CrawlError PassStats}

/-- The ways in which a pass ends. The last three belong to a file at which the pass comes to grief,
by what has been done of the file before that. -/
inductive Exit (c : Crawler) (p : Pass) (s : Crawl) : Except CrawlError PassStats → Crawl → Prop
  /-- Nothing is written. -/
  | still {stats : PassStats} {t : Crawl} (h : c.Trail s t) : Exit c p s (.ok stats) t
  /-- The position of the pass is written, and nothing is done afterwards. -/
  | moved {stats : PassStats} {t : Crawl} {q : Positions} {w : Change} (h : c.Trail s t)
      (hw : p.Writes w) (hq : t.db.positions = some q) (hopen : t.db.refusal w = none) :
      Exit c p s (.ok stats) (t.withPositions (w.onPositions q))
  /-- There is no table of positions to begin with, and nothing is done. -/
  | unread (hnone : s.db.positions = none) :
      Exit c p s (.error ⟨[.checkpoint], .noSuchTable "checkpoints"⟩) s
  /-- All is done but for the position of the pass, which is refused. -/
  | unwritten {t : Crawl} {q : Positions} {w : Change} {why : String} (h : c.Trail s t)
      (hw : p.Writes w) (hq : t.db.positions = some q) (hwhy : t.db.refusal w = some why) :
      Exit c p s (.error ⟨[.checkpoint], .refused why⟩) t
  /-- There is no set of blobs in which to look for the one of the file. -/
  | unasked {e : CrawlError} {v : Visit} (h : c.Failure s e v v.before)
      (hnone : v.before.db.blobs = none) : Exit c p s (.error e) v.before
  /-- The entries in the file cannot be linked or stored. -/
  | unstored {e : CrawlError} {v : Visit} {t : Crawl} (h : c.Failure s e v t)
      (hfails : v.FailsToStore c) : Exit c p s (.error e) t
  /-- All is done of the file but for its mark, which is refused. -/
  | unmarked {v : Visit} {b : String} {why : String} {t : Crawl}
      (h : c.Failure s ⟨[.checkpoint], .refused why⟩ v t) (hdone : v.Concludes c)
      (hb : v.Carries b) (hwhy : t.db.refusal (.insertBlob b) = some why) :
      Exit c p s (.error ⟨[.checkpoint], .refused why⟩) t

theorem Exit.of_trail (h : c.Trail s t) (hr : c.Exit p t r u) (hp : t.db.positions = some q) :
    c.Exit p s r u := by
  cases hr with
  | still h' => exact .still (h.append h')
  | moved h' hw hq hopen => exact .moved (h.append h') hw hq hopen
  | unread hnone => cases hp.symm.trans hnone
  | unwritten h' hw hq hwhy => exact .unwritten (h.append h') hw hq hwhy
  | unasked hv hnone => exact .unasked (hv.of_trail h) hnone
  | unstored hv hfails => exact .unstored (hv.of_trail h) hfails
  | unmarked hv hdone hb hwhy => exact .unmarked (hv.of_trail h) hdone hb hwhy

theorem FileDone.concludes (h : FileDone c v.commit v.file v.before t) (hopen : v.isOpen = true) :
    v.Concludes c := by
  cases h with
  | empty hraw hfragment => exact .empty hraw hfragment
  | @malformed html fragment e hraw hfragment hentries hlasting =>
    cases e with
    | unreadable e => cases hlasting
    | malformed m => exact .malformed hraw hfragment hentries
  | @stored html fragment entries summary t hraw hfragment hentries hstore =>
    exact .stored ⟨hopen, html, fragment, entries, summary, hraw, hfragment, hentries,
      congrArg Prod.fst (during_ok hstore)⟩

/-- An error at a file is one of the last three ways. -/
theorem Failure.exit (h : c.Failure s e v t) (p : Pass) : c.Exit p s (.error e) t := by
  cases fileFault_of_processFile h.failed with
  | unasked hknown => exact .unasked h (blobs_of_isProcessed_error hknown)
  | @unstored html fragment entries _ hnew hraw hfragment hentries hstore =>
    obtain ⟨e', hstore'⟩ := during_error hstore
    exact .unstored h ⟨Visit.isOpen_of_isProcessed hnew, html, fragment, entries, e', hraw,
      hfragment, hentries, congrArg Prod.fst hstore'⟩
  | unmarked hnew hdone hmark =>
    obtain ⟨b, why, hb, hwhy, rfl⟩ := refused_of_markProcessed_error hnew hdone.same.blobs hmark
    exact .unmarked h (hdone.concludes (Visit.isOpen_of_isProcessed hnew)) hb hwhy

/-- Nothing is stored of a file that ends with an error, unless all of its entries are. -/
theorem Failure.sameStreams (h : c.Failure s e v t) (hstores : ¬ v.Stores c) :
    SameStreams v.before t := by
  cases fileFault_of_processFile h.failed with
  | unasked => exact refl_of SameStreams v.before
  | unstored _ _ _ _ hstore =>
    obtain ⟨e', hstore'⟩ := during_error hstore
    obtain ⟨hstreams, hfiles⟩ := sameStreams_of_storeEntries_error hstore'
    exact ⟨hstreams, hfiles⟩
  | unmarked hnew hdone =>
    cases hdone with
    | empty | malformed => exact ⟨rfl, rfl⟩
    | @stored html fragment entries summary t hraw hfragment hentries hstore =>
      exact absurd ⟨Visit.isOpen_of_isProcessed hnew, html, fragment, entries, summary, hraw,
        hfragment, hentries, congrArg Prod.fst (during_ok hstore)⟩ hstores

/-- Where there are positions, the step ends as a pass does. -/
def Ends (c : Crawler) (p : Pass) (x : CrawlStep PassStats) : Prop :=
  ∀ s q, s.db.positions = some q → c.Exit p s (x s).1 (x s).2

theorem ends_pure (stats : PassStats) : c.Ends p (pure stats) := fun s _ _ => .still (.here s)

/-- A trail may come before the end. -/
theorem Treads.then_ends {x : CrawlStep α} {g : α → CrawlStep PassStats} (hx : c.Treads x)
    (hg : ∀ a, c.Ends p (g a)) : c.Ends p (x >>= g) := by
  intro s q hq
  rw [bind_run]
  cases h : x s with
  | mk r t =>
    cases r with
    | ok a =>
      have ht := (hx.ok h).positions.trans hq
      exact (hg a t q ht).of_trail (hx.ok h) ht
    | error e =>
      obtain ⟨v, hv⟩ := hx.error h
      exact hv.exit p

/-- A pass begins with the positions. -/
theorem exit_checkpoint {g : Checkpoint → CrawlStep PassStats} (hg : ∀ cp, c.Ends p (g cp))
    (s : Crawl) : c.Exit p s ((checkpoint >>= g) s).1 ((checkpoint >>= g) s).2 := by
  rw [bind_run]
  cases hp : s.db.positions with
  | none =>
    have hfail : checkpoint s = (.error ⟨[.checkpoint], .noSuchTable "checkpoints"⟩, s) := by
      simp [checkpoint, query, Database.load, hp, Database.table, Except.map]
    rw [hfail]
    exact .unread hp
  | some q =>
    rw [checkpoint_run hp]
    exact hg _ s q hp

/-- The write of its position is the end of a pass, whether or not it is refused. -/
theorem ends_save (hw : p.Writes w) (stats : PassStats) :
    c.Ends p (update .checkpoint w.apply >>= fun _ => pure stats) := by
  intro s q hq
  rw [bind_run, funext hw.apply_eq]
  cases hwhy : s.db.refusal w with
  | none =>
    rw [updatePositions_run hq hwhy]
    exact .moved (.here s) hw hq hwhy
  | some why =>
    have hfail : s.db.updatePositions w w.onPositions = .error (.refused why) :=
      Database.map_writable_eq_error_iff.mpr (.inr ⟨by rw [hq]; rfl, why, hwhy, rfl⟩)
    rw [update, hfail]
    exact .unwritten (.here s) hw hq hwhy

theorem ends_advance (before now : Option String) (stats : PassStats) :
    c.Ends .incremental (advance before now >>= fun _ => pure stats) := by
  unfold advance
  cases now with
  | none => exact ends_pure stats
  | some sha =>
    simp only
    split
    · exact ends_pure stats
    · exact ends_save (.saveLatest sha) stats

theorem ends_saveNext (next : BackfillCursor) (stats : PassStats) :
    c.Ends .backfill (update .checkpoint (·.saveNext next) >>= fun _ => pure stats) :=
  ends_save (.saveNext next) stats

theorem exit_incremental (c : Crawler) (limit : Nat) (s : Crawl) :
    c.Exit .incremental s (c.incremental limit s).1 (c.incremental limit s).2 := by
  unfold incremental
  split
  · exact .still (.here s)
  refine exit_checkpoint (fun cp => (treads_list _ _).then_ends fun answer => ?_) s
  cases answer with
  | error e => exact ends_pure _
  | ok page =>
    cases page with
    | nil => exact ends_pure _
    | cons head page => exact (treads_catchUp _).then_ends fun outcome => ends_advance _ _ _

theorem exit_backfill (c : Crawler) (limit : Nat) (s : Crawl) :
    c.Exit .backfill s (c.backfill limit s).1 (c.backfill limit s).2 := by
  have hfrom : ∀ sha, c.Ends .backfill (c.backfillFrom limit sha) := fun sha =>
    (treads_walkBack limit sha).then_ends fun outcome => ends_saveNext _ _
  unfold backfill
  split
  · exact .still (.here s)
  refine exit_checkpoint (fun cp => ?_) s
  cases hnext : cp.next with
  | done => simpa only [hnext] using ends_pure _
  | «at» sha => simpa only [hnext] using hfrom sha
  | unset =>
    simp only [backfillStart, bind_assoc]
    refine (treads_anchor cp.latest).then_ends fun anchor => ?_
    cases anchor with
    | none => exact ends_pure _
    | some sha =>
      simp only [bind_assoc]
      refine (treads_commit sha).then_ends fun answer => ?_
      cases answer with
      | error e => exact ends_pure _
      | ok d =>
        cases hfirst : d.firstParent? with
        | some parent => simpa only [hfirst, pure_bind] using hfrom parent
        | none =>
          -- the end of the history is noted at once, and nothing comes after that
          simp only [hfirst, bind_assoc, pure_bind]
          exact ends_saveNext _ _

/-- There are no other ways in which a pass ends. -/
theorem exit_pass (c : Crawler) (limit : Nat) (p : Pass) (s : Crawl) :
    c.Exit p s (c.pass limit p s).1 (c.pass limit p s).2 := by
  cases p with
  | incremental => exact c.exit_incremental limit s
  | backfill => exact c.exit_backfill limit s

theorem Failure.positions (h : c.Failure s e v t) : t.db.positions = s.db.positions :=
  ((within_processFile c _ _).of_run h.failed).positions.trans h.trail.positions

/-- An error changes no position. -/
theorem Exit.positions_of_error (h : c.Exit p s (.error e) t) :
    t.db.positions = s.db.positions := by
  cases h with
  | unread => rfl
  | unwritten h => exact h.positions
  | unasked h | unstored h | unmarked h => exact h.positions

/-- The pass leaves the position of the other pass alone. -/
theorem Exit.other (h : c.Exit p s r t) :
    t.db.positions.map p.other = s.db.positions.map p.other := by
  cases r with
  | error e => rw [h.positions_of_error]
  | ok stats =>
    cases h with
    | still h => rw [h.positions]
    | moved h hw hq =>
      rw [← h.positions, hq]
      exact congrArg some (hw.other_onPositions _)

/-- A pass writes its own position at most, once and at its end, and none if it fails. If it fails at
a file, the blob of the file is not marked, and nothing is stored of the file unless all of its
entries are, in which case it was the mark that was refused. -/
theorem pass_writes_last (c : Crawler) (limit : Nat) (p : Pass) (s : Crawl) :
    let r := (c.pass limit p s).1
    let t := (c.pass limit p s).2
    c.Exit p s r t ∧ t.db.positions.map p.other = s.db.positions.map p.other ∧
      (∀ e, r = .error e → t.db.positions = s.db.positions) ∧
      (∀ e v, r = .error e → c.Failure s e v t →
        (∀ b, v.Carries b → ¬ t.Settled b) ∧ (¬ v.Stores c → SameStreams v.before t)) ∧
      Crawl.Gains s t := by
  intro r t
  have hexit : c.Exit p s r t := c.exit_pass limit p s
  refine ⟨hexit, hexit.other, fun e he => ?_, fun e v _ hv => ⟨fun b hb => ?_, hv.sameStreams⟩,
    gains_pass limit p s⟩
  · rw [he] at hexit
    exact hexit.positions_of_error
  · exact unsettled_of_processFile_error hv.failed hb

/-- If the blobs are refused, the pass stops at the first file, whose stream is there. -/
example :
    let s : Crawl := { Crawl.titled with
      db := { Crawl.titled.db with
        refusal := fun w => if w.table = "processed_blobs" then some "read only" else none } }
    let t := (listed.pass 2 .incremental s).2
    (listed.pass 2 .incremental s).1 = .error ⟨[.checkpoint], .refused "read only"⟩ ∧
      t.db.positions = some {} ∧ t.db.blobs = some [] ∧ t.db.streamCount = .ok 1 := by
  decide +kernel

end Crawler

end Harvest
