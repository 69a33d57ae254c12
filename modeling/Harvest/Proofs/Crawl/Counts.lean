import Harvest.Proofs.Crawl.Exits
import Harvest.Proofs.Crawl.Idle
import Harvest.Proofs.Store.Rows

/-!
# What the numbers of a crawl count

A pass tells how many commits it has processed, of how many files it has stored the entries, and how
many streams were new. The account of a pass lists the commits whose details it has got for
processing and the visits to their files. The numbers are those of the account, and the streams are
the rows that the table of streams has gained, whatever the tables, the remote and the search are
like.

## Main definitions

* `Visit.summary?` — what the store tells of the entries of a file, if they are stored
* `Crawl.Adds` — the rows of the table of streams that are new
* `Crawler.Account` — the commits that are processed on the way from one state to another
* `Crawler.Tallies` — the numbers are those of an account
* `Crawl.Proceeds` — what passes and resets of any kind make of a crawl

## Main results

* `Visit.summary?_eq` — the new streams of a file are those that the store tells of
* `Crawler.tallies_pass`, `Crawler.tallies_run`, `Crawler.tallies_fullIngestion` — all numbers are
  right
* `Crawler.counts_conserved` — the numbers of passes, runs and full ingestions
-/

namespace Harvest

open CrawlStep

/-! ### Rows -/

/-- The rows are what the table of streams has gained. -/
def Crawl.Adds (s : Crawl) (new : List StreamRecord) (t : Crawl) : Prop :=
  Stream.Adds s.db.rows new t.db.rows

theorem Crawl.SameStreams.rows_eq {s t : Crawl} (h : Crawl.SameStreams s t) :
    t.db.rows = s.db.rows := by
  rw [Database.rows, h.streams]
  rfl

theorem Crawl.SameStreams.adds {s t : Crawl} (h : Crawl.SameStreams s t) : Crawl.Adds s [] t := by
  unfold Crawl.Adds
  rw [h.rows_eq]
  exact Stream.adds_nil _

open Crawl

namespace Crawler

variable {c : Crawler} {d : CommitDetail} {f : ChangedFile} {s t : Crawl}

/-- The names are linked, and one statement stores the records of the entries that are linked. -/
theorem storeEntries_run {entries : List Entry} {createdAt : Moment} {summary : StoreSummary}
    (h : c.storeEntries entries createdAt s = (.ok summary, t)) :
    ∃ u d, c.resolveAll (Prospect.requests (Snapshot.prospects entries)) s = (.ok (), u) ∧
      t = { u with db := d } ∧
      u.db.storeStreams (Prospect.records (Snapshot.prospects entries) u.cache createdAt) =
        (.ok summary.stored, d) := by
  obtain ⟨_, u, hlink, hrest⟩ := bind_ok h
  obtain ⟨cache, v, hcache, hrest⟩ := bind_ok hrest
  cases hcache
  obtain ⟨n, w, hstore, hend⟩ := bind_ok hrest
  cases hend
  obtain ⟨d, hrun, rfl⟩ := perform_ok hstore
  exact ⟨u, d, during_ok hlink, rfl, hrun⟩

/-- Linking touches no stream. -/
theorem storeEntries_ok {entries : List Entry} {createdAt : Moment} {summary : StoreSummary}
    (h : c.storeEntries entries createdAt s = (.ok summary, t)) :
    ∃ u d, SameStreams s u ∧ t = { u with db := d } ∧
      u.db.storeStreams (Prospect.records (Snapshot.prospects entries) u.cache createdAt) =
        (.ok summary.stored, d) := by
  obtain ⟨u, d, hlink, ht, hrun⟩ := storeEntries_run h
  exact ⟨u, d, (sameStreams_resolveAll _).of_run hlink, ht, hrun⟩

/-- The entries of a list add as many rows as the store tells, and change nothing if it tells of
none. -/
theorem storeEntries_adds {entries : List Entry} {createdAt : Moment} {summary : StoreSummary}
    (h : c.storeEntries entries createdAt s = (.ok summary, t)) :
    ∃ new, s.Adds new t ∧ new.length = summary.stored ∧ (new = [] → SameStreams s t) := by
  obtain ⟨u, d, hlinked, rfl, hrun⟩ := storeEntries_ok h
  obtain ⟨new, hadds, hlen, hsame, -⟩ := Database.storeStreams_adds hrun
  refine ⟨new, hlinked.adds.append hadds, hlen, fun hnil => ?_⟩
  obtain ⟨hstreams, hfiles⟩ := hsame hnil
  exact trans_of SameStreams hlinked ⟨hstreams, hfiles⟩

theorem sameStreams_markProcessed (f : ChangedFile) : Within SameStreams (markProcessed f) :=
  within_markProcessed (fun _ _ _ _ => ⟨rfl, rfl⟩) f

end Crawler

/-! ### Files -/

theorem toOption_eq_some_iff {ε α : Type} {x : Except ε α} {a : α} :
    x.toOption = some a ↔ x = .ok a := by
  cases x <;> simp [Except.toOption]

namespace Visit

variable {c : Crawler} {v : Visit} {t : Crawl}

/-- What the store tells of the entries of the file, if the file is fetched and they are stored. -/
def summary? (c : Crawler) (v : Visit) : Option StoreSummary :=
  if v.isOpen then do
    let html ← (v.body c).toOption
    let fragment ← Snapshot.fragment? c.settings.host html
    let entries ← (Snapshot.entriesOfPayload fragment).toOption
    (c.storeEntries entries v.commit.date (v.before.call (.raw v.file.url))).1.toOption
  else none

theorem summary?_eq_some {summary : StoreSummary} : v.summary? c = some summary ↔
    v.isOpen = true ∧ ∃ html fragment entries, v.body c = .ok html ∧
      Snapshot.fragment? c.settings.host html = some fragment ∧
      Snapshot.entriesOfPayload fragment = .ok entries ∧
      (c.storeEntries entries v.commit.date (v.before.call (.raw v.file.url))).1 = .ok summary := by
  simp [summary?, Option.bind_eq_some_iff, toOption_eq_some_iff]

/-- The entries of a file are stored if the store tells of them. -/
theorem stores_iff : v.Stores c ↔ (v.summary? c).isSome := by
  simp only [Option.isSome_iff_exists, summary?_eq_some]
  constructor
  · rintro ⟨hopen, html, fragment, entries, summary, h⟩
    exact ⟨summary, hopen, html, fragment, entries, h⟩
  · rintro ⟨summary, hopen, html, fragment, entries, h⟩
    exact ⟨hopen, html, fragment, entries, summary, h⟩

instance (c : Crawler) (v : Visit) : Decidable (v.Stores c) := decidable_of_iff _ stores_iff.symm

/-- If a visit ends with a value, it is the number of rows that the entries of the file have added,
or they have not been stored. -/
theorem summary?_eq {n : Option Nat}
    (h : c.processFile v.commit v.file v.before = (.ok n, t)) :
    n = (v.summary? c).map StoreSummary.stored ∧
      ∃ new, v.before.Adds new t ∧ new.length = n.getD 0 := by
  -- in all cases but the last one, the store tells of nothing and the streams are as before
  have unsaid : ∀ {u : Crawl}, v.summary? c = none → SameStreams v.before u →
      none = (v.summary? c).map StoreSummary.stored ∧
        ∃ new, v.before.Adds new u ∧ new.length = (none : Option Nat).getD 0 := by
    intro u hnone hsame
    rw [hnone]
    exact ⟨rfl, [], hsame.adds, rfl⟩
  have marked : ∀ {u : Crawl} {e : Event},
      Crawler.markProcessed v.file (v.before.call (.raw v.file.url)) = (.ok (), u) →
      SameStreams v.before (u.log e) := by
    intro u e hmark
    obtain ⟨hstreams, hfiles⟩ := (Crawler.sameStreams_markProcessed _).of_run hmark
    exact ⟨hstreams, hfiles⟩
  cases Crawler.fileRun_of_processFile h with
  | known hblob hb =>
    refine unsaid (if_neg ?_) ⟨rfl, rfl⟩
    obtain ⟨bs, hbs, hmem⟩ := Crawl.settled_iff.mp hb
    simpa [isOpen, hblob, hbs] using hmem
  | unfetched hnew hraw =>
    refine unsaid ?_ ⟨rfl, rfl⟩
    simp [summary?, body, hraw, Except.toOption]
  | undecoded hnew hraw hfragment hentries =>
    refine unsaid ?_ ⟨rfl, rfl⟩
    simp [summary?, body, hraw, hfragment, hentries, Except.toOption]
  | empty hnew hraw hfragment hmark =>
    refine unsaid ?_ (marked hmark)
    simp [summary?, body, hraw, hfragment, Except.toOption]
  | malformed hnew hraw hfragment hentries _ hmark =>
    refine unsaid ?_ (marked hmark)
    simp [summary?, body, hraw, hfragment, hentries, Except.toOption]
  | stored hnew hraw hfragment hentries hstore hmark =>
    have hrun := during_ok hstore
    have hsummary := summary?_eq_some.mpr ⟨isOpen_of_isProcessed hnew, _, _, _, hraw, hfragment,
      hentries, congrArg Prod.fst hrun⟩
    obtain ⟨new, hadds, hlen, -⟩ := Crawler.storeEntries_adds hrun
    have hsame := (Crawler.sameStreams_markProcessed _).of_run hmark
    rw [hsummary]
    exact ⟨rfl, new, (List.append_nil new) ▸ hadds.append hsame.adds, hlen⟩

end Visit

/-! ### Accounts -/

/-- A commit whose details have been got for processing, and the visits to its files. -/
structure Handling where
  sha : String
  commit : CommitDetail
  visits : List Visit

namespace Crawler

variable {c : Crawler} {d : CommitDetail} {fs : List ChangedFile} {s s' t u : Crawl}
  {vs : List Visit} {hs hs' : List Handling} {x y : PassStats} {sha : String}

/-- The files of a commit are dealt with in order, each of them to the end. -/
inductive Visits (c : Crawler) (d : CommitDetail) :
    Crawl → List ChangedFile → List Visit → Crawl → Prop
  | none (s : Crawl) : Visits c d s [] [] s
  | visit {f : ChangedFile} {fs : List ChangedFile} {vs : List Visit} {n : Option Nat}
      {s t u : Crawl} (hrun : c.processFile d f s = (.ok n, t)) (h : Visits c d t fs vs u) :
      Visits c d s (f :: fs) (⟨d, f, s⟩ :: vs) u

/-- What happens in a crawl besides the processing of commits. -/
inductive Quiet (c : Crawler) (s : Crawl) : Crawl → Prop
  /-- Commits are listed. -/
  | list (n page : Nat) : Quiet c s (s.call (.list n page))
  /-- The details of a commit cannot be had. -/
  | failed {sha : String} {e : FetchError} (he : c.remote.commit s.calls sha = .error e) :
      Quiet c s (s.call (.commit sha))
  /-- The details of a commit are needed to find out where the way back begins. -/
  | anchor {p : Positions} (hp : s.db.positions = some p) (hnext : p.checkpoint.next = .unset)
      (sha : String) : Quiet c s (s.call (.commit sha))
  /-- The positions are written. -/
  | save (positions : Option Positions) :
      Quiet c s { s with db := { s.db with positions := positions } }
  /-- The crawl goes on with other remembered resolutions. -/
  | cache (cache : ResolutionCache) : Quiet c s { s with cache := cache }

/-- How a crawl gets from one state to another: by processing the given commits, and by nothing else
that would concern files. A commit is processed if its details have been had: then all its snapshots
are visited in order, and the commit is reported. -/
inductive Account (c : Crawler) : Crawl → List Handling → Crawl → Prop
  | here (s : Crawl) : Account c s [] s
  | quiet {s s' t : Crawl} {hs : List Handling} (hquiet : c.Quiet s s') (h : Account c s' hs t) :
      Account c s hs t
  | commit {s t u : Crawl} {sha pass : String} {d : CommitDetail} {vs : List Visit}
      {files streams : Nat} {hs : List Handling} (hd : c.remote.commit s.calls sha = .ok d)
      (hvisits : c.Visits d (s.call (.commit sha)) (c.snapshots d) vs t)
      (h : Account c (t.log (.commit pass sha files streams)) hs u) :
      Account c s (⟨sha, d, vs⟩ :: hs) u

/-- The numbers are those of an account: the commits that have been processed, the files whose
entries have been stored, and the rows that the table of streams has gained. -/
def Tallies (c : Crawler) (s : Crawl) (stats : PassStats) (t : Crawl) : Prop :=
  ∃ hs new, c.Account s hs t ∧ s.Adds new t ∧ stats.commits = hs.length ∧
    stats.files = (hs.flatMap Handling.visits).countP (·.Stores c) ∧ stats.streams = new.length

theorem Account.append (h : c.Account s hs t) (h' : c.Account t hs' u) :
    c.Account s (hs ++ hs') u := by
  induction h with
  | here => exact h'
  | quiet hquiet _ ih => exact .quiet hquiet (ih h')
  | commit hd hvisits _ ih => exact .commit hd hvisits (ih h')

theorem Quiet.sameStreams (h : c.Quiet s t) : SameStreams s t := by
  cases h <;> exact ⟨rfl, rfl⟩

theorem tallies_here (s : Crawl) : c.Tallies s {} s :=
  ⟨[], [], .here s, Stream.adds_nil _, rfl, rfl, rfl⟩

theorem Quiet.tallies (h : c.Quiet s t) : c.Tallies s {} t :=
  ⟨[], [], .quiet h (.here t), h.sameStreams.adds, rfl, rfl, rfl⟩

/-- The numbers of two accounts in a row add up. -/
theorem Tallies.add (h : c.Tallies s x t) (h' : c.Tallies t y u) : c.Tallies s (x + y) u := by
  obtain ⟨hs, new, haccount, hadds, hcommits, hfiles, hstreams⟩ := h
  obtain ⟨hs', new', haccount', hadds', hcommits', hfiles', hstreams'⟩ := h'
  refine ⟨hs ++ hs', new ++ new', haccount.append haccount', hadds.append hadds', ?_, ?_, ?_⟩
  · rw [List.length_append, ← hcommits, ← hcommits']
    rfl
  · rw [List.flatMap_append, List.countP_append, ← hfiles, ← hfiles']
    rfl
  · rw [List.length_append, ← hstreams, ← hstreams']
    rfl

theorem Tallies.after (h : c.Tallies s {} t) (h' : c.Tallies t x u) : c.Tallies s x u :=
  x.zero_add ▸ h.add h'

theorem Tallies.before (h : c.Tallies s x t) (h' : c.Tallies t {} u) : c.Tallies s x u :=
  x.add_zero ▸ h.add h'

/-! ### Commits -/

/-- The numbers for the files of a commit are those of the visits. -/
theorem visits_of_processFiles {n : Nat × Nat} (h : c.processFiles d fs s = (.ok n, t)) :
    ∃ vs new, c.Visits d s fs vs t ∧ s.Adds new t ∧ n.1 = vs.countP (·.Stores c) ∧
      n.2 = new.length := by
  induction fs generalizing s n with
  | nil =>
    cases h
    exact ⟨[], [], .none _, Stream.adds_nil _, rfl, rfl⟩
  | cons f fs ih =>
    obtain ⟨m, u, hfile, hrest⟩ := bind_ok h
    obtain ⟨rest, v, hfiles, hend⟩ := bind_ok hrest
    cases hend
    obtain ⟨vs, new, hvisits, hadds, hcount, hlen⟩ := ih hfiles
    obtain ⟨hm, new', hadds', hlen'⟩ := Visit.summary?_eq (v := ⟨d, f, s⟩) hfile
    refine ⟨⟨d, f, s⟩ :: vs, new' ++ new, .visit hfile hvisits, hadds'.append hadds, ?_, ?_⟩
    · -- the file counts if the store has told of its entries
      have hone : m.toList.length = if Visit.Stores c ⟨d, f, s⟩ then 1 else 0 := by
        simp only [Visit.stores_iff, hm]
        cases Visit.summary? c ⟨d, f, s⟩ <;> rfl
      rw [List.countP_cons, ← hcount, hone, Nat.add_comm]
      simp only [decide_eq_true_eq]
    · rw [List.length_append, hlen', ← hlen]

theorem tallies_processCommit {pass : Pass} {p : Option ProcessedCommit}
    (h : c.processCommit pass sha s = (.ok p, t)) :
    c.Tallies s (p.elim {} ProcessedCommit.stats) t := by
  obtain ⟨answer, u, hu, hrest⟩ := bind_ok h
  rw [commit_run] at hu
  cases hu
  cases hd : c.remote.commit s.calls sha with
  | error e =>
    -- without its details the commit does not count
    rw [hd] at hrest
    cases hrest
    exact (Quiet.failed hd).tallies
  | ok d =>
    rw [hd] at hrest
    obtain ⟨n, v, hfiles, hend⟩ := bind_ok hrest
    cases hend
    obtain ⟨vs, new, hvisits, hadds, hcount, hlen⟩ := visits_of_processFiles hfiles
    refine ⟨[⟨sha, d, vs⟩], new, .commit hd hvisits (.here _), hadds, rfl, ?_, hlen⟩
    rw [List.flatMap_singleton]
    exact hcount

/-! ### Passes -/

theorem tallies_catchUp {shas : List String} {last : Option String} {complete : Bool}
    (h : c.catchUp shas s = (.ok (x, last, complete), t)) : c.Tallies s x t := by
  -- the numbers of the first commit and those of the rest add up
  induction shas generalizing s x last complete with
  | nil =>
    cases h
    exact tallies_here _
  | cons sha shas ih =>
    obtain ⟨p, u, hp, hrest⟩ := bind_ok h
    have hfirst := tallies_processCommit hp
    cases p with
    | none =>
      cases hrest
      exact hfirst
    | some p =>
      obtain ⟨⟨y, last', complete'⟩, v, hcatch, hend⟩ := bind_ok hrest
      cases hend
      exact hfirst.add (ih hcatch)

theorem tallies_walkBack {n : Nat} {next : BackfillCursor}
    (h : c.walkBack n sha s = (.ok (x, next), t)) : c.Tallies s x t := by
  induction n generalizing sha s x next with
  | zero =>
    cases h
    exact tallies_here _
  | succ n ih =>
    obtain ⟨p, u, hp, hrest⟩ := bind_ok h
    have hfirst := tallies_processCommit hp
    cases p with
    | none =>
      cases hrest
      exact hfirst
    | some p =>
      cases hparent : p.firstParent with
      | none =>
        simp only [hparent] at hrest
        cases hrest
        exact hfirst
      | some parent =>
        simp only [hparent] at hrest
        obtain ⟨⟨y, next'⟩, v, hwalk, hend⟩ := bind_ok hrest
        cases hend
        exact hfirst.add (ih hwalk)

theorem quiet_updatePositions {part : CrawlPart} {w : Change} {f : Positions → Positions}
    (h : update part (·.updatePositions w f) s = (.ok (), t)) : c.Quiet s t := by
  obtain ⟨d, hd, rfl⟩ := update_ok h
  obtain ⟨p, -, -, rfl⟩ := Database.updatePositions_eq_ok_iff.mp hd
  exact .save _

theorem tallies_advance {before now : Option String} (h : advance before now s = (.ok (), t)) :
    c.Tallies s {} t := by
  unfold advance at h
  cases now with
  | none =>
    cases h
    exact tallies_here _
  | some sha =>
    simp only at h
    split at h
    · cases h
      exact tallies_here s
    · exact (quiet_updatePositions h).tallies

theorem tallies_incremental {limit : Nat} (h : c.incremental limit s = (.ok x, t)) :
    c.Tallies s x t := by
  unfold incremental at h
  split at h
  · cases h
    exact tallies_here s
  obtain ⟨cp, u, hcp, hrest⟩ := bind_ok h
  obtain ⟨rfl, -⟩ := checkpoint_ok hcp
  obtain ⟨answer, v, hv, hrest⟩ := bind_ok hrest
  rw [list_run] at hv
  cases hv
  refine (Quiet.list (c.perPage limit) 1).tallies.after ?_
  unfold perPage
  cases hpage : c.remote.list u.calls (min limit (max c.settings.pageSize 1)) 1 with
  | error e =>
    rw [hpage] at hrest
    cases hrest
    exact tallies_here _
  | ok page =>
    rw [hpage] at hrest
    cases page with
    | nil =>
      cases hrest
      exact tallies_here _
    | cons head page =>
      obtain ⟨⟨y, last, complete⟩, w, hcatch, hrest⟩ := bind_ok hrest
      obtain ⟨_, w', hadvance, hend⟩ := bind_ok hrest
      cases hend
      exact (tallies_catchUp hcatch).before (tallies_advance hadvance)

theorem tallies_backfillFrom {limit : Nat} (h : c.backfillFrom limit sha s = (.ok x, t)) :
    c.Tallies s x t := by
  obtain ⟨⟨y, next⟩, u, hwalk, hrest⟩ := bind_ok h
  obtain ⟨_, v, hsave, hend⟩ := bind_ok hrest
  cases hend
  exact (tallies_walkBack hwalk).before (quiet_updatePositions hsave).tallies

/-- Looking for the place where the way back begins processes nothing. -/
theorem tallies_backfillStart {p : Positions} {latest start : Option String}
    (hp : s.db.positions = some p) (hnext : p.checkpoint.next = .unset)
    (h : c.backfillStart latest s = (.ok start, t)) : c.Tallies s {} t := by
  obtain ⟨anchor, u, hu, hrest⟩ := bind_ok h
  have hlisted : c.Tallies s {} u := by
    cases latest with
    | some sha =>
      cases hu
      exact tallies_here _
    | none =>
      obtain ⟨answer, v, hv, hend⟩ := bind_ok hu
      rw [list_run] at hv
      cases hv
      cases hlist : c.remote.list s.calls 1 1 <;> rw [hlist] at hend <;> cases hend <;>
        exact (Quiet.list 1 1).tallies
  have hpositions := (anchor_ok hu).1.positions.trans hp
  refine hlisted.after ?_
  cases anchor with
  | none =>
    cases hrest
    exact tallies_here _
  | some sha =>
    obtain ⟨answer, v, hv, hrest⟩ := bind_ok hrest
    rw [commit_run] at hv
    cases hv
    refine (Quiet.anchor hpositions hnext sha).tallies.after ?_
    cases hd : c.remote.commit u.calls sha with
    | error e =>
      rw [hd] at hrest
      cases hrest
      exact tallies_here _
    | ok d =>
      cases hparent : d.firstParent? with
      | some parent =>
        simp only [hd, hparent] at hrest
        cases hrest
        exact tallies_here _
      | none =>
        simp only [hd, hparent] at hrest
        obtain ⟨_, w, hsave, hend⟩ := bind_ok hrest
        cases hend
        exact (quiet_updatePositions hsave).tallies

theorem tallies_backfill {limit : Nat} (h : c.backfill limit s = (.ok x, t)) :
    c.Tallies s x t := by
  unfold backfill at h
  split at h
  · cases h
    exact tallies_here s
  obtain ⟨cp, u, hcp, hrest⟩ := bind_ok h
  obtain ⟨rfl, p, hp, rfl⟩ := checkpoint_ok hcp
  cases hnext : p.checkpoint.next with
  | done =>
    simp only [hnext] at hrest
    cases hrest
    exact tallies_here _
  | «at» sha =>
    simp only [hnext] at hrest
    exact tallies_backfillFrom hrest
  | unset =>
    simp only [hnext] at hrest
    obtain ⟨start, v, hstart, hfrom⟩ := bind_ok hrest
    refine (tallies_backfillStart hp hnext hstart).after ?_
    cases start with
    | none =>
      cases hfrom
      exact tallies_here _
    | some sha => exact tallies_backfillFrom hfrom

/-- The numbers of a pass are right. -/
theorem tallies_pass {p : Pass} {limit : Nat} (h : c.pass limit p s = (.ok x, t)) :
    c.Tallies s x t := by
  cases p with
  | incremental => exact tallies_incremental h
  | backfill => exact tallies_backfill h

/-! ### Runs -/

/-- The numbers of both passes of a run are right. -/
theorem tallies_run {limits : PassLimits} {r : RunStats} (h : c.run limits s = (.ok r, t)) :
    ∃ u, c.Tallies s r.incremental u ∧ c.Tallies u r.backfill t := by
  obtain ⟨u, v, hfirst, hsecond, rfl⟩ := run_ok h
  -- what is remembered changes before the first pass and after the second one, and no row with it
  have hfresh : c.Quiet s { s with cache := {} } := .cache {}
  have hback : c.Quiet v { v with cache := s.cache } := .cache s.cache
  exact ⟨u, hfresh.tallies.after (tallies_incremental hfirst),
    (tallies_backfill hsecond).before hback.tallies⟩

end Crawler

namespace RunStats

/-- What some runs have done together. -/
def sum (rs : List RunStats) : RunStats := rs.foldr (· + ·) {}

/-- What both passes of a run have done together. -/
def total (r : RunStats) : PassStats := r.incremental + r.backfill

theorem add_def (x y : RunStats) :
    x + y = ⟨x.incremental + y.incremental, x.backfill + y.backfill⟩ := rfl

theorem total_add (x y : RunStats) : (x + y).total = x.total + y.total := by
  simp only [total, add_def, PassStats.add_def, PassStats.mk.injEq]
  omega

theorem sum_singleton (x : RunStats) : sum [x] = x := by
  simp only [sum, List.foldr_cons, List.foldr_nil, add_def, PassStats.add_zero]

end RunStats

namespace Crawler

variable {c : Crawler} {s t u : Crawl} {limits : PassLimits}

theorem runs_cons {n : Nat} {r : RunStats} {rs : List RunStats} (hrun : c.run limits s = (.ok r, t))
    (hruns : c.runs limits n t = (.ok rs, u)) : c.runs limits (n + 1) s = (.ok (r :: rs), u) := by
  rw [runs, bind_run, hrun]
  simp only [bind_run, hruns]
  rfl

theorem tallies_runs {n : Nat} {rs : List RunStats} (h : c.runs limits n s = (.ok rs, t)) :
    c.Tallies s (RunStats.sum rs).total t := by
  induction n generalizing s rs with
  | zero =>
    cases h
    exact tallies_here _
  | succ n ih =>
    obtain ⟨r, u, hrun, hrest⟩ := bind_ok h
    obtain ⟨rs, v, hruns, hend⟩ := bind_ok hrest
    cases hend
    obtain ⟨w, hincremental, hbackfill⟩ := tallies_run hrun
    rw [RunStats.sum, List.foldr_cons, RunStats.total_add]
    exact (hincremental.add hbackfill).add (ih hruns)

/-- Iterations are runs in a row, and their totals are the sums over the runs. -/
theorem runs_of_iterate {n : Nat} {outcome : IterationOutcome}
    (h : c.iterate limits n s = (.ok outcome, t)) :
    ∃ rs, c.runs limits outcome.runs s = (.ok rs, t) ∧ rs.length = outcome.runs ∧
      outcome.totals = RunStats.sum rs := by
  induction n generalizing s outcome with
  | zero =>
    cases h
    exact ⟨[], rfl, rfl, rfl⟩
  | succ n ih =>
    obtain ⟨stats, state, u, hrun, -, hend⟩ := iterate_succ_ok h
    have hlast : ∃ rs, c.runs limits 1 s = (.ok rs, u) ∧ rs.length = 1 ∧ stats = RunStats.sum rs :=
      ⟨[stats], runs_cons hrun rfl, rfl, (RunStats.sum_singleton stats).symm⟩
    -- the way back is over, the run has done nothing, or further runs follow
    rcases hend with ⟨-, rfl, rfl⟩ | ⟨-, -, rfl, rfl⟩ | ⟨-, -, later, hiterate, rfl⟩
    · exact hlast
    · exact hlast
    · obtain ⟨rs, hruns, hlen, htotals⟩ := ih hiterate
      refine ⟨stats :: rs, runs_cons hrun hruns, congrArg (· + 1) hlen, ?_⟩
      rw [RunStats.sum, List.foldr_cons, IterationOutcome.after, htotals]
      rfl

theorem sameStreams_reset : Within SameStreams CrawlStep.reset :=
  within_reset (fun _ _ => ⟨rfl, rfl⟩) (fun _ _ => ⟨rfl, rfl⟩) fun _ _ => ⟨rfl, rfl⟩

/-- The totals of a full ingestion are the sums over its runs, and are right. -/
theorem tallies_fullIngestion {o : FullOptions} {report : FullReport}
    (h : c.fullIngestion o s = (.ok report, t)) :
    ∃ u rs, (if o.reset then CrawlStep.reset s = (.ok (), u) else s = u) ∧ SameStreams s u ∧
      c.runs report.limits report.iterationsRun u = (.ok rs, t) ∧
      rs.length = report.iterationsRun ∧ report.totals = RunStats.sum rs ∧
      c.Tallies u report.totals.total t := by
  obtain ⟨u, outcome, hstart, hiterate, -, htotals, hcount, -⟩ := fullIngestion_ok h
  obtain ⟨rs, hruns, hlen, hsum⟩ := runs_of_iterate hiterate
  have hsame : SameStreams s u := by
    split at hstart
    · exact sameStreams_reset.of_run hstart
    · exact hstart ▸ refl_of SameStreams s
  rw [htotals, hcount, hsum]
  exact ⟨u, rs, hstart, hsame, hruns, hlen, rfl, tallies_runs hruns⟩

end Crawler

/-! ### Passes one after the other -/

namespace Crawl

/-- What becomes of a crawl while passes are made, however they end, and resets. Each pass may have
a remote, a search, settings and a limit of its own. -/
inductive Proceeds (s : Crawl) : Crawl → Prop
  | here : Proceeds s s
  | pass {t : Crawl} (h : Proceeds s t) (c : Crawler) (p : Pass) (limit : Nat) :
      Proceeds s (c.pass limit p t).2
  | reset {t : Crawl} (h : Proceeds s t) : Proceeds s (CrawlStep.reset t).2
  | withCache {t : Crawl} (h : Proceeds s t) (cache : ResolutionCache) :
      Proceeds s { t with cache := cache }

variable {s t : Crawl}

/-- Rows are only added, whatever happens. -/
theorem Proceeds.rows_kept (h : s.Proceeds t) : s.db.rows <+: t.db.rows := by
  induction h with
  | here => exact List.prefix_rfl
  | pass _ c p limit ih => exact ih.trans (Crawler.gains_pass limit p _).grows.rows_kept
  | @reset t _ ih => exact (Crawler.sameStreams_reset t).rows_eq ▸ ih
  | withCache _ _ ih => exact ih

end Crawl

namespace Crawler

/-- The numbers of passes, runs and full ingestions are right, and no stream is counted twice,
whatever happens between two passes. -/
theorem counts_conserved (c : Crawler) (s : Crawl) :
    (∀ p limit x t, c.pass limit p s = (.ok x, t) → c.Tallies s x t) ∧
    (∀ limits r t, c.run limits s = (.ok r, t) →
      ∃ u, c.Tallies s r.incremental u ∧ c.Tallies u r.backfill t) ∧
    (∀ o report t, c.fullIngestion o s = (.ok report, t) →
      ∃ u rs, (if o.reset then CrawlStep.reset s = (.ok (), u) else s = u) ∧ SameStreams s u ∧
        c.runs report.limits report.iterationsRun u = (.ok rs, t) ∧
        rs.length = report.iterationsRun ∧ report.totals = RunStats.sum rs ∧
        c.Tallies u report.totals.total t) ∧
    ∀ p limit x t, c.pass limit p s = (.ok x, t) →
      ∀ u, t.Proceeds u → ∀ (c' : Crawler) p' limit' y v, c'.pass limit' p' u = (.ok y, v) →
        ∃ new new', s.Adds new t ∧ new.length = x.streams ∧ u.Adds new' v ∧
          new'.length = y.streams ∧ ∀ r ∈ new, ∀ r' ∈ new', r.infoHash ≠ r'.infoHash := by
  refine ⟨fun _ _ _ _ => tallies_pass, fun _ _ _ => tallies_run, fun _ _ _ => tallies_fullIngestion,
    fun p limit x t h u hu c' p' limit' y v h' => ?_⟩
  obtain ⟨-, new, -, hadds, -, -, hlen⟩ := tallies_pass h
  obtain ⟨-, new', -, hadds', -, -, hlen'⟩ := tallies_pass h'
  refine ⟨new, new', hadds, hlen.symm, hadds', hlen'.symm, fun r hr r' hr' => ?_⟩
  -- what the first pass has added is still there when the second one begins
  have hmem : r ∈ t.db.rows := hadds.eq ▸ List.mem_append_right _ hr
  exact hadds'.ne_of_mem (hu.rows_kept.mem hmem) hr'

end Crawler

/-! ### A small example -/

namespace Crawler

/-- The list is stored twice, and its entry once; the backfill pass finds nothing more to do. -/
theorem counts_conserved_listed :
    ∃ t u v w, listed.pass 2 .incremental .titled = (.ok ⟨2, 2, 1⟩, t) ∧
      listed.Tallies .titled ⟨2, 2, 1⟩ t ∧
      listed.pass 2 .backfill t = (.ok ⟨1, 0, 0⟩, u) ∧
      (∃ new new', Crawl.titled.Adds new t ∧ new.length = 1 ∧ t.Adds new' u ∧ new'.length = 0 ∧
        ∀ r ∈ new, ∀ r' ∈ new', r.infoHash ≠ r'.infoHash) ∧
      listed.run {} .titled = (.ok ⟨⟨2, 2, 1⟩, ⟨1, 0, 0⟩⟩, v) ∧
      (∃ h, listed.Tallies .titled ⟨2, 2, 1⟩ h ∧ listed.Tallies h ⟨1, 0, 0⟩ v) ∧
      ∃ report, listed.fullIngestion ⟨3, {}, true⟩ v = (.ok report, w) ∧
        report.totals = ⟨⟨2, 2, 0⟩, ⟨1, 0, 0⟩⟩ ∧
        ∃ h rs, CrawlStep.reset v = (.ok (), h) ∧ SameStreams v h ∧
          listed.runs report.limits report.iterationsRun h = (.ok rs, w) ∧
          rs.length = report.iterationsRun ∧ report.totals = RunStats.sum rs ∧
          listed.Tallies h report.totals.total w := by
  -- one evaluation for all values, so that the list is unpacked once
  have hvalues : (listed.pass 2 .incremental .titled).1 = .ok ⟨2, 2, 1⟩ ∧
      (listed.pass 2 .backfill (listed.pass 2 .incremental .titled).2).1 = .ok ⟨1, 0, 0⟩ ∧
      (listed.run {} .titled).1 = .ok ⟨⟨2, 2, 1⟩, ⟨1, 0, 0⟩⟩ ∧
      (listed.fullIngestion ⟨3, {}, true⟩ (listed.run {} .titled).2).1 =
        .ok ⟨.backfillComplete, 1, 3, {}, ⟨⟨2, 2, 0⟩, ⟨1, 0, 0⟩⟩,
          ⟨.backfillDone, some "b", some BackfillCursor.doneMark, 2⟩⟩ := by decide +kernel
  obtain ⟨hx, hy, hr, hreport⟩ := hvalues
  obtain ⟨t, hpass⟩ := exists_run hx
  rw [hpass] at hy
  obtain ⟨u, hpass'⟩ := exists_run hy
  obtain ⟨v, hrun⟩ := exists_run hr
  rw [hrun] at hreport
  obtain ⟨w, hingest⟩ := exists_run hreport
  obtain ⟨hpasses, hruns, -, hapart⟩ := listed.counts_conserved .titled
  obtain ⟨h, rs, hreset, hingested⟩ := (listed.counts_conserved v).2.2.1 _ _ _ hingest
  exact ⟨t, u, v, w, hpass, hpasses _ _ _ _ hpass, hpass',
    hapart _ _ _ _ hpass t .here listed _ _ _ _ hpass', hrun, hruns _ _ _ hrun, _, hingest, rfl,
    h, rs, hreset, hingested⟩

end Crawler

end Harvest
