import Harvest.Proofs.Crawl.World

/-!
# The course of a crawl

Between two states of a crawl, files are dealt with one after the other. What happens besides is
asking for commits, reporting on them, and writing the positions: none of that reads or changes the
set of blobs that need no further work. So whatever holds of dealing with one file, in any state,
extends to all passes over all commits, however often the same blob turns up and wherever a pass has
been cut short.

## Main definitions

* `Visit` — a file that is dealt with in a certain state
* `Visit.Stores`, `Visit.Concludes` — the entries are stored, the blob is dealt with for good
* `Crawler.Course` — how a crawl gets from one state to another, with the files on the way
* `Crawler.Passes` — what a sequence of passes makes of a crawl
* `Crawler.Discipline` — when blobs enter the set, and what the set prevents

## Main results

* `Visit.settled_after` — a visit settles the blob of its file exactly if it concludes
* `Crawler.Passes.exists_course` — passes consist of visits
* `Crawler.Passes.exists_disciplined` — the set is kept with discipline in every sequence of passes
-/

namespace Harvest

open CrawlStep

/-- A file that is dealt with in a certain state of a crawl. -/
structure Visit where
  commit : CommitDetail
  file : ChangedFile
  before : Crawl

namespace Visit

variable (c : Crawler) (v : Visit)

/-- The state after the file has been dealt with, whether or not there has been an error. -/
def after : Crawl := (c.processFile v.commit v.file v.before).2

/-- The file has the blob as its contents. -/
def Carries (b : String) : Prop := v.file.blob = some b

/-- Whether the file has to be fetched: its blob, if it has one, is not in the set. -/
def isOpen : Bool := v.file.blob.all fun b => !(v.before.db.blobs.getD []).contains b

/-- The answer of the remote if the file is fetched. -/
def body : Except FetchError String := c.remote.raw v.before.calls v.file.url

/-- The file is fetched, and its entries go through the store without an error. -/
def Stores : Prop :=
  v.isOpen = true ∧ ∃ html fragment entries summary, v.body c = .ok html ∧
    Snapshot.fragment? c.settings.host html = some fragment ∧
    Snapshot.entriesOfPayload fragment = .ok entries ∧
    (c.storeEntries entries v.commit.date (v.before.call (.raw v.file.url))).1 = .ok summary

/-- The text of the file has been had, and there is nothing more to be got from it. -/
inductive Concludes : Prop
  /-- There is no list in the text. -/
  | empty {html : String} (hbody : v.body c = .ok html)
      (hfragment : Snapshot.fragment? c.settings.host html = none)
  /-- The list is damaged for good. -/
  | malformed {html fragment : String} {m : Malformation} (hbody : v.body c = .ok html)
      (hfragment : Snapshot.fragment? c.settings.host html = some fragment)
      (hentries : Snapshot.entriesOfPayload fragment = .error (.malformed m))
  /-- The entries of the list are stored. -/
  | stored (h : v.Stores c)

variable {c v}

theorem isOpen_iff {bs : List String} (hblobs : v.before.db.blobs = some bs) :
    v.isOpen = true ↔ ∀ b, v.Carries b → ¬ v.before.Settled b := by
  unfold isOpen Carries
  cases v.file.blob with
  | none => simp
  | some b => simp [Crawl.settled_iff, hblobs]

theorem Concludes.exists_body (h : v.Concludes c) : ∃ html, v.body c = .ok html := by
  cases h with
  | empty hbody | malformed hbody => exact ⟨_, hbody⟩
  | stored h =>
    obtain ⟨-, html, -, -, -, hbody, -⟩ := h
    exact ⟨html, hbody⟩

/-- A text in which there is a list concludes the visit by what becomes of the list. -/
theorem Concludes.of_fragment {html fragment : String} (h : v.Concludes c)
    (hbody : v.body c = .ok html)
    (hfragment : Snapshot.fragment? c.settings.host html = some fragment) :
    (∃ m, Snapshot.entriesOfPayload fragment = .error (.malformed m)) ∨ v.Stores c := by
  cases h with
  | empty hbody' hnone =>
    rw [hbody] at hbody'
    cases hbody'
    rw [hfragment] at hnone
    cases hnone
  | malformed hbody' hfragment' hentries =>
    rw [hbody] at hbody'
    cases hbody'
    rw [hfragment] at hfragment'
    cases hfragment'
    exact .inl ⟨_, hentries⟩
  | stored h => exact .inr h

end Visit

namespace Crawler

variable {c : Crawler} {d : CommitDetail} {f : ChangedFile} {s t : Crawl} {bs : List String}

/-! ### One visit -/

/-- As long as the set takes blobs, nothing but the store ends a visit with an error. -/
theorem storeEntries_of_error {e : CrawlError} (hblobs : s.db.TakesBlobs)
    (h : c.processFile d f s = (.error e, t)) :
    ∃ html fragment entries e', c.remote.raw s.calls f.url = .ok html ∧
      Snapshot.fragment? c.settings.host html = some fragment ∧
      Snapshot.entriesOfPayload fragment = .ok entries ∧
      (c.storeEntries entries d.date (s.call (.raw f.url))).1 = .error e' := by
  cases fileFault_of_processFile h with
  | unasked hknown =>
    obtain ⟨bs, hbs⟩ := hblobs.blobs
    exact absurd hknown (isProcessed_ne_error hbs)
  | unmarked _ hdone hmark =>
    exact absurd hmark (markProcessed_ne_error (hdone.same.takesBlobs hblobs))
  | @unstored html fragment entries _ _ hraw hfragment hentries hstore =>
    obtain ⟨e', he'⟩ := during_error hstore
    exact ⟨html, fragment, entries, e', hraw, hfragment, hentries, by rw [he']⟩

/-- Dealing with a file leaves the set in place. -/
theorem within_takesBlobs (c : Crawler) (d : CommitDetail) (f : ChangedFile) :
    Within (fun s t => s.db.TakesBlobs → t.db.TakesBlobs) (c.processFile d f) := by
  refine within_processFile_of (fun _ _ => id) (fun _ _ _ => id)
    (within_markProcessed (fun s bs b _ hs => ?_) f) fun _ entries _ s hs => ?_
  · exact ⟨⟨_, rfl⟩, hs.refusal⟩
  · exact (c.within_storeEntries entries d.date s).takesBlobs hs

end Crawler

namespace Visit

variable {c : Crawler} {v : Visit} {bs : List String} {b : String}

theorem isProcessed_eq (hblobs : v.before.db.blobs = some bs) :
    Crawler.isProcessed v.file v.before = (.ok (!v.isOpen), v.before) := by
  unfold Crawler.isProcessed isOpen
  cases v.file.blob with
  | none => simp
  | some b => simp [query, Database.hasBlob, Database.table, hblobs, Except.map]

theorem isOpen_of_isProcessed (h : Crawler.isProcessed v.file v.before = (.ok false, v.before)) :
    v.isOpen = true := by
  unfold Crawler.isProcessed at h
  unfold isOpen
  cases hb : v.file.blob with
  | none => rfl
  | some b =>
    rw [hb] at h
    obtain ⟨-, hnew⟩ := query_ok h
    cases hblobs : v.before.db.blobs <;>
      simp_all [Database.hasBlob, Database.table, Except.map]

/-- A visit settles the blob of its file exactly if it concludes, and no other blob. -/
theorem settled_after (hblobs : v.before.db.TakesBlobs) (b : String) :
    (v.after c).Settled b ↔ v.before.Settled b ∨ v.Carries b ∧ v.Concludes c := by
  -- a visit that settles nothing must not conclude, unless its blob is in the set already
  have unsettled : ∀ {t : Crawl}, (t.Settled b ↔ v.before.Settled b) →
      (v.Carries b → v.Concludes c → v.before.Settled b) →
      (t.Settled b ↔ v.before.Settled b ∨ v.Carries b ∧ v.Concludes c) := by
    intro t hsame hnot
    rw [hsame]
    exact ⟨.inl, fun h => h.elim id fun ⟨hb, hv⟩ => hnot hb hv⟩
  have settled : ∀ {t : Crawl}, (t.Settled b ↔ v.before.Settled b ∨ v.Carries b) →
      v.Concludes c → (t.Settled b ↔ v.before.Settled b ∨ v.Carries b ∧ v.Concludes c) := by
    intro t hmark hv
    rw [hmark, and_iff_left hv]
  unfold after
  cases h : c.processFile v.commit v.file v.before with
  | mk r t =>
    cases r with
    | ok n =>
      cases Crawler.fileRun_of_processFile h with
      | known hblob hb =>
        refine unsettled Iff.rfl fun hcarries _ => ?_
        obtain rfl := Option.some.inj (hblob.symm.trans hcarries)
        exact hb
      | unfetched _ hraw =>
        refine unsettled Iff.rfl fun _ hv => ?_
        obtain ⟨html, hbody⟩ := hv.exists_body
        cases hraw.symm.trans hbody
      | undecoded _ hraw hfragment hentries hlasting =>
        refine unsettled Iff.rfl fun _ hv => ?_
        rcases hv.of_fragment hraw hfragment with
          ⟨m, hm⟩ | ⟨-, html, fragment, entries, -, hbody, hfragment', hok, -⟩
        · cases hentries.symm.trans hm
          cases hlasting
        · cases hraw.symm.trans hbody
          cases hfragment.symm.trans hfragment'
          cases hentries.symm.trans hok
      | empty _ hraw hfragment hmark =>
        obtain ⟨-, -, -, hsettled⟩ := Crawler.markProcessed_ok hmark
        exact settled (hsettled b) (.empty hraw hfragment)
      | @malformed html fragment e t _ hraw hfragment hentries hlasting hmark =>
        obtain ⟨-, -, -, hsettled⟩ := Crawler.markProcessed_ok hmark
        cases e with
        | unreadable e => cases hlasting
        | malformed m => exact settled (hsettled b) (.malformed hraw hfragment hentries)
      | @stored html fragment entries summary t u hnew hraw hfragment hentries hstore hmark =>
        obtain ⟨-, -, -, hsettled⟩ := Crawler.markProcessed_ok hmark
        -- the set is not touched before the entries have gone through
        have same := ((c.within_storeEntries _ _).during _).of_run hstore
        have hstores : v.Stores c :=
          ⟨isOpen_of_isProcessed hnew, html, fragment, entries, summary, hraw, hfragment,
            hentries, by rw [during_ok hstore]⟩
        refine settled ((hsettled b).trans ?_) (.stored hstores)
        rw [same.settled_iff b]
        rfl
    | error e =>
      obtain ⟨-, -, -, hsettled⟩ := Crawler.processFile_error h
      refine unsettled (hsettled b) fun _ hv => ?_
      obtain ⟨html, fragment, entries, e', hraw, hfragment, hentries, hfails⟩ :=
        Crawler.storeEntries_of_error hblobs h
      rcases hv.of_fragment hraw hfragment with
        ⟨m, hm⟩ | ⟨-, html', fragment', entries', summary, hbody, hfragment', hok, hstores⟩
      · cases hentries.symm.trans hm
      · cases hraw.symm.trans hbody
        cases hfragment.symm.trans hfragment'
        cases hentries.symm.trans hok
        cases hfails.symm.trans hstores

/-- A visit fetches its file exactly if the file is open, and asks nothing else of the remote. -/
theorem calls_after (hblobs : v.before.db.TakesBlobs) :
    (v.after c).calls =
      v.before.calls ++ if v.isOpen then [RemoteCall.raw v.file.url] else [] := by
  obtain ⟨bs, hbs⟩ := hblobs.blobs
  have fetched : ∀ {t : Crawl}, Crawler.isProcessed v.file v.before = (.ok false, v.before) →
      t.calls = (v.before.call (.raw v.file.url)).calls →
      t.calls = v.before.calls ++ if v.isOpen then [RemoteCall.raw v.file.url] else [] := by
    intro t hnew hcalls
    rw [hcalls, isOpen_of_isProcessed hnew, if_pos rfl]
    rfl
  unfold after
  cases h : c.processFile v.commit v.file v.before with
  | mk r t =>
    cases r with
    | ok n =>
      cases Crawler.fileRun_of_processFile h with
      | known hblob hb =>
        have hclosed : v.isOpen ≠ true := fun hopen => (isOpen_iff hbs).mp hopen _ hblob hb
        rw [if_neg hclosed, List.append_nil]
        rfl
      | unfetched hnew => exact fetched hnew rfl
      | undecoded hnew => exact fetched hnew rfl
      | empty hnew _ _ hmark => exact fetched hnew (Crawler.markProcessed_ok hmark).2.1
      | malformed hnew _ _ _ _ hmark => exact fetched hnew (Crawler.markProcessed_ok hmark).2.1
      | stored hnew _ _ _ hstore hmark =>
        have same := ((c.within_storeEntries _ _).during _).of_run hstore
        exact fetched hnew ((Crawler.markProcessed_ok hmark).2.1.trans same.calls)
    | error e =>
      cases Crawler.fileFault_of_processFile h with
      | unasked hknown => exact absurd hknown (Crawler.isProcessed_ne_error hbs)
      | unmarked hnew hdone => exact fetched hnew hdone.same.calls
      | unstored hnew _ _ _ hstore =>
        exact fetched hnew (((c.within_storeEntries _ _).during _).of_run hstore).calls

end Visit

/-! ### A course of visits -/

/-- The address of a file that is asked for. -/
def RemoteCall.url? : RemoteCall → Option String
  | raw url => some url
  | _ => none

/-- The addresses of the files that have been asked for, in order. -/
def Crawl.fetched (s : Crawl) : List String := s.calls.filterMap RemoteCall.url?

/-- What happens in a crawl besides dealing with files. -/
inductive Crawl.Aside (s : Crawl) : Crawl → Prop
  /-- Commits are listed. -/
  | list (n page : Nat) : Aside s (s.call (.list n page))
  /-- The details of a commit are asked for. -/
  | commit (sha : String) : Aside s (s.call (.commit sha))
  /-- A commit is reported. -/
  | report (pass sha : String) (files streams : Nat) :
      Aside s (s.log (.commit pass sha files streams))
  /-- The positions are written. -/
  | save (positions : Option Positions) :
      Aside s { s with db := { s.db with positions := positions } }
  /-- The crawl goes on with other remembered resolutions. -/
  | cache (cache : ResolutionCache) : Aside s { s with cache := cache }

namespace Crawler

/-- How a crawl gets from one state to another: by dealing with the given files, which are snapshots
of commits that the remote has given, and by nothing else that would concern files. -/
inductive Course (c : Crawler) : Crawl → List Visit → Crawl → Prop
  | here (s : Crawl) : Course c s [] s
  | aside {s s' t : Crawl} {vs : List Visit} (hs : s.Aside s') (h : Course c s' vs t) :
      Course c s vs t
  | visit {v : Visit} {t : Crawl} {vs : List Visit} {past : List RemoteCall} {sha : String}
      (hcommit : c.remote.commit past sha = .ok v.commit)
      (hfile : v.file ∈ c.settings.snapshots v.commit) (h : Course c (v.after c) vs t) :
      Course c v.before (v :: vs) t

/-- A pass of one of the two kinds over at most `limit` commits. -/
def pass (c : Crawler) (limit : Nat) : Pass → CrawlStep PassStats
  | .incremental => c.incremental limit
  | .backfill => c.backfill limit

/-- What a sequence of passes makes of a crawl. A pass may end with an error, and may begin with
other remembered resolutions than the one before has ended with. -/
inductive Passes (c : Crawler) (s : Crawl) : Crawl → Prop
  | none : Passes c s s
  | pass {t : Crawl} (h : Passes c s t) (p : Pass) (limit : Nat) : Passes c s (c.pass limit p t).2
  | withCache {t : Crawl} (h : Passes c s t) (cache : ResolutionCache) :
      Passes c s { t with cache := cache }

variable {c : Crawler} {s t u : Crawl} {vs ws : List Visit} {bs : List String}

theorem Course.append (h : c.Course s vs t) (h' : c.Course t ws u) : c.Course s (vs ++ ws) u := by
  induction h with
  | here => exact h'
  | aside hs _ ih => exact .aside hs (ih h')
  | visit hcommit hfile _ ih => exact .visit hcommit hfile (ih h')

/-- There is a course from one state to the other. -/
def Leads (c : Crawler) (s t : Crawl) : Prop := ∃ vs, c.Course s vs t

instance (c : Crawler) : IsPreorder Crawl c.Leads where
  refl s := ⟨[], .here s⟩
  trans _ _ _ := fun ⟨vs, h⟩ ⟨ws, h'⟩ => ⟨vs ++ ws, h.append h'⟩

theorem leads_of_aside (h : s.Aside t) : c.Leads s t := ⟨[], .aside h (.here t)⟩

theorem leads_processCommit (pass : Pass) (sha : String) :
    Within c.Leads (c.processCommit pass sha) :=
  within_processCommit
    (fun _ _ d hd f hf s => ⟨[⟨d, f, s⟩], .visit (v := ⟨d, f, s⟩) hd hf (.here _)⟩)
    (fun _ _ => leads_of_aside (.commit _)) (fun _ _ _ _ _ => leads_of_aside (.report ..)) pass sha

theorem leads_pass (limit : Nat) (p : Pass) : Within c.Leads (c.pass limit p) := by
  have hlist : ∀ s n page, c.Leads s (s.call (.list n page)) :=
    fun _ _ _ => leads_of_aside (.list _ _)
  have hcommit : ∀ s sha, c.Leads s (s.call (.commit sha)) := fun _ _ => leads_of_aside (.commit _)
  have hsave : ∀ (s : Crawl) positions,
      c.Leads s { s with db := { s.db with positions := positions } } :=
    fun _ _ => leads_of_aside (.save _)
  cases p with
  | incremental => exact within_incremental hlist leads_processCommit hsave limit
  | backfill => exact within_backfill hlist hcommit leads_processCommit hsave limit

/-- Whatever a sequence of passes makes of a crawl, it does so by dealing with files. -/
theorem Passes.exists_course (h : c.Passes s t) : ∃ vs, c.Course s vs t := by
  induction h with
  | none => exact refl_of c.Leads s
  | pass _ p limit ih => exact trans_of c.Leads ih (leads_pass limit p _)
  | withCache _ cache ih => exact trans_of c.Leads ih (leads_of_aside (.cache cache))

end Crawler

/-! ### The set along a course -/

namespace Crawl.Aside

variable {s t : Crawl} {b : String}

theorem blobs (h : s.Aside t) : t.db.blobs = s.db.blobs := by
  cases h <;> rfl

theorem takesBlobs (h : s.Aside t) (hs : s.db.TakesBlobs) : t.db.TakesBlobs := by
  cases h <;> exact ⟨hs.blobs, hs.refusal⟩

theorem settled_iff (h : s.Aside t) : t.Settled b ↔ s.Settled b := by
  rw [Crawl.settled_iff, Crawl.settled_iff, h.blobs]

theorem fetched (h : s.Aside t) : t.fetched = s.fetched := by
  cases h <;> simp [Crawl.fetched, RemoteCall.url?]

end Crawl.Aside

namespace Visit

variable {c : Crawler} {v : Visit} {b : String}

theorem takesBlobs_after (hblobs : v.before.db.TakesBlobs) : (v.after c).db.TakesBlobs :=
  c.within_takesBlobs v.commit v.file v.before hblobs

theorem fetched_after (hblobs : v.before.db.TakesBlobs) :
    (v.after c).fetched = v.before.fetched ++ if v.isOpen then [v.file.url] else [] := by
  rw [Crawl.fetched, calls_after hblobs, List.filterMap_append, Crawl.fetched]
  cases v.isOpen <;> rfl

/-- Once the blob of a file is in the set, its entries are not stored again. -/
theorem not_stores_of_settled (hblobs : v.before.db.TakesBlobs) (hb : v.Carries b)
    (hsettled : v.before.Settled b) : ¬ v.Stores c := by
  rintro ⟨hopen, -⟩
  obtain ⟨bs, hbs⟩ := hblobs.blobs
  exact (isOpen_iff hbs).mp hopen b hb hsettled

end Visit

namespace Crawler

variable {c : Crawler} {s t : Crawl} {vs : List Visit} {v : Visit} {b : String}

namespace Course

theorem takesBlobs_before (h : c.Course s vs t) (hs : s.db.TakesBlobs) (hv : v ∈ vs) :
    v.before.db.TakesBlobs := by
  induction h with
  | here => cases hv
  | aside haside _ ih => exact ih (haside.takesBlobs hs) hv
  | visit _ _ _ ih =>
    rcases List.mem_cons.mp hv with rfl | hv
    · exact hs
    · exact ih (Visit.takesBlobs_after hs) hv

/-- The blobs that are in the set at the end were there at the beginning, or a visit to a file that
carries them has concluded. -/
theorem settled_iff (h : c.Course s vs t) (hs : s.db.TakesBlobs) (b : String) :
    t.Settled b ↔ s.Settled b ∨ ∃ v ∈ vs, v.Carries b ∧ v.Concludes c := by
  induction h with
  | here => simp
  | aside haside _ ih => rw [ih (haside.takesBlobs hs), haside.settled_iff]
  | visit _ _ _ ih =>
    rw [ih (Visit.takesBlobs_after hs), Visit.settled_after hs, or_assoc]
    simp only [List.mem_cons, exists_eq_or_imp]

/-- What is in the set at the beginning is still there when a file is dealt with. -/
theorem settled_before (h : c.Course s vs t) (hs : s.db.TakesBlobs) (hv : v ∈ vs)
    (hb : s.Settled b) : v.before.Settled b := by
  induction h with
  | here => cases hv
  | aside haside _ ih => exact ih (haside.takesBlobs hs) hv (haside.settled_iff.mpr hb)
  | visit _ _ _ ih =>
    rcases List.mem_cons.mp hv with rfl | hv
    · exact hb
    · exact ih (Visit.takesBlobs_after hs) hv ((Visit.settled_after hs b).mpr (.inl hb))

/-- The files that are fetched are the open ones. -/
theorem fetched_eq (h : c.Course s vs t) (hs : s.db.TakesBlobs) :
    t.fetched = s.fetched ++ (vs.filter Visit.isOpen).map (·.file.url) := by
  induction h with
  | here => simp
  | aside haside _ ih => rw [ih (haside.takesBlobs hs), haside.fetched]
  | @visit v _ _ _ _ _ _ _ ih =>
    rw [ih (Visit.takesBlobs_after hs), Visit.fetched_after hs, List.append_assoc]
    cases hopen : v.isOpen <;> simp [hopen]

/-- The entries of a blob are stored once at most. -/
theorem pairwise_stores (h : c.Course s vs t) (hs : s.db.TakesBlobs) :
    vs.Pairwise fun v w => ∀ b, v.Carries b → w.Carries b → v.Stores c → ¬ w.Stores c := by
  induction h with
  | here => exact List.Pairwise.nil
  | aside haside _ ih => exact ih (haside.takesBlobs hs)
  | visit _ _ hrest ih =>
    refine List.pairwise_cons.mpr
      ⟨fun w hw b hv hw' hstores => ?_, ih (Visit.takesBlobs_after hs)⟩
    -- the first visit puts the blob into the set, and the later one finds it there
    have hafter := (Visit.settled_after hs b).mpr (.inr ⟨hv, .stored hstores⟩)
    have hbefore := hrest.settled_before (Visit.takesBlobs_after hs) hw hafter
    exact Visit.not_stores_of_settled
      (hrest.takesBlobs_before (Visit.takesBlobs_after hs) hw) hw' hbefore

end Course

/-- How the set of blobs that need no further work is kept on a course. -/
structure Discipline (c : Crawler) (s : Crawl) (vs : List Visit) (t : Crawl) : Prop where
  /-- A visit adds the blob of its file if it concludes, and adds nothing otherwise. -/
  entered : ∀ v ∈ vs, ∀ b,
    (v.after c).Settled b ↔ v.before.Settled b ∨ v.Carries b ∧ v.Concludes c
  /-- Nothing else adds a blob. -/
  settled : ∀ b, t.Settled b ↔ s.Settled b ∨ ∃ v ∈ vs, v.Carries b ∧ v.Concludes c
  /-- The blob is added at the end: the set is what it was when the entries have been stored. -/
  late : ∀ v ∈ vs, ∀ entries,
    (c.storeEntries entries v.commit.date (v.before.call (.raw v.file.url))).2.db.blobs =
      v.before.db.blobs
  /-- A file is open if its blob is not in the set at that moment. -/
  opened : ∀ v ∈ vs, v.isOpen = true ↔ ∀ b, v.Carries b → ¬ v.before.Settled b
  /-- The files that are fetched are the open ones. -/
  fetched : t.fetched = s.fetched ++ (vs.filter Visit.isOpen).map (·.file.url)
  /-- No two visits store the entries of the same blob. -/
  stored : vs.Pairwise fun v w => ∀ b, v.Carries b → w.Carries b → v.Stores c → ¬ w.Stores c
  /-- The set loses nothing, from one visit to the next and all the way. -/
  kept : ∀ b, s.Settled b →
    t.Settled b ∧ ∀ v ∈ vs, v.before.Settled b ∧ (v.after c).Settled b

theorem Course.discipline (h : c.Course s vs t) (hs : s.db.TakesBlobs) : c.Discipline s vs t where
  entered v hv b := Visit.settled_after (h.takesBlobs_before hs hv) b
  settled b := h.settled_iff hs b
  late v _ entries := (c.within_storeEntries entries v.commit.date _).blobs
  opened v hv := by
    obtain ⟨bs, hbs⟩ := (h.takesBlobs_before hs hv).blobs
    exact Visit.isOpen_iff hbs
  fetched := h.fetched_eq hs
  stored := h.pairwise_stores hs
  kept b hb := by
    refine ⟨(h.settled_iff hs b).mpr (.inl hb), fun v hv => ?_⟩
    have hbefore := h.settled_before hs hv hb
    exact ⟨hbefore, (Visit.settled_after (h.takesBlobs_before hs hv) b).mpr (.inl hbefore)⟩

/-- As long as the set takes blobs, every sequence of passes consists of visits that keep it with
discipline, however often the same blob turns up and wherever a pass has been cut short. -/
theorem Passes.exists_disciplined (h : c.Passes s t) (hs : s.db.TakesBlobs) :
    ∃ vs, c.Course s vs t ∧ c.Discipline s vs t := by
  obtain ⟨vs, hcourse⟩ := h.exists_course
  exact ⟨vs, hcourse, hcourse.discipline hs⟩

/-- Passes that overlap: both kinds come to the second of three commits. -/
theorem overlapping_passes (c : Crawler) (s : Crawl) :
    c.Passes s (c.backfill 3 (c.incremental 2 s).2).2 :=
  (Passes.none.pass .incremental 2).pass .backfill 3

theorem discipline_small :
    (World.fresh .small).crawl.db.TakesBlobs ∧
    ∃ vs,
      (small .small).Course (World.fresh .small).crawl vs
        ((small .small).backfill 3 ((small .small).incremental 2 (World.fresh .small).crawl).2).2 ∧
      (small .small).Discipline (World.fresh .small).crawl vs
        ((small .small).backfill 3 ((small .small).incremental 2 (World.fresh .small).crawl).2).2 :=
  ⟨⟨⟨_, rfl⟩, fun _ => rfl⟩,
    (overlapping_passes _ _).exists_disciplined ⟨⟨_, rfl⟩, fun _ => rfl⟩⟩

end Crawler

end Harvest
