import Harvest.Proofs.Store.Streams

/-!
# The rows that storing streams adds

Whatever the tables contain, storing records adds rows behind the others, as many as it says, and
each of them has a hash of its own that was not there before.

## Main definitions

* `Stream.hashes` — the hashes of some records
* `Stream.Adds` — rows come behind others, with hashes of their own
* `Database.rows` — the streams that are stored
* `Database.Holds` — a database to which some records add nothing

## Main results

* `StreamTables.storeAll_adds` — what storing records adds
* `StreamTables.storeAll_rows`, `StreamTables.storeAll_count` — which records these are, and how
  many of some records with different hashes
* `Database.storeStreams_adds`, `Database.storeStreams_firsts`, `Database.storeStreams_rows`,
  `Database.storeStreams_count` — the same for the statement of the database
* `Database.holds_of_storeStreams`, `Database.Holds.storeStreams` — records that have been stored add
  nothing
-/

namespace Harvest

namespace Stream

/-- The hashes of some records, in order. -/
def hashes (rows : List StreamRecord) : List String := rows.map (·.infoHash)

/-- Rows come behind the others, each with a hash of its own that was not there before. -/
structure Adds (rows new rows' : List StreamRecord) : Prop where
  eq : rows' = rows ++ new
  fresh : ∀ r ∈ new, r.infoHash ∉ hashes rows
  nodup : (hashes new).Nodup

variable {rows rows' rows'' new new' : List StreamRecord} {r : StreamRecord}

theorem adds_nil (rows : List StreamRecord) : Adds rows [] rows where
  eq := (List.append_nil rows).symm
  fresh r hr := by cases hr
  nodup := List.nodup_nil

theorem hashes_append (rows rows' : List StreamRecord) :
    hashes (rows ++ rows') = hashes rows ++ hashes rows' := List.map_append

theorem mem_hashes_of_mem (hr : r ∈ rows) : r.infoHash ∈ hashes rows := List.mem_map_of_mem hr

theorem Adds.mem_hashes_iff (h : Adds rows new rows') (x : String) :
    x ∈ hashes rows' ↔ x ∈ hashes rows ∨ x ∈ hashes new := by
  rw [h.eq, hashes_append, List.mem_append]

/-- Rows may be added in portions. -/
theorem Adds.append (h : Adds rows new rows') (h' : Adds rows' new' rows'') :
    Adds rows (new ++ new') rows'' where
  eq := by rw [h'.eq, h.eq, List.append_assoc]
  fresh r hr := by
    rcases List.mem_append.mp hr with hr | hr
    · exact h.fresh r hr
    · exact fun hmem => h'.fresh r hr ((h.mem_hashes_iff _).mpr (.inl hmem))
  nodup := by
    rw [hashes_append]
    refine List.nodup_append.mpr ⟨h.nodup, h'.nodup, ?_⟩
    -- a hash of the first portion is there already when the second one comes
    rintro x hx _ hy rfl
    obtain ⟨r, hr, rfl⟩ := List.mem_map.mp hy
    exact h'.fresh r hr ((h.mem_hashes_iff _).mpr (.inr hx))

/-- Rows that were there already have other hashes than those that are added later. -/
theorem Adds.ne_of_mem (h : Adds rows new rows') (hr : r ∈ rows) {r' : StreamRecord}
    (hr' : r' ∈ new) : r.infoHash ≠ r'.infoHash :=
  fun heq => h.fresh r' hr' (heq ▸ mem_hashes_of_mem hr)

end Stream

namespace StreamTables

variable {t t' : StreamTables} {r : StreamRecord} {rs : List StreamRecord} {n : Nat}

/-- A record that is new adds a row, and any other record changes nothing. -/
theorem store_adds (h : t.store r = .ok (n, t')) :
    ∃ new, Stream.Adds t.streams new t'.streams ∧ new.length = n ∧ (new = [] → t' = t) ∧
      ∀ x, x ∈ Stream.hashes t'.streams ↔ x ∈ Stream.hashes t.streams ∨ x = r.infoHash := by
  unfold store at h
  split at h
  next hnew =>
    have hfresh : r.infoHash ∉ Stream.hashes t.streams := isNew_iff.mp hnew
    have added : t'.streams = t.streams ++ [Stream.stored r] → n = 1 →
        ∃ new, Stream.Adds t.streams new t'.streams ∧ new.length = n ∧ (new = [] → t' = t) ∧
          ∀ x, x ∈ Stream.hashes t'.streams ↔ x ∈ Stream.hashes t.streams ∨ x = r.infoHash := by
      rintro heq rfl
      have hadds : Stream.Adds t.streams [Stream.stored r] t'.streams := by
        refine ⟨heq, fun x hx => ?_, List.nodup_singleton _⟩
        rw [List.mem_singleton.mp hx]
        exact hfresh
      refine ⟨_, hadds, rfl, fun hnil => (List.cons_ne_nil _ _ hnil).elim, fun x => ?_⟩
      rw [hadds.mem_hashes_iff]
      exact or_congr_right List.mem_singleton
    split at h
    · cases h
      exact added rfl rfl
    · cases h
    · cases h
      exact added rfl rfl
  next hknown =>
    cases h
    refine ⟨[], Stream.adds_nil _, rfl, fun _ => rfl, fun x => ⟨.inl, ?_⟩⟩
    rintro (hx | rfl)
    · exact hx
    · exact Classical.not_not.mp fun hx => hknown (isNew_iff.mpr hx)

/-- Storing records adds rows, as many as it says, and afterwards the hashes of all
records are there. -/
theorem storeAll_adds (h : t.storeAll rs = .ok (n, t')) :
    ∃ new, Stream.Adds t.streams new t'.streams ∧ new.length = n ∧ (new = [] → t' = t) ∧
      ∀ x, x ∈ Stream.hashes t'.streams ↔ x ∈ Stream.hashes t.streams ∨ x ∈ Stream.hashes rs := by
  induction rs generalizing t n with
  | nil =>
    cases h
    exact ⟨[], Stream.adds_nil _, rfl, fun _ => rfl, fun x => by simp [Stream.hashes]⟩
  | cons r rs ih =>
    obtain ⟨k, m, u, hstore, hall, rfl⟩ := storeAll_cons_ok h
    obtain ⟨new, hadds, hlen, hsame, hmem⟩ := store_adds hstore
    obtain ⟨new', hadds', hlen', hsame', hmem'⟩ := ih hall
    refine ⟨new ++ new', hadds.append hadds', ?_, fun hnil => ?_, fun x => ?_⟩
    · rw [List.length_append, hlen, hlen']
    · obtain ⟨hnew, hnew'⟩ := List.append_eq_nil_iff.mp hnil
      exact (hsame' hnew').trans (hsame hnew)
    · rw [hmem', hmem, or_assoc]
      exact or_congr_right List.mem_cons.symm

theorem contains_hashes (rows : List StreamRecord) (r : StreamRecord) :
    (Stream.hashes rows).contains r.infoHash = !Stream.isNew rows r := by
  rw [Bool.eq_iff_iff, Bool.not_eq_true', ← Bool.not_eq_true, isNew_iff, not_not,
    List.contains_iff_mem]
  rfl

/-- Storing one record adds it as a row if it is new. -/
theorem store_rows (h : t.store r = .ok (n, t')) : t'.streams =
    if Stream.isNew t.streams r then t.streams ++ [Stream.stored r] else t.streams := by
  unfold store at h
  split at h
  next hnew =>
    rw [if_pos hnew]
    split at h <;> cases h <;> rfl
  next hknown =>
    rw [if_neg hknown]
    cases h
    rfl

/-- The rows that are added are the first records of those hashes that were not there, in order. -/
theorem storeAll_rows (h : t.storeAll rs = .ok (n, t')) : t'.streams = t.streams ++
    (firstOfEachAfter (·.infoHash) (Stream.hashes t.streams) rs).map Stream.stored := by
  induction rs generalizing t n with
  | nil =>
    cases h
    exact (List.append_nil _).symm
  | cons r rs ih =>
    obtain ⟨k, m, u, hstore, hall, -⟩ := storeAll_cons_ok h
    have hrow := store_rows hstore
    unfold firstOfEachAfter
    rw [ih hall, contains_hashes]
    cases hnew : Stream.isNew t.streams r with
    | false =>
      rw [hnew] at hrow
      rw [hrow]
      rfl
    | true =>
      rw [hnew, if_pos rfl] at hrow
      -- the hash of the row that was added counts as seen
      have hseen : firstOfEachAfter (·.infoHash) (Stream.hashes u.streams) rs =
          firstOfEachAfter (·.infoHash) (r.infoHash :: Stream.hashes t.streams) rs := by
        refine firstOfEachAfter_congr _ (fun x => ?_) rs
        rw [hrow, Stream.hashes_append, List.mem_append, List.mem_cons, or_comm]
        exact or_congr_left List.mem_singleton
      rw [hseen, hrow, List.append_assoc]
      rfl

/-- Of records with different hashes, those are added that are new at the beginning. -/
theorem storeAll_rows_of_nodup (h : t.storeAll rs = .ok (n, t'))
    (hnodup : (Stream.hashes rs).Nodup) :
    t'.streams = t.streams ++ (rs.filter (Stream.isNew t.streams ·)).map Stream.stored := by
  rw [storeAll_rows h, firstOfEachAfter_of_nodup hnodup]
  simp only [contains_hashes, Bool.not_not]

theorem storeAll_count (h : t.storeAll rs = .ok (n, t')) (hnodup : (Stream.hashes rs).Nodup) :
    n = rs.countP (Stream.isNew t.streams ·) := by
  obtain ⟨new, hadds, hlen, -⟩ := storeAll_adds h
  have hnew : new = _ :=
    List.append_cancel_left (hadds.eq.symm.trans (storeAll_rows_of_nodup h hnodup))
  rw [← hlen, hnew, List.length_map, List.countP_eq_length_filter]

/-- Records whose hashes are there already add nothing. -/
theorem storeAll_of_known (h : ∀ x ∈ Stream.hashes rs, x ∈ Stream.hashes t.streams) :
    t.storeAll rs = .ok (0, t) := by
  induction rs with
  | nil => rfl
  | cons r rs ih =>
    obtain ⟨hr, hrs⟩ := List.forall_mem_cons.mp h
    have hknown : Stream.isNew t.streams r = false :=
      Bool.eq_false_iff.mpr fun hnew => isNew_iff.mp hnew hr
    simp only [storeAll, store_of_known hknown, ih hrs, bind, Except.bind, pure, Except.pure]

end StreamTables

namespace Database

/-- The streams that are stored; none if there is no table. -/
def rows (d : Database) : List StreamRecord := d.streams.getD []

variable {d d' : Database} {rs : List StreamRecord} {n : Nat}

theorem Grows.rows_kept (h : d.Grows d') : d.rows <+: d'.rows := by
  unfold rows
  cases hs : d.streams with
  | none => exact List.nil_prefix
  | some rows =>
    obtain ⟨rows', hs', hprefix⟩ := h.streams rows hs
    rw [hs']
    exact hprefix

/-- The statement that stores records adds as many rows as it says, and touches nothing if it adds
none. -/
theorem storeStreams_adds (h : d.storeStreams rs = (.ok n, d')) :
    ∃ new, Stream.Adds d.rows new d'.rows ∧ new.length = n ∧
      (new = [] → d'.streams = d.streams ∧ d'.files = d.files) ∧
      ∀ x, x ∈ Stream.hashes d'.rows ↔ x ∈ Stream.hashes d.rows ∨ x ∈ Stream.hashes rs := by
  obtain ⟨-, hrun⟩ := storeStreams_run h
  rcases hrun with ⟨⟨hs, hf⟩, hnone⟩ | ⟨n, streams, tables, hn, hs, hall, hs', hf'⟩
  · obtain ⟨rfl, rfl⟩ := hnone n rfl
    have hrows : d'.rows = d.rows := by rw [rows, hs]; rfl
    rw [hrows]
    exact ⟨[], Stream.adds_nil _, rfl, fun _ => ⟨hs, hf⟩, fun x => by simp [Stream.hashes]⟩
  · cases hn
    obtain ⟨new, hadds, hlen, hsame, hmem⟩ := StreamTables.storeAll_adds hall
    have hrows : d.rows = streams := by rw [rows, hs]; rfl
    have hrows' : d'.rows = tables.streams := by rw [rows, hs']; rfl
    rw [hrows, hrows']
    refine ⟨new, hadds, hlen, fun hnil => ?_, hmem⟩
    rw [hsame hnil] at hs' hf'
    exact ⟨hs'.trans hs.symm, hf'⟩

/-- Of records with different hashes, the statement adds those that are new. -/
theorem storeStreams_count (h : d.storeStreams rs = (.ok n, d'))
    (hnodup : (Stream.hashes rs).Nodup) : n = rs.countP (Stream.isNew d.rows ·) := by
  obtain ⟨-, hrun⟩ := storeStreams_run h
  rcases hrun with ⟨-, hnone⟩ | ⟨m, streams, tables, hn, hs, hall, -, -⟩
  · obtain ⟨rfl, rfl⟩ := hnone n rfl
    rfl
  · cases hn
    have hrows : d.rows = streams := by rw [rows, hs]; rfl
    rw [hrows]
    exact StreamTables.storeAll_count hall hnodup

/-- The rows that the statement adds are the first records of those hashes that were not there. -/
theorem storeStreams_firsts (h : d.storeStreams rs = (.ok n, d')) : d'.rows = d.rows ++
    (firstOfEachAfter (·.infoHash) (Stream.hashes d.rows) rs).map Stream.stored := by
  obtain ⟨-, hrun⟩ := storeStreams_run h
  rcases hrun with ⟨⟨hs, -⟩, hnone⟩ | ⟨m, streams, tables, -, hs, hall, hs', -⟩
  · obtain ⟨-, rfl⟩ := hnone n rfl
    rw [rows, hs]
    exact (List.append_nil _).symm
  · have hrows : d.rows = streams := by rw [rows, hs]; rfl
    have hrows' : d'.rows = tables.streams := by rw [rows, hs']; rfl
    rw [hrows, hrows']
    exact StreamTables.storeAll_rows hall

/-- The statements that store records have been planned, and streams with the hashes of some records
are there, so these records add nothing. -/
structure Holds (d : Database) (rs : List StreamRecord) : Prop where
  streamsPlanned : d.streamsPlanned = true
  filesPlanned : d.filesPlanned = true
  hashes : ∃ rows, d.streams = some rows ∧ ∀ x ∈ Stream.hashes rs, x ∈ Stream.hashes rows

theorem planStreams_of_planned (hs : d.streamsPlanned = true) (hf : d.filesPlanned = true) :
    d.planStreams = (.ok (), d) := by
  obtain ⟨version, positions, blobs, media, streams, files, _, _⟩ := d
  subst hs hf
  rfl

theorem planned_of_planStreams {d₁ : Database} (h : d.planStreams = (.ok (), d₁)) :
    d₁.streamsPlanned = true ∧ d₁.filesPlanned = true := by
  unfold planStreams at h
  split at h
  · cases h
  · split at h <;> cases h
    exact ⟨rfl, rfl⟩

/-- Storing records plans the statements that store them. -/
theorem planned_of_storeStreams (h : d.storeStreams rs = (.ok n, d')) (hne : rs ≠ []) :
    d'.streamsPlanned = true ∧ d'.filesPlanned = true := by
  unfold storeStreams at h
  rw [if_neg (mt List.isEmpty_iff.mp hne)] at h
  split at h
  · cases h
  next hplan =>
    have hplanned := planned_of_planStreams hplan
    split at h <;> cases h
    exact hplanned

/-- Records that have been stored are there. -/
theorem holds_of_storeStreams (h : d.storeStreams rs = (.ok n, d')) (hne : rs ≠ []) :
    d'.Holds rs := by
  obtain ⟨hs, hf⟩ := planned_of_storeStreams h hne
  obtain ⟨-, ⟨-, hnone⟩ | ⟨m, streams, tables, -, -, hall, hs', -⟩⟩ := storeStreams_run h
  · exact absurd (hnone n rfl).2 hne
  · obtain ⟨-, -, -, -, hmem⟩ := StreamTables.storeAll_adds hall
    exact ⟨hs, hf, tables.streams, hs', fun x hx => (hmem x).mpr (.inr hx)⟩

theorem Holds.storeStreams (h : d.Holds rs) : d.storeStreams rs = (.ok 0, d) := by
  obtain ⟨rows, hrows, hmem⟩ := h.hashes
  unfold Database.storeStreams
  split
  · rfl
  · have hall : StreamTables.storeAll ⟨rows, d.files⟩ rs = .ok (0, ⟨rows, d.files⟩) :=
      StreamTables.storeAll_of_known hmem
    simp only [planStreams_of_planned h.streamsPlanned h.filesPlanned, streamRows, hrows, table,
      Except.bind, hall]
    rw [← hrows]

end Database

end Harvest
