import Harvest.Proofs.Crawl.Within
import Mathlib.Algebra.Group.Nat.Defs
import Mathlib.Data.List.Nodup

/-!
# What is right about the tables of streams and files

A record is made of an entry that has passed all judgements, and whatever is stored of it can be
made again from its own name. The table of streams only gains rows, and with every row the table of
files gains the files of that row and no others.

## Main definitions

* `Snapshot.IsHash` — what hashes look like
* `Prospect.IsProper` — an entry that has passed all judgements
* `StreamRecord.rederived`, `StreamRecord.IsProper` — a row that can be made again from its name
* `FileTable.filesOf` — the files of a stream
* `StreamTables.Sound` — both tables belong together
* `Database.Knows`, `Database.IsSound` — the streams of a database, and the titles they point to
* `Database.Grows` — nothing that is stored changes or disappears

## Main results

* `Snapshot.isProper_of_mem_prospects` — the entries of a list have passed all judgements
* `StreamTables.Sound.storeAll` — records that are stored keep the tables sound
* `Database.IsSound.storeStreams` — and so does a database
* `Database.storeStreams_grows`, `Database.storeStreams_error` — what is stored stays as it is
-/

namespace Harvest

/-! ### Entries -/

namespace Snapshot

/-- The text is a hash as it is stored: forty hexadecimal digits, the letters in lower case. -/
def IsHash (s : String) : Prop :=
  s.toList.length = 40 ∧ ∀ ch ∈ s.toList, ch.isDigit ∨ 'a' ≤ ch ∧ ch ≤ 'f'

theorem toLower_of_isHexDigit {ch : Char} (h : isHexDigit ch = true) :
    ch.toLower.isDigit ∨ 'a' ≤ ch.toLower ∧ ch.toLower ≤ 'f' := by
  have hsmall : ch.toNat < 103 := by
    simp only [isHexDigit, Char.isDigit, Bool.or_eq_true, Bool.and_eq_true, decide_eq_true_eq,
      Char.le_def, UInt32.le_iff_toNat_le] at h
    rcases h with (⟨-, h⟩ | ⟨-, h⟩) | ⟨-, h⟩ <;> exact Nat.lt_of_le_of_lt h (by decide)
  have table : ∀ n < 103, isHexDigit (Char.ofNat n) = true →
      (Char.ofNat n).toLower.isDigit ∨
        'a' ≤ (Char.ofNat n).toLower ∧ (Char.ofNat n).toLower ≤ 'f' := by
    decide
  have hch : Char.ofNat ch.toNat = ch := Char.ofNat_toNat ch
  simpa only [hch] using table ch.toNat hsmall (by rwa [hch])

theorem isHash_of_hashOfValue {v : Json.Value} {h : String} (hv : hashOfValue? v = some h) :
    IsHash h := by
  unfold hashOfValue? at hv
  cases v with
  | string s =>
    simp only at hv
    split at hv
    next hs =>
      cases hv
      obtain ⟨hlength, hdigits⟩ := hs
      refine ⟨?_, fun ch hch => ?_⟩
      · simpa [Text.asciiLowerString] using hlength
      · obtain ⟨ch', hch', rfl⟩ : ∃ ch' ∈ s.toList, ch'.toLower = ch := by
          simpa [Text.asciiLowerString, Text.asciiLower] using hch
        exact toLower_of_isHexDigit (List.all_eq_true.mp hdigits ch' hch')
    next => cases hv
  | _ => cases hv

theorem isHash_of_entryOfRow {row : Json.Value} {e : Entry} (h : entryOfRow? row = some e) :
    IsHash e.infoHash := by
  simp only [entryOfRow?, Option.bind_eq_bind, Option.bind_eq_some_iff] at h
  obtain ⟨_, _, _, _, _, _, infoHash, hhash, h⟩ := h
  cases h
  exact isHash_of_hashOfValue hhash

theorem isHash_of_entriesOfJson {text : String} {entries : List Entry}
    (h : entriesOfJson text = .ok entries) : ∀ e ∈ entries, IsHash e.infoHash := by
  unfold entriesOfJson at h
  split at h
  · cases h
    exact fun e he => by cases he
  · cases hv : Json.Value.parse? text with
    | none => rw [hv] at h; cases h
    | some v =>
      simp only [hv] at h
      cases hrows : rowsOfValue v with
      | error m => rw [hrows] at h; cases h
      | ok rows =>
        rw [hrows] at h
        cases h
        intro e he
        obtain ⟨row, -, hrow⟩ := List.mem_filterMap.mp he
        exact isHash_of_entryOfRow hrow

/-- Every entry of a list has a hash. -/
theorem isHash_of_entriesOfPayload {payload : String} {entries : List Entry}
    (h : entriesOfPayload payload = .ok entries) : ∀ e ∈ entries, IsHash e.infoHash := by
  unfold entriesOfPayload at h
  cases htext : Packed.unpack payload with
  | error e => rw [htext] at h; cases h
  | ok text =>
    simp only [htext] at h
    cases hentries : entriesOfJson text with
    | error m => rw [hentries] at h; cases h
    | ok entries' =>
      rw [hentries] at h
      cases h
      exact isHash_of_entriesOfJson hentries

end Snapshot

/-- The entry has passed all judgements. -/
structure Prospect.IsProper (p : Prospect) : Prop where
  hash : Snapshot.IsHash p.entry.infoHash
  parsed : p.parsed = Release.parse p.entry.filename
  suitable : Release.isAdult p.entry.filename = false
  titled : p.parsed.title ≠ ""
  notSports : p.mediaType = .movie → Release.isSportsBroadcast p.entry.filename = false

/-- An entry that may be linked to a title has passed all judgements. -/
theorem EntryVerdict.passed_of_ofEntry {e : Entry} {p : Prospect}
    (h : (ofEntry e).prospect? = some p) :
    p = ⟨e, Release.parse e.filename⟩ ∧ Release.isAdult e.filename = false ∧
      p.parsed.title ≠ "" ∧
        (p.mediaType = .movie → Release.isSportsBroadcast e.filename = false) := by
  unfold ofEntry at h
  split at h
  · cases h
  next hadult =>
    simp only at h
    split at h
    · cases h
    next htitle =>
      split at h
      · cases h
      next hsports =>
        cases h
        refine ⟨rfl, by simpa using hadult, by simpa using htitle, fun hmovie => ?_⟩
        simpa [hmovie] using hsports

namespace Snapshot

variable {payload : String} {entries : List Entry} {p : Prospect}

theorem exists_of_mem_prospects (hp : p ∈ prospects entries) :
    ∃ e ∈ entries, (EntryVerdict.ofEntry e).prospect? = some p := by
  obtain ⟨v, hv, hp⟩ := List.mem_filterMap.mp hp
  obtain ⟨e, he, rfl⟩ := List.mem_map.mp hv
  exact ⟨e, (firstOfEach_sublist Entry.infoHash entries).subset he, hp⟩

/-- The entries of a list that may be linked to a title have passed all judgements. -/
theorem isProper_of_mem_prospects (h : entriesOfPayload payload = .ok entries)
    (hp : p ∈ prospects entries) : p.IsProper := by
  obtain ⟨e, he, hp⟩ := exists_of_mem_prospects hp
  obtain ⟨rfl, hadult, htitle, hsports⟩ := EntryVerdict.passed_of_ofEntry hp
  exact ⟨isHash_of_entriesOfPayload h e he, rfl, hadult, htitle, hsports⟩

end Snapshot

/-! ### Rows -/

/-- The record that the name of a row gives once more. -/
def StreamRecord.rederived (r : StreamRecord) : StreamRecord :=
  Stream.record ⟨r.name, r.infoHash, r.size⟩ (Release.parse r.name) r.metaId r.createdAt
    (Release.parse r.name).mediaType

/-- A row of the table of streams is as it ought to be. -/
structure StreamRecord.IsProper (r : StreamRecord) : Prop where
  hash : Snapshot.IsHash r.infoHash
  named : r.name ≠ ""
  suitable : Release.isAdult r.name = false
  titled : (Release.parse r.name).title ≠ ""
  notSports : (Release.parse r.name).mediaType = .movie → Release.isSportsBroadcast r.name = false
  size : r.size ≤ 2 ^ 63 - 1
  /-- Everything else can be made again from the name. -/
  derived : r = Stream.stored r.rederived

namespace Prospect.IsProper

variable {p : Prospect}

theorem rederived_stored (hp : p.IsProper) (createdAt : Moment) (metaId : String) :
    Stream.stored (Stream.stored (p.record createdAt metaId)).rederived =
      Stream.stored (p.record createdAt metaId) := by
  simp only [Stream.stored, StreamRecord.rederived, Stream.record, Prospect.record,
    ← hp.parsed, Nat.min_assoc, Nat.min_self]

theorem files_rederived (hp : p.IsProper) (createdAt : Moment) (metaId : String) :
    (Stream.stored (p.record createdAt metaId)).rederived.files =
      (p.record createdAt metaId).files := by
  simp only [Stream.stored, StreamRecord.rederived, Stream.record, Prospect.record, ← hp.parsed]
  rfl

/-- What is stored of an entry is as it ought to be. -/
theorem isProper_stored (hp : p.IsProper) (createdAt : Moment) (metaId : String) :
    (Stream.stored (p.record createdAt metaId)).IsProper where
  hash := hp.hash
  named := by
    intro hempty
    have hname : p.entry.filename = "" := hempty
    -- the empty name has no title
    refine hp.titled ?_
    rw [hp.parsed, hname]
    decide
  suitable := hp.suitable
  titled := hp.parsed ▸ hp.titled
  notSports := hp.parsed ▸ hp.notSports
  size := Nat.min_le_right ..
  derived := (hp.rederived_stored createdAt metaId).symm

end Prospect.IsProper

/-! ### Both tables -/

namespace FileTable

/-- The files that belong to a hash, in order. -/
def filesOf (t : FileTable) (infoHash : String) : List StreamFile :=
  (t.rows.filter (·.infoHash == infoHash)).map (·.file)

/-- The table with more files of one stream. -/
def insertAll (t : FileTable) (infoHash : String) (fs : List StreamFile) : FileTable :=
  fs.foldl (fun t f => t.insert infoHash f) t

/-- The rows stand in the order of their numbers, and none has a number that is still to come. -/
structure Ordered (t : FileTable) : Prop where
  ascending : t.rows.Pairwise (·.id < ·.id)
  bounded : ∀ row ∈ t.rows, row.id ≤ t.lastId

variable {t : FileTable} {h h' : String} {f : StreamFile} {fs : List StreamFile}

theorem Ordered.insert (ht : t.Ordered) : (t.insert h f).Ordered where
  ascending := by
    refine List.pairwise_append.mpr ⟨ht.ascending, List.pairwise_singleton _ _, ?_⟩
    intro row hrow new hnew
    rw [List.mem_singleton.mp hnew]
    exact Nat.lt_succ_of_le (ht.bounded row hrow)
  bounded row hrow := by
    rcases List.mem_append.mp hrow with hrow | hrow
    · exact Nat.le_succ_of_le (ht.bounded row hrow)
    · rw [List.mem_singleton.mp hrow]
      exact Nat.le_refl _

theorem Ordered.insertAll (ht : t.Ordered) : (t.insertAll h fs).Ordered := by
  induction fs generalizing t with
  | nil => exact ht
  | cons f fs ih => exact ih ht.insert

theorem filesOf_insertAll :
    (t.insertAll h fs).filesOf h' = t.filesOf h' ++ if h = h' then fs else [] := by
  induction fs generalizing t with
  | nil => simp [insertAll]
  | cons f fs ih =>
    have hone : (t.insert h f).filesOf h' = t.filesOf h' ++ if h = h' then [f] else [] := by
      by_cases heq : h = h' <;> simp [filesOf, FileTable.insert, List.filter_append, heq]
    rw [show t.insertAll h (f :: fs) = (t.insert h f).insertAll h fs from rfl, ih, hone]
    by_cases heq : h = h' <;> simp [heq]

/-- The rows that are there stay, and the new ones belong to the stream. -/
theorem rows_insertAll (t : FileTable) (h : String) (fs : List StreamFile) :
    ∃ more, (t.insertAll h fs).rows = t.rows ++ more ∧ ∀ row ∈ more, row.infoHash = h := by
  induction fs generalizing t with
  | nil => exact ⟨[], (List.append_nil _).symm, fun row hrow => by cases hrow⟩
  | cons f fs ih =>
    obtain ⟨more, hrows, hmore⟩ := ih (t.insert h f)
    refine ⟨⟨t.lastId + 1, h, f⟩ :: more, ?_, List.forall_mem_cons.mpr ⟨rfl, hmore⟩⟩
    exact hrows.trans (List.append_assoc _ _ _)

end FileTable

namespace StreamTables

/-- The rows of both tables are as they ought to be, and belong together. -/
structure Sound (streams : List StreamRecord) (files : FileTable) : Prop where
  /-- No hash comes twice. -/
  distinct : (streams.map (·.infoHash)).Nodup
  proper : ∀ r ∈ streams, r.IsProper
  /-- Every stream has the files that its name gives. -/
  complete : ∀ r ∈ streams, files.filesOf r.infoHash = r.rederived.files
  /-- Every file belongs to a stream. -/
  owned : ∀ row ∈ files.rows, ∃ r ∈ streams, r.infoHash = row.infoHash
  ordered : files.Ordered

variable {streams : List StreamRecord} {files : FileTable} {r : StreamRecord}
  {rs : List StreamRecord}

theorem isNew_iff : Stream.isNew streams r = true ↔ r.infoHash ∉ streams.map (·.infoHash) := by
  simp [Stream.isNew]

/-- A record that is new becomes the last row, and its files become the last files. -/
theorem store_of_isNew (hnew : Stream.isNew streams r = true) :
    store ⟨streams, some files⟩ r =
      .ok (1, ⟨streams ++ [Stream.stored r], some (files.insertAll r.infoHash r.files)⟩) := by
  unfold store
  rw [if_pos hnew]
  cases r.files <;> rfl

/-- A record whose hash is known is left out. -/
theorem store_of_known {t : StreamTables} (hknown : Stream.isNew t.streams r = false) :
    t.store r = .ok (0, t) := by
  unfold store
  rw [hknown, if_neg Bool.false_ne_true]

/-- Records that are stored are stored one after the other. -/
theorem storeAll_cons_ok {t t' : StreamTables} {n : Nat} (h : t.storeAll (r :: rs) = .ok (n, t')) :
    ∃ k m u, t.store r = .ok (k, u) ∧ u.storeAll rs = .ok (m, t') ∧ n = k + m := by
  rw [StreamTables.storeAll] at h
  cases hstore : t.store r with
  | error e => rw [hstore] at h; cases h
  | ok first =>
    obtain ⟨k, u⟩ := first
    cases hall : u.storeAll rs with
    | error e => simp only [hstore, hall, bind, Except.bind] at h; cases h
    | ok rest =>
      simp only [hstore, hall, bind, Except.bind] at h
      cases h
      exact ⟨k, rest.1, u, rfl, hall, rfl⟩

/-- As long as there is a table of files, records can be stored. -/
theorem exists_storeAll (streams : List StreamRecord) (files : FileTable)
    (rs : List StreamRecord) :
    ∃ n streams' files', storeAll ⟨streams, some files⟩ rs = .ok (n, ⟨streams', some files'⟩) := by
  induction rs generalizing streams files with
  | nil => exact ⟨0, streams, files, rfl⟩
  | cons r rs ih =>
    obtain ⟨n, streams₁, files₁, hstore⟩ :
        ∃ n streams' files', store ⟨streams, some files⟩ r = .ok (n, ⟨streams', some files'⟩) := by
      cases hnew : Stream.isNew streams r with
      | true => exact ⟨_, _, _, store_of_isNew hnew⟩
      | false => exact ⟨_, _, _, store_of_known hnew⟩
    obtain ⟨m, streams₂, files₂, hall⟩ := ih streams₁ files₁
    refine ⟨n + m, streams₂, files₂, ?_⟩
    simp only [storeAll, hstore, hall, bind, Except.bind, pure, Except.pure]

theorem Sound.empty {files : FileTable} (hfiles : files.rows = []) : Sound [] files where
  distinct := List.nodup_nil
  proper r hr := by cases hr
  complete r hr := by cases hr
  owned row hrow := by rw [hfiles] at hrow; cases hrow
  ordered := by constructor <;> simp [hfiles]

/-- A hash without a stream has no files. -/
theorem Sound.filesOf_eq_nil (h : Sound streams files) {infoHash : String}
    (hnew : infoHash ∉ streams.map (·.infoHash)) : files.filesOf infoHash = [] := by
  unfold FileTable.filesOf
  rw [List.map_eq_nil_iff, List.filter_eq_nil_iff]
  intro row hrow heq
  obtain ⟨r, hr, hhash⟩ := h.owned row hrow
  refine hnew (List.mem_map.mpr ⟨r, hr, ?_⟩)
  rw [hhash]
  simpa using heq

/-- A new row and its files keep the tables sound. -/
theorem Sound.append (h : Sound streams files) (hnew : Stream.isNew streams r = true)
    (hr : (Stream.stored r).IsProper) (hfiles : (Stream.stored r).rederived.files = r.files) :
    Sound (streams ++ [Stream.stored r]) (files.insertAll r.infoHash r.files) where
  distinct := by
    rw [List.map_append, List.map_singleton]
    refine List.nodup_append.mpr ⟨h.distinct, List.nodup_singleton _, fun a ha b hb => ?_⟩
    rw [List.mem_singleton.mp hb]
    rintro rfl
    exact isNew_iff.mp hnew ha
  proper r' hr' := by
    rcases List.mem_append.mp hr' with hr' | hr'
    · exact h.proper r' hr'
    · exact List.mem_singleton.mp hr' ▸ hr
  complete r' hr' := by
    rw [FileTable.filesOf_insertAll]
    rcases List.mem_append.mp hr' with hr' | hr'
    · -- the new files are those of another stream
      have hne : r.infoHash ≠ r'.infoHash := by
        intro heq
        exact isNew_iff.mp hnew (List.mem_map.mpr ⟨r', hr', heq.symm⟩)
      rw [if_neg hne, List.append_nil, h.complete r' hr']
    · obtain rfl := List.mem_singleton.mp hr'
      have hnone : files.filesOf (Stream.stored r).infoHash = [] :=
        h.filesOf_eq_nil (isNew_iff.mp hnew)
      rw [hnone, List.nil_append, hfiles]
      exact if_pos rfl
  owned row hrow := by
    obtain ⟨more, hrows, hmore⟩ := files.rows_insertAll r.infoHash r.files
    rw [hrows] at hrow
    rcases List.mem_append.mp hrow with hrow | hrow
    · obtain ⟨r', hr', hhash⟩ := h.owned row hrow
      exact ⟨r', List.mem_append_left _ hr', hhash⟩
    · exact ⟨Stream.stored r, by simp, (hmore row hrow).symm⟩
  ordered := h.ordered.insertAll

/-- Storing one record keeps the tables sound and all rows in place. -/
theorem Sound.store (h : Sound streams files) (hr : (Stream.stored r).IsProper)
    (hfiles : (Stream.stored r).rederived.files = r.files) :
    ∃ n streams' files', store ⟨streams, some files⟩ r = .ok (n, ⟨streams', some files'⟩) ∧
      Sound streams' files' ∧ streams <+: streams' ∧ files.rows <+: files'.rows ∧
        ∀ x ∈ streams', x ∈ streams ∨ x = Stream.stored r := by
  cases hnew : Stream.isNew streams r with
  | true =>
    obtain ⟨more, hrows, -⟩ := files.rows_insertAll r.infoHash r.files
    refine ⟨_, _, _, store_of_isNew hnew, h.append hnew hr hfiles, List.prefix_append _ _, ?_, ?_⟩
    · rw [hrows]
      exact List.prefix_append _ _
    · intro x hx
      simpa using hx
  | false =>
    exact ⟨_, _, _, store_of_known hnew, h, List.prefix_rfl, List.prefix_rfl, fun x hx => .inl hx⟩

/-- Storing records keeps the tables sound and all rows in place. -/
theorem Sound.storeAll (h : Sound streams files) (hrs : ∀ r ∈ rs, (Stream.stored r).IsProper ∧
      (Stream.stored r).rederived.files = r.files) :
    ∃ n streams' files', storeAll ⟨streams, some files⟩ rs = .ok (n, ⟨streams', some files'⟩) ∧
      Sound streams' files' ∧ streams <+: streams' ∧ files.rows <+: files'.rows ∧
        ∀ x ∈ streams', x ∈ streams ∨ ∃ r ∈ rs, x = Stream.stored r := by
  induction rs generalizing streams files with
  | nil =>
    exact ⟨0, streams, files, rfl, h, List.prefix_rfl, List.prefix_rfl, fun x hx => .inl hx⟩
  | cons r rs ih =>
    obtain ⟨⟨hr, hfiles⟩, hrs⟩ := List.forall_mem_cons.mp hrs
    obtain ⟨n, streams₁, files₁, hstore, h₁, hs₁, hf₁, hx₁⟩ := h.store hr hfiles
    obtain ⟨m, streams₂, files₂, hall, h₂, hs₂, hf₂, hx₂⟩ := ih h₁ hrs
    refine ⟨n + m, streams₂, files₂, ?_, h₂, hs₁.trans hs₂, hf₁.trans hf₂, fun x hx => ?_⟩
    · simp only [StreamTables.storeAll, hstore, hall, bind, Except.bind, pure, Except.pure]
    · rcases hx₂ x hx with hx | ⟨r', hr', rfl⟩
      · rcases hx₁ x hx with hx | rfl
        · exact .inl hx
        · exact .inr ⟨r, List.mem_cons_self, rfl⟩
      · exact .inr ⟨r', List.mem_cons_of_mem _ hr', rfl⟩

end StreamTables

/-! ### Databases -/

namespace Database

/-- The rows of a table stay where they are, and new ones come behind them. -/
def RowsKept {α : Type} (before after : Option (List α)) : Prop :=
  ∀ rows, before = some rows → ∃ rows', after = some rows' ∧ rows <+: rows'

/-- No stream, no file and no title that is stored changes or disappears. -/
structure Grows (d d' : Database) : Prop where
  streams : RowsKept d.streams d'.streams
  files : RowsKept (d.files.map FileTable.rows) (d'.files.map FileTable.rows)
  media : RowsKept (d.media.map MediaTable.rows) (d'.media.map MediaTable.rows)

/-- A title of the catalog is known under the external id. -/
def Knows (d : Database) (id : String) : Prop :=
  ∃ t, d.media = some t ∧ ∃ row ∈ t.rows, row.externalId = some id

/-- The tables of streams and of files are sound, and every stream belongs to a title. -/
def IsSound (d : Database) : Prop :=
  ∃ streams files, d.streams = some streams ∧ d.files = some files ∧
    StreamTables.Sound streams files ∧ ∀ r ∈ streams, d.Knows r.metaId

variable {d d' d'' : Database} {α : Type}

theorem RowsKept.refl (rows : Option (List α)) : RowsKept rows rows :=
  fun rs h => ⟨rs, h, List.prefix_rfl⟩

theorem RowsKept.trans {rows rows' rows'' : Option (List α)} (h : RowsKept rows rows')
    (h' : RowsKept rows' rows'') : RowsKept rows rows'' := by
  intro rs hrs
  obtain ⟨rs', hrs', hprefix⟩ := h rs hrs
  obtain ⟨rs'', hrs'', hprefix'⟩ := h' rs' hrs'
  exact ⟨rs'', hrs'', hprefix.trans hprefix'⟩

instance : IsPreorder Database Grows where
  refl _ := ⟨.refl _, .refl _, .refl _⟩
  trans _ _ _ h h' :=
    ⟨h.streams.trans h'.streams, h.files.trans h'.files, h.media.trans h'.media⟩

/-- A title that is known stays known. -/
theorem Grows.knows (h : d.Grows d') {id : String} (hid : d.Knows id) : d'.Knows id := by
  obtain ⟨t, ht, row, hrow, hrowid⟩ := hid
  obtain ⟨rows', hrows', hprefix⟩ := h.media t.rows (by rw [ht]; rfl)
  obtain ⟨t', ht', rfl⟩ := Option.map_eq_some_iff.mp hrows'
  exact ⟨t', ht', row, hprefix.mem hrow, hrowid⟩

/-- Whatever leaves the streams and the files alone keeps them sound while the catalog grows. -/
theorem IsSound.congr (h : d.IsSound) (hgrows : d.Grows d') (hstreams : d'.streams = d.streams)
    (hfiles : d'.files = d.files) : d'.IsSound := by
  obtain ⟨streams, files, hs, hf, hsound, hknows⟩ := h
  exact ⟨streams, files, hstreams.trans hs, hfiles.trans hf, hsound,
    fun r hr => hgrows.knows (hknows r hr)⟩

theorem externalIdOf_knows {n : Int} {id : String} (h : d.externalIdOf n = .ok (some id)) :
    d.Knows id := by
  unfold externalIdOf catalog at h
  cases ht : d.media with
  | none => rw [ht] at h; cases h
  | some t =>
    rw [ht] at h
    have hrow : t.externalIdOf n = some id := by injection h
    obtain ⟨row, hfound, hid⟩ := Option.bind_eq_some_iff.mp hrow
    exact ⟨t, ht, row, List.mem_of_find?_eq_some hfound, hid⟩

/-- Offering a title adds at most one row to the catalog. -/
theorem getOrCreateMedia_grows (d : Database) (n : NewTitle) (m : MediaType) :
    d.Grows (d.getOrCreateMedia n m).2 ∧
      (d.getOrCreateMedia n m).2.streams = d.streams ∧
        (d.getOrCreateMedia n m).2.files = d.files := by
  unfold getOrCreateMedia catalog
  cases ht : d.media with
  | none => exact ⟨refl_of Grows d, rfl, rfl⟩
  | some t =>
    refine ⟨⟨.refl _, .refl _, ?_⟩, rfl, rfl⟩
    intro rows hrows
    rw [ht] at hrows
    cases hrows
    exact ⟨_, rfl, t.rows_addUnlessKnown n m⟩

/-- Storing one record leaves all rows in place, whatever the tables contain. -/
theorem rowsKept_store {t t' : StreamTables} {r : StreamRecord} {n : Nat}
    (h : t.store r = .ok (n, t')) : t.streams <+: t'.streams ∧
      RowsKept (t.files.map FileTable.rows) (t'.files.map FileTable.rows) := by
  obtain ⟨streams, files⟩ := t
  unfold StreamTables.store at h
  split at h
  · cases hfs : r.files with
    | nil =>
      rw [hfs] at h
      cases h
      exact ⟨List.prefix_append _ _, .refl _⟩
    | cons f fs =>
      cases files with
      | none => rw [hfs] at h; cases h
      | some files =>
        rw [hfs] at h
        cases h
        obtain ⟨more, hrows, -⟩ := files.rows_insertAll r.infoHash (f :: fs)
        refine ⟨List.prefix_append _ _, ?_⟩
        rintro _ ⟨⟩
        exact ⟨_, rfl, more, hrows.symm⟩
  · cases h
    exact ⟨List.prefix_rfl, .refl _⟩

theorem rowsKept_storeAll {t t' : StreamTables} {rs : List StreamRecord} {n : Nat}
    (h : t.storeAll rs = .ok (n, t')) : t.streams <+: t'.streams ∧
      RowsKept (t.files.map FileTable.rows) (t'.files.map FileTable.rows) := by
  induction rs generalizing t n with
  | nil =>
    cases h
    exact ⟨List.prefix_rfl, .refl _⟩
  | cons r rs ih =>
    obtain ⟨k, m, u, hstore, hall, -⟩ := StreamTables.storeAll_cons_ok h
    obtain ⟨hstreams, hfiles⟩ := rowsKept_store hstore
    obtain ⟨hstreams', hfiles'⟩ := ih hall
    exact ⟨hstreams.trans hstreams', hfiles.trans hfiles'⟩

/-- Planning touches no row. -/
theorem planStreams_tables (d : Database) : d.planStreams.2.streams = d.streams ∧
    d.planStreams.2.files = d.files ∧ d.planStreams.2.media = d.media := by
  unfold planStreams
  split
  · exact ⟨rfl, rfl, rfl⟩
  · split <;> exact ⟨rfl, rfl, rfl⟩

/-- Storing records touches no row, because there are none or it fails, or ends with both tables as the
records leave them. -/
theorem storeStreams_run {rs : List StreamRecord} {r : Except StoreError Nat}
    (h : d.storeStreams rs = (r, d')) : d'.media = d.media ∧
      ((d'.streams = d.streams ∧ d'.files = d.files) ∧ (∀ n, r = .ok n → n = 0 ∧ rs = []) ∨
        ∃ n streams tables, r = .ok n ∧ d.streams = some streams ∧
        StreamTables.storeAll ⟨streams, d.files⟩ rs = .ok (n, tables) ∧
        d'.streams = some tables.streams ∧ d'.files = tables.files) := by
  obtain ⟨hs, hf, hm⟩ := d.planStreams_tables
  unfold storeStreams at h
  split at h
  next hnil =>
    cases h
    exact ⟨rfl, .inl ⟨⟨rfl, rfl⟩, fun n hn => ⟨(Except.ok.inj hn).symm, List.isEmpty_iff.mp hnil⟩⟩⟩
  cases hplan : d.planStreams with
  | mk planned d₁ =>
    rw [hplan] at hs hf hm h
    dsimp only at hs hf hm
    cases planned with
    | error e =>
      cases h
      exact ⟨hm, .inl ⟨⟨hs, hf⟩, fun n hn => by cases hn⟩⟩
    | ok _ =>
      simp only [streamRows, hs, hf] at h
      cases hstreams : d.streams with
      | none =>
        rw [hstreams] at h
        cases h
        exact ⟨hm, .inl ⟨⟨hs.trans hstreams, hf⟩, fun n hn => by cases hn⟩⟩
      | some streams =>
        simp only [hstreams, table, Except.bind] at h
        cases hall : StreamTables.storeAll ⟨streams, d.files⟩ rs with
        | error e =>
          rw [hall] at h
          cases h
          exact ⟨hm, .inl ⟨⟨hs.trans hstreams, hf⟩, fun n hn => by cases hn⟩⟩
        | ok stored =>
          rw [hall] at h
          cases h
          exact ⟨hm, .inr ⟨_, streams, _, rfl, rfl, hall, rfl, rfl⟩⟩

/-- If storing records fails, none of them is stored. -/
theorem storeStreams_error {rs : List StreamRecord} {e : StoreError}
    (h : d.storeStreams rs = (.error e, d')) : d'.streams = d.streams ∧ d'.files = d.files := by
  obtain ⟨-, ⟨hsame, -⟩ | ⟨n, -, -, hok, -⟩⟩ := storeStreams_run h
  · exact hsame
  · cases hok

/-- Storing records leaves all rows in place, whether or not it fails. -/
theorem storeStreams_grows (d : Database) (rs : List StreamRecord) :
    d.Grows (d.storeStreams rs).2 := by
  obtain ⟨hmedia, ⟨⟨hstreams, hfiles⟩, -⟩ | ⟨n, streams, tables, -, hs, hall, hs', hf'⟩⟩ :=
    storeStreams_run (show d.storeStreams rs = (_, _) from rfl)
  · exact ⟨hstreams ▸ .refl _, hfiles ▸ .refl _, hmedia ▸ .refl _⟩
  · obtain ⟨hstreams, hfiles⟩ := rowsKept_storeAll hall
    refine ⟨fun rows hrows => ?_, hf' ▸ hfiles, hmedia ▸ .refl _⟩
    cases hs.symm.trans hrows
    exact ⟨_, hs', hstreams⟩

/-- While the tables are there, storing streams can be planned. -/
theorem planStreams_of_tables {streams : List StreamRecord} {files : FileTable}
    (hs : d.streams = some streams) (hf : d.files = some files) :
    d.planStreams = (.ok (), { d with streamsPlanned := true, filesPlanned := true }) := by
  simp [planStreams, hs, hf]

/-- If both tables are there, any records can be stored, and both are there afterwards. -/
theorem storeStreams_of_tables {streams : List StreamRecord} {files : FileTable}
    (hs : d.streams = some streams) (hf : d.files = some files) (rs : List StreamRecord) :
    ∃ n d' streams' files', d.storeStreams rs = (.ok n, d') ∧ d'.streams = some streams' ∧
      d'.files = some files' := by
  obtain ⟨n, streams', files', hall⟩ := StreamTables.exists_storeAll streams files rs
  unfold storeStreams
  split
  · exact ⟨0, d, streams, files, rfl, hs, hf⟩
  · refine ⟨n, { d with
      streamsPlanned := true, filesPlanned := true, streams := some streams',
      files := some files' }, streams', files', ?_, rfl, rfl⟩
    simp only [planStreams_of_tables hs hf, streamRows, hs, hf, table, Except.bind, hall]

/-- Records of known titles are stored, keep the database sound and change no row. -/
theorem IsSound.storeStreams (h : d.IsSound) {rs : List StreamRecord}
    (hrs : ∀ r ∈ rs, (Stream.stored r).IsProper ∧
      (Stream.stored r).rederived.files = r.files ∧ d.Knows r.metaId) :
    (d.storeStreams rs).2.IsSound ∧ d.Grows (d.storeStreams rs).2 := by
  obtain ⟨streams, files, hs, hf, hsound, hknows⟩ := h
  obtain ⟨n, streams', files', hall, hsound', hprefix, hprefix', hnew⟩ :=
    hsound.storeAll fun r hr => ⟨(hrs r hr).1, (hrs r hr).2.1⟩
  unfold Database.storeStreams
  split
  · exact ⟨⟨streams, files, hs, hf, hsound, hknows⟩, refl_of Grows d⟩
  · simp only [planStreams_of_tables hs hf, streamRows, hs, hf, table, Except.bind, hall]
    refine ⟨⟨streams', files', rfl, rfl, hsound', fun r hr => ?_⟩, ?_, ?_, .refl _⟩
    · rcases hnew r hr with hr | ⟨r', hr', rfl⟩
      · exact hknows r hr
      · exact (hrs r' hr').2.2
    · intro rows hrows
      cases hs.symm.trans hrows
      exact ⟨streams', rfl, hprefix⟩
    · intro rows hrows
      rw [hf] at hrows
      cases hrows
      exact ⟨files'.rows, rfl, hprefix'⟩

end Database

end Harvest
