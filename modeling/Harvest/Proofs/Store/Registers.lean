import Harvest.Store.Schema
import Mathlib.Data.Finset.Card
import Mathlib.Data.Finset.Dedup
import Mathlib.Data.List.AList
import Mathlib.Data.List.DropRight

/-!
# Two registers and a set

A database keeps two positions of a crawl and the snapshots that need no further work. The positions
are texts under two keys of one table, and a text may say that there is no commit any more, or stand
for no commit at all. Whatever is noted and forgotten in whatever order, what can be read afterwards
are two registers and a set: each register holds what was noted last since the positions were
forgotten, and the set holds what was added since it was emptied.

## Main definitions

* `Change.apply` — what is noted and forgotten, as a statement of the database
* `Change.inTexts` — a change of the table of texts under keys
* `Registers` — two registers and a set, with `Registers.apply`
* `Registers.after` — the registers and the set, told by what has been noted last
* `Database.Keeps` — what can be read are the registers and the set

## Main results

* `Registers.after_concat` — one more change
* `Database.Keeps.apply`, `Database.Keeps.applyAll` — a change, and any sequence of changes
* `Change.onPositions_ofTexts` — the positions are those under the two keys
* `Database.registers_kept` — all of it for every sequence of changes
-/

namespace Harvest

/-- The texts of the table of positions, each under its key. -/
abbrev KeyedTexts := AList fun _ : String => String

/-- Two registers and a set. -/
structure Registers where
  /-- The newest commit that has been caught up with. -/
  latest : Option String
  /-- The position of the way back. -/
  next : BackfillCursor
  /-- The snapshots that need no further work. -/
  blobs : Finset String

namespace Change

/-- A change as a statement of the database. -/
def apply : Change → Database → Except StoreError Database
  | saveLatest sha, d => d.saveLatest sha
  | saveNext next, d => d.saveNext next
  | clearPositions, d => d.clearPositions
  | insertBlob b, d => d.insertBlob b
  | clearBlobs, d => d.clearBlobs

/-- Changes one after the other. -/
def applyAll (cs : List Change) (d : Database) : Except StoreError Database :=
  cs.foldlM (fun d c => c.apply d) d

/-- What a change makes of the stored positions. -/
def onPositions (p : Positions) : Change → Positions
  | saveLatest sha => { p with latest := some sha }
  | saveNext next => { p with next := next.stored? }
  | clearPositions => {}
  | insertBlob _ | clearBlobs => p

/-- What a change makes of the stored snapshots. -/
def onBlobs (bs : List String) : Change → List String
  | insertBlob b => bs.insert b
  | clearBlobs => []
  | saveLatest _ | saveNext _ | clearPositions => bs

/-- Commits are named neither by the empty text nor, on the way back, by the mark for its end. -/
def IsProper : Change → Prop
  | saveLatest sha => sha ≠ ""
  | saveNext next => ∀ sha, next = .at sha → sha ≠ "" ∧ sha ≠ BackfillCursor.doneMark
  | clearPositions | insertBlob _ | clearBlobs => True

/-- The commit that is noted as the newest one. -/
def latest? : Change → Option String
  | saveLatest sha => some sha
  | _ => none

/-- The position that is noted. -/
def next? : Change → Option BackfillCursor
  | saveNext next => some next
  | _ => none

/-- The snapshot that is added. -/
def blob? : Change → Option String
  | insertBlob b => some b
  | _ => none

/-- What has been noted since the last change of a kind. -/
def notedSince {α : Type} (stop : Change) (note : Change → Option α) (cs : List Change) : List α :=
  (cs.rtakeWhile (· != stop)).filterMap note

/-- The key of the newest commit that has been caught up with. -/
def latestKey : String := "latest_incremental_sha"

/-- The key of the position of the way back. -/
def nextKey : String := "next_backfill_sha"

/-- A change of the table of positions, which has one text at most under a key. -/
def inTexts (t : KeyedTexts) : Change → KeyedTexts
  | saveLatest sha => t.insert latestKey sha
  | saveNext next =>
    match next.stored? with
    | some text => t.insert nextKey text
    | none => t.erase nextKey
  | clearPositions => (t.erase latestKey).erase nextKey
  | insertBlob _ | clearBlobs => t

end Change

/-- The positions under the two keys. -/
def Positions.ofTexts (t : KeyedTexts) : Positions :=
  ⟨t.lookup Change.latestKey, t.lookup Change.nextKey⟩

namespace Registers

/-- The checkpoint that the registers make. -/
def checkpoint (a : Registers) : Checkpoint := ⟨a.latest, a.next⟩

/-- A change of the registers or of the set. -/
def apply (a : Registers) : Change → Registers
  | .saveLatest sha => { a with latest := some sha }
  | .saveNext next => { a with next := next }
  | .clearPositions => { a with latest := none, next := .unset }
  | .insertBlob b => { a with blobs := insert b a.blobs }
  | .clearBlobs => { a with blobs := ∅ }

/-- The registers and the set after some changes: a register holds what was noted last since the
positions were forgotten, and the set what was added since it was emptied. What there was at the
beginning counts as long as it has not been forgotten. -/
def after (a : Registers) (cs : List Change) : Registers where
  latest := (Change.notedSince .clearPositions Change.latest? cs).getLast?.or
    (if .clearPositions ∈ cs then none else a.latest)
  next := (Change.notedSince .clearPositions Change.next? cs).getLast?.getD
    (if .clearPositions ∈ cs then .unset else a.next)
  blobs := (Change.notedSince .clearBlobs Change.blob? cs).toFinset ∪
    (if .clearBlobs ∈ cs then ∅ else a.blobs)

end Registers

/-- What can be read from a database are the registers and the set. -/
structure Database.Keeps (d : Database) (a : Registers) : Prop where
  load : d.load = .ok a.checkpoint
  hasBlob : ∀ b, d.hasBlob b = .ok (decide (b ∈ a.blobs))
  blobCount : d.blobCount = .ok a.blobs.card

/-! ### What has been noted last -/

namespace Change

variable {α : Type} {stop c : Change} {note : Change → Option α} {cs : List Change}

theorem notedSince_stop (stop : Change) (note : Change → Option α) (cs : List Change) :
    notedSince stop note (cs ++ [stop]) = [] := by
  rw [notedSince, List.rtakeWhile_concat_neg _ _ _ (by simp)]
  rfl

theorem notedSince_concat (hc : c ≠ stop) (note : Change → Option α) (cs : List Change) :
    notedSince stop note (cs ++ [c]) = notedSince stop note cs ++ (note c).toList := by
  rw [notedSince, List.rtakeWhile_concat_pos _ _ _ (by simpa using hc), List.filterMap_append,
    ← notedSince]
  cases hnote : note c <;> simp [hnote]

end Change

namespace Registers

theorem after_nil (a : Registers) : a.after [] = a := by
  simp [after, Change.notedSince]

/-- One more change. -/
theorem after_concat (a : Registers) (cs : List Change) (c : Change) :
    a.after (cs ++ [c]) = (a.after cs).apply c := by
  cases c with
  | saveLatest sha =>
    simp [after, apply, Change.notedSince_concat, Change.latest?, Change.next?, Change.blob?]
  | saveNext next =>
    simp [after, apply, Change.notedSince_concat, Change.latest?, Change.next?, Change.blob?]
  | clearPositions =>
    simp [after, apply, Change.notedSince_concat, Change.notedSince_stop, Change.blob?]
  | insertBlob b =>
    simp [after, apply, Change.notedSince_concat, Change.latest?, Change.next?, Change.blob?]
  | clearBlobs =>
    simp [after, apply, Change.notedSince_concat, Change.notedSince_stop, Change.latest?,
      Change.next?]

end Registers

/-! ### What can be read -/

namespace Database

variable {d d' : Database} {a : Registers} {p : Positions} {bs : List String} {c : Change}
  {cs : List Change} {t : KeyedTexts}

/-- What can be read is told by the tables. -/
theorem keeps_iff : d.Keeps a ↔ (∃ p, d.positions = some p ∧ p.checkpoint = a.checkpoint) ∧
    ∃ bs, d.blobs = some bs ∧ (∀ b, b ∈ bs ↔ b ∈ a.blobs) ∧ bs.length = a.blobs.card := by
  constructor
  · rintro ⟨hload, hmem, hcount⟩
    unfold load at hload
    unfold blobCount at hcount
    cases hp : d.positions with
    | none => rw [hp] at hload; cases hload
    | some p =>
      cases hbs : d.blobs with
      | none => rw [hbs] at hcount; cases hcount
      | some bs =>
        rw [hp] at hload
        rw [hbs] at hcount
        refine ⟨⟨p, rfl, Except.ok.inj hload⟩, bs, rfl, ?_, Except.ok.inj hcount⟩
        intro b
        have hb := hmem b
        rw [hasBlob, hbs] at hb
        simpa [table, Except.map] using hb
  · rintro ⟨⟨p, hp, hcheckpoint⟩, bs, hbs, hmem, hlength⟩
    refine ⟨?_, fun b => ?_, ?_⟩
    · rw [load, hp]
      exact congrArg Except.ok hcheckpoint
    · rw [hasBlob, hbs]
      simp [table, Except.map, hmem]
    · rw [blobCount, hbs]
      exact congrArg Except.ok hlength

/-- The tables of a database hold two registers and a set. -/
theorem keeps_of_tables (hp : d.positions = some p) (hbs : d.blobs = some bs) (hnodup : bs.Nodup) :
    d.Keeps ⟨p.checkpoint.latest, p.checkpoint.next, bs.toFinset⟩ := by
  apply keeps_iff.mpr
  refine ⟨⟨p, hp, rfl⟩, bs, hbs, fun b => List.mem_toFinset.symm, ?_⟩
  exact (List.toFinset_card_of_nodup hnodup).symm

end Database

/-! ### Changes of the tables -/

namespace Change

variable {d : Database} {p : Positions} {bs : List String} {t : KeyedTexts}

/-- A change is one of the positions and of the snapshots, and of nothing else. -/
theorem apply_eq (hopen : d.RefusesNothing) (hp : d.positions = some p) (hbs : d.blobs = some bs)
    (c : Change) : c.apply d =
      .ok { d with positions := some (c.onPositions p), blobs := some (c.onBlobs bs) } := by
  obtain ⟨version, positions, blobs, media, streams, files, streamsPlanned, filesPlanned,
    refusal⟩ := d
  obtain rfl : positions = some p := hp
  obtain rfl : blobs = some bs := hbs
  cases c with
  | saveLatest sha | saveNext next | clearPositions =>
    exact Database.updatePositions_eq_ok_iff.mpr ⟨p, rfl, hopen _, rfl⟩
  | insertBlob b => exact Database.insertBlob_eq_ok_iff.mpr ⟨bs, rfl, hopen _, rfl⟩
  | clearBlobs => exact Database.clearBlobs_eq_ok_iff.mpr ⟨bs, rfl, hopen _, rfl⟩

/-- So are changes one after the other. -/
theorem applyAll_eq (hopen : d.RefusesNothing) (hp : d.positions = some p)
    (hbs : d.blobs = some bs) (cs : List Change) : applyAll cs d = .ok { d with
      positions := some (cs.foldl onPositions p), blobs := some (cs.foldl onBlobs bs) } := by
  induction cs generalizing d p bs with
  | nil => rw [List.foldl_nil, List.foldl_nil, ← hp, ← hbs]; rfl
  | cons c cs ih =>
    rw [applyAll, List.foldlM_cons, apply_eq hopen hp hbs c]
    exact ih hopen rfl rfl

theorem applyAll_concat (cs : List Change) (c : Change) (d : Database) :
    applyAll (cs ++ [c]) d = (applyAll cs d).bind c.apply := by
  rw [applyAll, List.foldlM_append, ← applyAll]
  cases applyAll cs d with
  | error e => rfl
  | ok d' => exact bind_pure (c.apply d')

/-- The positions are those under the two keys of the table of texts, and remain so. -/
theorem onPositions_ofTexts (t : KeyedTexts) (c : Change) :
    c.onPositions (.ofTexts t) = .ofTexts (c.inTexts t) := by
  have hkeys : latestKey ≠ nextKey := by decide
  cases c with
  | saveLatest sha =>
    simp [onPositions, inTexts, Positions.ofTexts, AList.lookup_insert_ne hkeys.symm]
  | saveNext next =>
    cases hstored : next.stored? with
    | none => simp [onPositions, inTexts, Positions.ofTexts, hstored, AList.lookup_erase_ne hkeys]
    | some text =>
      simp [onPositions, inTexts, Positions.ofTexts, hstored, AList.lookup_insert_ne hkeys]
  | clearPositions =>
    simp [onPositions, inTexts, Positions.ofTexts, AList.lookup_erase_ne hkeys]
  | insertBlob b | clearBlobs => rfl

/-- So do they after any sequence of changes. -/
theorem foldl_onPositions_ofTexts (t : KeyedTexts) (cs : List Change) :
    cs.foldl onPositions (.ofTexts t) = .ofTexts (cs.foldl inTexts t) := by
  induction cs generalizing t with
  | nil => rfl
  | cons c cs ih => rw [List.foldl_cons, onPositions_ofTexts, ih, List.foldl_cons]

end Change

namespace Database

variable {d d' : Database} {a : Registers} {p : Positions} {bs : List String} {c : Change}
  {cs : List Change} {t : KeyedTexts}

/-- A change that is not refused succeeds, and what can be read afterwards are the changed registers
and the changed set. -/
theorem Keeps.apply (hopen : d.RefusesNothing) (h : d.Keeps a) (hc : c.IsProper) :
    ∃ d', c.apply d = .ok d' ∧ d'.RefusesNothing ∧ d'.Keeps (a.apply c) := by
  obtain ⟨⟨p, hp, hcheckpoint⟩, bs, hbs, hmem, hlength⟩ := keeps_iff.mp h
  have hlatest : p.latest.filter (!·.isEmpty) = a.latest := congrArg Checkpoint.latest hcheckpoint
  have hnext : BackfillCursor.ofStored p.next = a.next := congrArg Checkpoint.next hcheckpoint
  refine ⟨_, c.apply_eq hopen hp hbs, hopen, keeps_iff.mpr ⟨⟨_, rfl, ?_⟩, _, rfl, ?_⟩⟩
  · -- a register is read back if its text is a proper name
    cases c with
    | saveLatest sha =>
      have hsha : sha.isEmpty = false := by simpa [Change.IsProper] using hc
      simp [Change.onPositions, Positions.checkpoint, Registers.checkpoint, Registers.apply, hnext,
        hsha]
    | saveNext next =>
      have hback : BackfillCursor.ofStored next.stored? = next := BackfillCursor.ofStored_stored hc
      simp [Change.onPositions, Positions.checkpoint, Registers.checkpoint, Registers.apply,
        hlatest, hback]
    | clearPositions => rfl
    | insertBlob b | clearBlobs => exact hcheckpoint
  · cases c with
    | insertBlob b =>
      rw [Change.onBlobs, Registers.apply]
      constructor
      · intro b'
        rw [List.mem_insert_iff, Finset.mem_insert, hmem]
      · -- what is there already is not counted another time
        by_cases hb : b ∈ bs
        · rw [List.length_insert_of_mem hb, Finset.insert_eq_of_mem ((hmem b).mp hb), hlength]
        · rw [List.length_insert_of_not_mem hb,
            Finset.card_insert_of_notMem (mt (hmem b).mpr hb), hlength]
    | clearBlobs => exact ⟨by simp [Change.onBlobs, Registers.apply], rfl⟩
    | saveLatest sha | saveNext next | clearPositions => exact ⟨hmem, hlength⟩

/-- So does any sequence of changes, and what can be read afterwards are the registers that hold what
was noted last and the set of what was added. -/
theorem Keeps.applyAll (hopen : d.RefusesNothing) (h : d.Keeps a) (hcs : ∀ c ∈ cs, c.IsProper) :
    ∃ d', Change.applyAll cs d = .ok d' ∧ d'.RefusesNothing ∧ d'.Keeps (a.after cs) := by
  induction cs using List.reverseRecOn with
  | nil =>
    refine ⟨d, rfl, hopen, ?_⟩
    rwa [Registers.after_nil]
  | append_singleton cs c ih =>
    rw [List.forall_mem_append, List.forall_mem_singleton] at hcs
    obtain ⟨hcs, hc⟩ := hcs
    obtain ⟨d₁, hrun, hopen₁, h₁⟩ := ih hcs
    obtain ⟨d₂, hlast, hopen₂, h₂⟩ := h₁.apply hopen₁ hc
    refine ⟨d₂, ?_, hopen₂, ?_⟩
    · rw [Change.applyAll_concat, hrun]
      exact hlast
    · rwa [Registers.after_concat]

/-- Opening a database another time keeps its tables. -/
theorem tables_of_reopen (h : d.reopen = .ok d') (hp : d.positions = some p)
    (hbs : d.blobs = some bs) : d'.positions = some p ∧ d'.blobs = some bs := by
  rw [reopen, migrate] at h
  cases hv : storedVersion { d with version := some d.version.join } with
  | error e => simp [hv, Except.mapError, Except.map, bind, Except.bind] at h
  | ok v =>
    simp only [hv, Except.mapError, Except.map, bind, Except.bind, throw, throwThe,
      MonadExceptOf.throw, pure, Except.pure] at h
    split_ifs at h with hnew hold
    · -- tables that are there are not created
      obtain rfl := Except.ok.inj h
      change some (d.positions.getD {}) = some p ∧ some (d.blobs.getD []) = some bs
      rw [hp, hbs]
      exact ⟨rfl, rfl⟩
    · obtain rfl := Except.ok.inj h
      exact ⟨hp, hbs⟩

/-- A database that has been opened once can be opened another time. -/
theorem reopen_of_version (h : d.version = some (some (schemaVersion : Int))) :
    ∃ d', d.reopen = .ok d' := by
  rw [reopen, migrate_of_version h]
  exact ⟨_, rfl⟩

/-- **Two registers and a set.** Any sequence of changes of a database with its tables, which refuse
nothing, succeeds. Then each register holds what was noted last since the positions were forgotten,
and the set what was added since it was emptied, both before and after the database has been opened
another time. The rest of the database is as it was, and the positions are the texts under their
keys. -/
theorem registers_kept (hopen : d.RefusesNothing) (hp : d.positions = some p)
    (hbs : d.blobs = some bs) (hnodup : bs.Nodup) (hcs : ∀ c ∈ cs, c.IsProper) :
    let a : Registers := ⟨p.checkpoint.latest, p.checkpoint.next, bs.toFinset⟩
    ∃ d', Change.applyAll cs d = .ok d' ∧ d'.Keeps (a.after cs) ∧
      { d' with positions := d.positions, blobs := d.blobs } = d ∧
      (∀ t, p = .ofTexts t → d'.positions = some (.ofTexts (cs.foldl Change.inTexts t))) ∧
      (d.version = some (some (schemaVersion : Int)) → ∃ d'', d'.reopen = .ok d'') ∧
      ∀ d'', d'.reopen = .ok d'' → d''.Keeps (a.after cs) ∧
        d''.load.map Checkpoint.state = .ok (a.after cs).checkpoint.state := by
  intro a
  have hrun := Change.applyAll_eq hopen hp hbs cs
  obtain ⟨d', hrun', -, hkeeps⟩ := (keeps_of_tables hp hbs hnodup).applyAll hopen hcs
  obtain rfl := Except.ok.inj (hrun.symm.trans hrun')
  refine ⟨_, hrun, hkeeps, ?_, ?_, ?_, ?_⟩
  · rfl
  · rintro t rfl
    exact congrArg some (Change.foldl_onPositions_ofTexts t cs)
  · intro hversion
    exact reopen_of_version hversion
  · intro d'' hreopen
    have hkeeps' : d''.Keeps (a.after cs) := by
      obtain ⟨hp', hbs'⟩ := tables_of_reopen hreopen rfl rfl
      rw [keeps_iff] at hkeeps ⊢
      rwa [hp', hbs']
    refine ⟨hkeeps', ?_⟩
    rw [hkeeps'.load]
    rfl

/-- Two commits are noted and forgotten before others are, and one of two snapshots is forgotten. -/
theorem registers_kept_forgotten :
    ∃ d', Change.applyAll [.saveLatest "a", .saveNext (.at "b"), .insertBlob "x", .clearPositions,
        .saveLatest "c", .clearBlobs, .insertBlob "y", .insertBlob "y", .saveNext .done] fresh =
          .ok d' ∧
      d'.Keeps ⟨some "c", .done, {"y"}⟩ ∧
      ∃ d'', d'.reopen = .ok d'' ∧ d''.load.map Checkpoint.state = .ok .backfillDone := by
  have hproper : ∀ c ∈ ([.saveLatest "a", .saveNext (.at "b"), .insertBlob "x", .clearPositions,
      .saveLatest "c", .clearBlobs, .insertBlob "y", .insertBlob "y", .saveNext .done] :
        List Change), c.IsProper := by
    simp [Change.IsProper, BackfillCursor.doneMark]
  obtain ⟨d', hrun, hkeeps, -, -, hopens, hreopen⟩ :=
    registers_kept (d := fresh) (fun _ => rfl) rfl rfl List.nodup_nil hproper
  obtain ⟨d'', hd''⟩ := hopens rfl
  exact ⟨d', hrun, hkeeps, d'', hd'', (hreopen d'' hd'').2⟩

end Database

end Harvest
