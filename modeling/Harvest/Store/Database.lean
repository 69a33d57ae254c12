import Harvest.Store.Cursor
import Harvest.Store.Media
import Harvest.Store.Streams

/-!
# The database of a crawl

The database holds where the crawl stands, which snapshots need no further work, the catalog of
titles, and the streams with their files. Each of these is a table, and a table may be missing: then
every statement that needs it fails and changes nothing. What is noted about the crawl may also be
refused although its table can be read, be it for a rule on the contents of the table, for a column
that it has not got, or because nothing can be written at all; then the statement that writes fails.

## Main definitions

* `Change` — what is noted about a crawl and forgotten, with `Change.table`
* `Database` — the tables
* `Database.writable` — a table, unless it refuses a change
* `Database.RefusesNothing` — a table takes every change
* `Database.load`, `Database.saveLatest`, `Database.saveNext`, `Database.clearPositions` — where the
  crawl stands
* `Database.hasBlob`, `Database.insertBlob`, `Database.blobCount`, `Database.clearBlobs` — the
  snapshots that need no further work
* `Database.searchMedia`, `Database.getOrCreateMedia`, `Database.externalIdOf` — the catalog
* `Database.storeStreams` — the streams that are new among some records
-/

namespace Harvest

/-- The stored texts for where a crawl stands. -/
structure Positions where
  /-- The newest commit that has been caught up with. -/
  latest : Option String := none
  /-- The position of the way back. -/
  next : Option String := none
  deriving DecidableEq, Repr

/-- The checkpoint that the stored texts stand for. The empty text stands for no commit. -/
def Positions.checkpoint (p : Positions) : Checkpoint :=
  ⟨p.latest.filter (!·.isEmpty), .ofStored p.next⟩

/-- What can be noted about a crawl and forgotten. -/
inductive Change where
  /-- The newest commit that has been caught up with is noted. -/
  | saveLatest (sha : String)
  /-- The position of the way back is noted. -/
  | saveNext (next : BackfillCursor)
  /-- Both positions are forgotten. -/
  | clearPositions
  /-- A snapshot needs no further work. -/
  | insertBlob (blob : String)
  /-- The snapshots that need no further work are forgotten. -/
  | clearBlobs
  deriving DecidableEq, Repr

/-- The name of the table to which a change is made. -/
def Change.table : Change → String
  | saveLatest _ | saveNext _ | clearPositions => "checkpoints"
  | insertBlob _ | clearBlobs => "processed_blobs"

/-- The tables of a database, each of which may be missing. The statements that store streams and
files are planned when they are first needed. Planning fails if the table is missing, whereas a
statement that has been planned fails only when it is executed. -/
structure Database where
  /-- The version of the tables, as far as it is stored. -/
  version : Option (Option Int) := none
  /-- Where the crawl stands. -/
  positions : Option Positions := none
  /-- The snapshots that need no further work. -/
  blobs : Option (List String) := none
  /-- The catalog of titles. -/
  media : Option MediaTable := none
  /-- The streams in the order in which they were stored. -/
  streams : Option (List StreamRecord) := none
  /-- The files of the streams. -/
  files : Option FileTable := none
  /-- Whether the statement that stores a stream has been planned. -/
  streamsPlanned : Bool := false
  /-- Whether the statement that stores a file has been planned. -/
  filesPlanned : Bool := false
  /-- The words in which a change is refused, if it is. -/
  refusal : Change → Option String := fun _ => none

namespace Database

/-- The contents of a table that may be missing. -/
def table {τ : Type} (name : String) : Option τ → Except StoreError τ
  | some t => .ok t
  | none => .error (.noSuchTable name)

/-- No change is refused. -/
def RefusesNothing (d : Database) : Prop := ∀ c, d.refusal c = none

/-- The contents of the table to which a change is made, unless the change is refused. -/
def writable {τ : Type} (d : Database) (c : Change) (t : Option τ) : Except StoreError τ :=
  (table c.table t).bind fun contents =>
    match d.refusal c with
    | none => .ok contents
    | some why => .error (.refused why)

section Writable

variable {τ : Type} {d d' : Database} {c : Change} {t : Option τ} {f : τ → Database}

/-- A change is made if there is a table and the change is not refused. -/
theorem map_writable_eq_ok_iff : (d.writable c t).map f = .ok d' ↔
    ∃ a, t = some a ∧ d.refusal c = none ∧ f a = d' := by
  cases t with
  | none => simp [writable, table, Except.bind, Except.map]
  | some a => cases h : d.refusal c <;> simp [writable, table, Except.bind, Except.map, h]

/-- A change fails if there is no table, or if it is refused. -/
theorem map_writable_eq_error_iff {e : StoreError} : (d.writable c t).map f = .error e ↔
    t = none ∧ e = .noSuchTable c.table ∨
      t.isSome = true ∧ ∃ why, d.refusal c = some why ∧ e = .refused why := by
  cases t with
  | none => simp [writable, table, Except.bind, Except.map, eq_comm]
  | some a => cases h : d.refusal c <;> simp [writable, table, Except.bind, Except.map, h, eq_comm]

end Writable

/-! ### Where the crawl stands -/

/-- Where the crawl stands. -/
def load (d : Database) : Except StoreError Checkpoint :=
  (table "checkpoints" d.positions).map Positions.checkpoint

/-- Changes the stored texts for where the crawl stands. -/
def updatePositions (d : Database) (c : Change) (f : Positions → Positions) :
    Except StoreError Database :=
  (d.writable c d.positions).map fun p => { d with positions := some (f p) }

theorem updatePositions_eq_ok_iff {d d' : Database} {c : Change} {f : Positions → Positions} :
    d.updatePositions c f = .ok d' ↔ ∃ p, d.positions = some p ∧ d.refusal c = none ∧
      { d with positions := some (f p) } = d' :=
  map_writable_eq_ok_iff

/-- Stores the newest commit that has been caught up with. -/
def saveLatest (d : Database) (sha : String) : Except StoreError Database :=
  d.updatePositions (.saveLatest sha) fun p => { p with latest := some sha }

/-- Stores the position of the way back. -/
def saveNext (d : Database) (c : BackfillCursor) : Except StoreError Database :=
  d.updatePositions (.saveNext c) fun p => { p with next := c.stored? }

/-- Forgets where the crawl stands. -/
def clearPositions (d : Database) : Except StoreError Database :=
  d.updatePositions .clearPositions fun _ => {}

/-! ### Snapshots that need no further work -/

/-- Whether a snapshot needs no further work. -/
def hasBlob (d : Database) (blob : String) : Except StoreError Bool :=
  (table "processed_blobs" d.blobs).map (·.contains blob)

/-- Notes that a snapshot needs no further work. -/
def insertBlob (d : Database) (blob : String) : Except StoreError Database :=
  (d.writable (.insertBlob blob) d.blobs).map fun bs => { d with blobs := some (bs.insert blob) }

theorem insertBlob_eq_ok_iff {d d' : Database} {blob : String} :
    d.insertBlob blob = .ok d' ↔ ∃ bs, d.blobs = some bs ∧ d.refusal (.insertBlob blob) = none ∧
      { d with blobs := some (bs.insert blob) } = d' :=
  map_writable_eq_ok_iff

/-- How many snapshots need no further work. -/
def blobCount (d : Database) : Except StoreError Nat :=
  (table "processed_blobs" d.blobs).map List.length

/-- Forgets which snapshots need no further work. -/
def clearBlobs (d : Database) : Except StoreError Database :=
  (d.writable .clearBlobs d.blobs).map fun _ => { d with blobs := some [] }

theorem clearBlobs_eq_ok_iff {d d' : Database} : d.clearBlobs = .ok d' ↔
    ∃ bs, d.blobs = some bs ∧ d.refusal .clearBlobs = none ∧ { d with blobs := some [] } = d' :=
  map_writable_eq_ok_iff

/-! ### The catalog -/

/-- The catalog. -/
def catalog (d : Database) : Except StoreError MediaTable := table "media" d.media

/-- The titles of one kind that are most similar to a title. -/
def searchMedia (d : Database) (title : String) (m : MediaType) (limit : Nat) :
    Except StoreError (List CatalogTitle) :=
  d.catalog.bind fun t => t.search title m limit

/-- The external id of the title with a number. -/
def externalIdOf (d : Database) (id : Int) : Except StoreError (Option String) :=
  d.catalog.map fun t => t.externalIdOf id

/-- Adds a row to the catalog. -/
def insertMedia (d : Database) (r : MediaRow) : Except StoreError (Nat × Database) := do
  let (id, t) ← (← d.catalog).insert r
  return (id, { d with media := some t })

/-- Offers a title to the catalog, and reads the row that has its external id afterwards. -/
def getOrCreateMedia (d : Database) (n : NewTitle) (m : MediaType) :
    Except StoreError (Option CatalogTitle) × Database :=
  match d.catalog with
  | .error e => (.error e, d)
  | .ok t =>
    let (found, t) := t.getOrCreate n m
    (found, { d with media := some t })

/-! ### Streams -/

/-- The streams in the order in which they were stored. -/
def streamRows (d : Database) : Except StoreError (List StreamRecord) := table "streams" d.streams

/-- The files in the order of their numbers. -/
def fileRows (d : Database) : Except StoreError (List FileRow) :=
  (table "stream_files" d.files).map FileTable.rows

/-- How many streams are stored. -/
def streamCount (d : Database) : Except StoreError Nat := d.streamRows.map List.length

/-- Plans the statements that store streams and files, in this order. -/
def planStreams (d : Database) : Except StoreError Unit × Database :=
  if !d.streamsPlanned && d.streams.isNone then (.error (.noSuchTable "streams"), d)
  else if !d.filesPlanned && d.files.isNone then
    (.error (.noSuchTable "stream_files"), { d with streamsPlanned := true })
  else (.ok (), { d with streamsPlanned := true, filesPlanned := true })

/-- Stores those of some records that are new, and tells how many there are. Either all of them are
stored or none. -/
def storeStreams (d : Database) (rs : List StreamRecord) : Except StoreError Nat × Database :=
  if rs.isEmpty then (.ok 0, d)
  else
    match d.planStreams with
    | (.error e, d) => (.error e, d)
    | (.ok (), d) =>
      match d.streamRows.bind fun streams => StreamTables.storeAll ⟨streams, d.files⟩ rs with
      | .error e => (.error e, d)
      | .ok (n, t) => (.ok n, { d with streams := some t.streams, files := t.files })

end Database

end Harvest
