import Harvest.Number.Binary
import Harvest.Store.Database

/-!
# Creating the tables

## Main definitions

* `Database.migrate` — brings a database up to date
* `Database.fresh` — a new database
* `Database.reopen` — a database after it has been closed and opened
* `Database.tableNames` — the names of the tables and indices
* `Database.dropTable` — a database without one of its tables
-/

namespace Harvest

namespace Database

/-- The version of the tables, zero if none is stored. -/
def storedVersion (d : Database) : Except StoreError Nat :=
  match d.version.join with
  | none => .ok 0
  | some v => if 0 ≤ v ∧ v < Bits.count 32 then .ok v.toNat else .error (.outOfRange v 0)

/-- Stores the version of the tables. -/
def setVersion (d : Database) (v : Int) : Except StoreError Database :=
  (table "schema_version" d.version).map fun stored =>
    { d with version := some (stored.map fun _ => v) }

/-- Creates the tables that are missing. -/
def createTables (d : Database) : Database :=
  { d with
    positions := some (d.positions.getD {})
    blobs := some (d.blobs.getD [])
    media := some (d.media.getD {})
    streams := some (d.streams.getD [])
    files := some (d.files.getD {}) }

/-- Brings a database up to date. The tables of a later version are refused. -/
def migrate (d : Database) : Except SchemaError Database := do
  let d := { d with version := some d.version.join }
  let v ← d.storedVersion.mapError SchemaError.store
  if schemaVersion < v then throw (.tooNew v)
  else if v < schemaVersion then return { d.createTables with version := some (some schemaVersion) }
  else return d

/-- A new database. -/
def fresh : Database :=
  { createTables {} with version := some (some schemaVersion) }

/-- A database that is up to date stays as it is. -/
theorem migrate_of_version {d : Database} (h : d.version = some (some (schemaVersion : Int))) :
    d.migrate = .ok d := by
  cases d
  subst h
  rfl

/-- A database after it has been closed and opened. -/
def reopen (d : Database) : Except SchemaError Database :=
  d.migrate.map fun d => { d with streamsPlanned := false, filesPlanned := false }

/-- The names of the tables and indices. -/
def tableNames (d : Database) : List String :=
  [("checkpoints", d.positions.isSome), ("idx_media_title_lower", d.media.isSome),
    ("idx_media_type", d.media.isSome), ("idx_stream_files_hash", d.files.isSome),
    ("idx_streams_meta_id", d.streams.isSome), ("media", d.media.isSome),
    ("processed_blobs", d.blobs.isSome), ("schema_version", d.version.isSome),
    ("stream_files", d.files.isSome), ("streams", d.streams.isSome)].filterMap
      fun (name, there) => if there then some name else none

/-- What is refused once a table and the rules on it are gone. -/
def refusalWithout (d : Database) (name : String) (c : Change) : Option String :=
  if c.table = name then none else d.refusal c

/-- A database without one of its tables. Files do not outlive the table of streams. -/
def dropTable (d : Database) (name : String) : Except StoreError Database :=
  match name with
  | "checkpoints" =>
    (table name d.positions).map fun _ =>
      { d with positions := none, refusal := d.refusalWithout name }
  | "processed_blobs" =>
    (table name d.blobs).map fun _ => { d with blobs := none, refusal := d.refusalWithout name }
  | "media" => (table name d.media).map fun _ => { d with media := none }
  | "streams" =>
    (table name d.streams).map fun _ =>
      { d with streams := none, files := d.files.map fun t => { t with rows := [] } }
  | "stream_files" => (table name d.files).map fun _ => { d with files := none }
  | "schema_version" => (table name d.version).map fun _ => { d with version := none }
  | _ => .error (.noSuchTable name)

end Database

end Harvest
