/-!
# Events

What a crawl reports while it runs.

## Main definitions

* `SnapshotStatus` — what becomes of a snapshot, with `SnapshotStatus.name`
* `Event` — an event, with `Event.kind`, `Event.level` and `Event.message`
-/

namespace Harvest

/-- What becomes of a snapshot. -/
inductive SnapshotStatus where
  /-- The snapshot needs no further work. -/
  | alreadyProcessed
  /-- The snapshot cannot be fetched. -/
  | fetchFailed
  /-- The snapshot contains no list. -/
  | noFragment
  /-- The list cannot be unpacked, which may be different another time. -/
  | decodeFailed
  /-- The list is damaged. -/
  | malformed
  /-- The entries of the list have been stored. -/
  | stored
  deriving DecidableEq, Repr

namespace SnapshotStatus

/-- The name of a status. -/
def name : SnapshotStatus → String
  | alreadyProcessed => "already_processed"
  | fetchFailed => "fetch_failed"
  | noFragment => "no_fragment"
  | decodeFailed => "decode_failed"
  | malformed => "malformed"
  | stored => "stored"

/-- Whether a status tells of a fault. -/
def isFault : SnapshotStatus → Bool
  | fetchFailed | decodeFailed | malformed => true
  | _ => false

end SnapshotStatus

/-- How much attention an event asks for. -/
inductive EventLevel where
  | debug
  | info
  | warn
  deriving DecidableEq, Repr

/-- The name of a level. -/
def EventLevel.name : EventLevel → String
  | debug => "DEBUG"
  | info => "INFO"
  | warn => "WARN"

/-- An event. -/
inductive Event where
  /-- A commit has been processed in a pass. -/
  | commit (pass sha : String) (files streams : Nat)
  /-- A snapshot has been dealt with; there may be details. -/
  | snapshot (commit path : String) (blob : Option String) (status : SnapshotStatus)
      (detail : Option String)
  /-- Something has happened to the program as a whole. -/
  | system (what details : String)
  deriving DecidableEq, Repr

namespace Event

/-- The kind of an event. -/
def kind : Event → String
  | commit .. => "commit"
  | snapshot .. => "snapshot"
  | system .. => "system"

/-- The level of an event. -/
def level : Event → EventLevel
  | commit .. | system .. => .info
  | snapshot _ _ _ status _ => if status.isFault then .warn else .debug

/-- The wording of an event. -/
def message : Event → String
  | commit pass sha _ _ => "Processed " ++ pass ++ " commit " ++ sha
  | snapshot _ path _ status _ =>
    "Snapshot " ++ path ++ (if status.isFault then " skipped: " else ": ") ++ status.name
  | system what _ => "System event: " ++ what

end Event

end Harvest
