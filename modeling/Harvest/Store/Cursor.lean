/-!
# Where a crawl stands

A crawl keeps two commits: the newest one that has been caught up with, and the next one on the way
back to the first commit. What state the crawl is in follows from the two.

## Main definitions

* `BackfillCursor` — the position of the way back, with `BackfillCursor.ofStored` and
  `BackfillCursor.stored?`
* `Checkpoint` — both positions, with `Checkpoint.state`
* `CrawlState` — the states of a crawl, with `CrawlState.name`

## Main results

* `BackfillCursor.ofStored_stored` — a position is read back, if its commit has a proper name
-/

namespace Harvest

/-- The position of the way back to the first commit. -/
inductive BackfillCursor where
  /-- The way back has not begun. -/
  | unset
  /-- The commit that comes next. -/
  | at (sha : String)
  /-- The first commit has been reached. -/
  | done
  deriving DecidableEq, Repr

namespace BackfillCursor

/-- The stored text that says that the first commit has been reached. -/
def doneMark : String := "__done__"

/-- The position that a stored text stands for. -/
def ofStored : Option String → BackfillCursor
  | none => unset
  | some s => if s.isEmpty then unset else if s = doneMark then done else .at s

/-- The text that is stored for a position, if any. -/
def stored? : BackfillCursor → Option String
  | unset => none
  | .at sha => some sha
  | done => some doneMark

/-- A position is read back if its commit is named neither by the empty text nor by the mark. -/
theorem ofStored_stored {c : BackfillCursor} (h : ∀ sha, c = .at sha → sha ≠ "" ∧ sha ≠ doneMark) :
    ofStored c.stored? = c := by
  cases c with
  | unset => rfl
  | done => decide
  | «at» sha =>
    obtain ⟨h₁, h₂⟩ := h sha rfl
    simp [ofStored, stored?, h₁, h₂]

end BackfillCursor

/-- The states of a crawl. -/
inductive CrawlState where
  /-- Nothing has been stored. -/
  | init
  /-- New commits have been caught up with, and the way back has not begun. -/
  | incrementalCatchingUp
  /-- The way back has begun. -/
  | backfillActive
  /-- The first commit has been reached. -/
  | backfillDone
  deriving DecidableEq, Repr

/-- The name of a state. -/
def CrawlState.name : CrawlState → String
  | init => "init"
  | incrementalCatchingUp => "incremental_catching_up"
  | backfillActive => "backfill_active"
  | backfillDone => "backfill_done"

/-- Both positions of a crawl. -/
structure Checkpoint where
  /-- The newest commit that has been caught up with. -/
  latest : Option String := none
  /-- The position of the way back. -/
  next : BackfillCursor := .unset
  deriving DecidableEq, Repr

/-- The state that follows from the positions. -/
def Checkpoint.state (c : Checkpoint) : CrawlState :=
  match c.latest, c.next with
  | _, .done => .backfillDone
  | _, .at _ => .backfillActive
  | some _, .unset => .incrementalCatchingUp
  | none, .unset => .init

end Harvest
