/-!
# Errors of the store

## Main definitions

* `StoreError` — why a statement of the store fails, with `StoreError.message`
* `SchemaError` — why a store cannot be brought up to date, with `SchemaError.message`
-/

namespace Harvest

/-- Why a statement of the store fails. -/
inductive StoreError where
  /-- A table is missing. -/
  | noSuchTable (table : String)
  /-- A value that has to be unique is there already. -/
  | notUnique (column : String)
  /-- A number does not fit the 32 bits with which the given column is read. -/
  | outOfRange (value : Int) (column : Nat)
  /-- A text is too long to be searched for. -/
  | patternTooLong
  /-- What is to be written is refused, in these words. -/
  | refused (why : String)
  deriving DecidableEq, Repr

namespace StoreError

/-- The wording of the failure itself. -/
def message : StoreError → String
  | noSuchTable table => "no such table: " ++ table
  | notUnique column => "UNIQUE constraint failed: " ++ column
  | outOfRange value column =>
    "Integer " ++ toString value ++ " out of range at index " ++ toString column
  | patternTooLong => "LIKE or GLOB pattern too complex"
  | refused why => why

/-- The wording of the failure as an error of the store. -/
def report (e : StoreError) : String := "Database error: " ++ e.message

end StoreError

/-- Why a store cannot be brought up to date. -/
inductive SchemaError where
  /-- A statement fails. -/
  | store (e : StoreError)
  /-- The store was written by a later version. -/
  | tooNew (found : Nat)
  deriving DecidableEq, Repr

/-- The version of the tables that this library uses. -/
def schemaVersion : Nat := 1

/-- The wording of an error. -/
def SchemaError.message : SchemaError → String
  | store e => e.report
  | tooNew found =>
    "Database schema version " ++ toString found ++ " is newer than supported version " ++
      toString schemaVersion

end Harvest
