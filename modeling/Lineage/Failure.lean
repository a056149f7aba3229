import Lineage.Json.Error
/-
  Everything that can go wrong, by its cause.

  Each cause carries what it is about; the wording is made in one place, `Failure.message`.
  `Failure.isCallers` tells the failures that the caller can mend (a wrong argument, an unknown
  table) from those that lie in the data, the engine or the surroundings.
-/

namespace Lineage

/-- Reasons to refuse an argument. -/
inductive Refusal where
  /-- A digest of nothing was asked for. -/
  | nothingToHash
  /-- The label column is not a column of the frame. -/
  | targetUnknown (column : String)
  | pathNotVersioned (path : String)
  | tableNotVersioned (table : String)
  /-- Not exactly one of a table name and a path. -/
  | oneOfTwoPlaces
  /-- Not exactly one of a path, a table name and a query. -/
  | oneOfThreeOrigins
  | versionOfQuery
  /-- A version of a path, or of a table, that has none. -/
  | versionOfPlainPath (version : UInt64) (path : String)
  | versionOfOtherTable (version : UInt64) (table : String)
  | versionOfPlainTable (version : UInt64) (table : String)
  /-- A version cannot be added to a table that is registered without versions. -/
  | commitToPlainTable (table : String)
  /-- Another reason, in its own words. -/
  | stated (reason : String)
deriving DecidableEq, Repr

/-- The wording of a refusal. -/
def Refusal.message : Refusal → String
  | nothingToHash => "no hashable elements were provided for md5 digest creation"
  | targetUnknown column =>
    s!"the dataset does not contain the specified targets column '{column}'"
  | pathNotVersioned path => s!"the path '{path}' does not refer to a versioned table"
  | tableNotVersioned table => s!"could not find a versioned table with name '{table}'"
  | oneOfTwoPlaces => "must specify exactly one of `table_name` or `path`"
  | oneOfThreeOrigins => "must specify exactly one of `path`, `table_name`, or `sql`"
  | versionOfQuery =>
    "`version` may not be specified when `sql` is specified; `version` may only be specified " ++
      "when `table_name` or `path` is specified"
  | versionOfPlainPath version path =>
    s!"version '{version}' was specified, but the path '{path}' does not refer to a versioned table"
  | versionOfOtherTable version table =>
    s!"version '{version}' was specified, but could not find a versioned table with name '{table}'"
  | versionOfPlainTable version table =>
    s!"version '{version}' was specified, but table '{table}' is not a versioned table"
  | commitToPlainTable table =>
    s!"table '{table}' is registered as a plain table and cannot be versioned"
  | stated reason => reason

/-- Ways in which an assumption of the program can turn out false. -/
inductive Breach where
  /-- The label column, checked before, is not in the rows that came back. -/
  | targetLost (column : String)
  | stated (reason : String)
deriving DecidableEq, Repr

/-- The wording of a breach. -/
def Breach.message : Breach → String
  | targetLost column =>
    "failed to convert dataset to pyfunc inputs and outputs because the materialized table does " ++
      s!"not contain the specified targets column '{column}'"
  | stated reason => reason

/-- The sorts of failure of the table engine. -/
inductive EngineFault where
  /-- A plan uses a column that is not there. -/
  | columnMissing
  /-- Values or files do not suit what is computed from them. -/
  | computation
  /-- A file could not be opened. -/
  | file
  /-- A file without any data. -/
  | noData
  /-- A name stands twice where it may stand once. -/
  | duplicate
  /-- Tables or columns do not have the shape that they should have. -/
  | shape
  /-- Columns do not have the types or names that they should have. -/
  | schema
  /-- Values of a type are used in a way that the type does not know. -/
  | operation
  /-- A query cannot be understood. -/
  | query
  /-- A part of a query has a form that is not allowed there. -/
  | querySyntax
deriving DecidableEq, Repr

/-- A failure of an operation. -/
inductive Failure where
  | invalidParameter (refusal : Refusal)
  | internal (breach : Breach)
  | tableNotFound (name : String)
  | versionNotFound (table : String) (version : UInt64)
  | unsupportedColumnType (column dtype : String)
  | unsupportedFormat (path : String)
  | engine (fault : EngineFault) (detail : String)
  | io (message : String)
  | json (error : Json.Error)

namespace Failure

/-- The wording of a failure. -/
def message : Failure → String
  | invalidParameter refusal => "invalid parameter: " ++ refusal.message
  | internal breach => "internal error: " ++ breach.message
  | tableNotFound name => s!"table '{name}' not found"
  | versionNotFound table version =>
    s!"version {version} not found for versioned table '{table}'"
  | unsupportedColumnType column dtype => s!"column '{column}' has unsupported type {dtype}"
  | unsupportedFormat path => s!"cannot determine file format for path '{path}'"
  | engine _ detail => "polars error: " ++ detail
  | io message => "io error: " ++ message
  | json error => "json error: " ++ error.message

/-- The caller can mend it. -/
def isCallers : Failure → Bool
  | invalidParameter _ | tableNotFound _ | versionNotFound _ _ | unsupportedFormat _ => true
  | internal _ | unsupportedColumnType _ _ | engine _ _ | io _ | json _ => false

end Failure
end Lineage
