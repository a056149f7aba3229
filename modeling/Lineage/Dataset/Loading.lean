import Lineage.Dataset.Basic
/-
  Datasets from requests: load a version of a table, or wrap a frame that is there already.

  Both first see to it that the request names one place, then ask the catalog whether that place
  has versions, and keep the version in the source of the dataset.  So loading the source again
  gives the same version.
-/

namespace Lineage

/-- A version of a table to load, by path or by name. -/
structure VersionedRequest where
  path : Option String
  tableName : Option String
  version : Option UInt64
  labels : Labels

/-- A frame to wrap, and the path, table or query it came from. -/
structure FrameRequest where
  path : Option String
  tableName : Option String
  sql : Option String
  version : Option UInt64
  labels : Labels

namespace VersionedLocation

variable {F : Type}

/-- Whether the catalog knows versions of the place. -/
def isVersioned : VersionedLocation → Dialogue F Bool
  | path p => Dialogue.isVersionedPath p
  | tableName n => Dialogue.isVersionedTable n

/-- The latest version of the place. -/
def latest : VersionedLocation → Dialogue F (Option UInt64)
  | path p => Dialogue.latestOfPath p
  | tableName n => Dialogue.latestOfTable n

/-- The place with the version asked for, or else with the latest one. -/
def pinned (l : VersionedLocation) : Option UInt64 → Dialogue F VersionedTable
  | some v => pure ⟨l, some v⟩
  | none => do return ⟨l, ← l.latest⟩

/-- The same place without versions. -/
def plain : VersionedLocation → TableRef
  | path p => .path p
  | tableName n => .tableName n

/-- The refusal of a place that has no versions. -/
def notVersioned : VersionedLocation → Refusal
  | path p => .pathNotVersioned p
  | tableName n => .tableNotVersioned n

/-- The refusal of a version of a place that has none. -/
def versionRefused (v : UInt64) : VersionedLocation → Refusal
  | path p => .versionOfPlainPath v p
  | tableName n => .versionOfOtherTable v n

end VersionedLocation

namespace Source

variable {F : Type}

/-- Loads the frame of a table with versions. -/
def loadVersioned (t : VersionedTable) : Dialogue F (Except Failure F) :=
  match t.location with
  | .path p => Dialogue.loadPath p t.version
  | .tableName n => Dialogue.loadTable n t.version

/-- Loads the frame of a source through the catalog. -/
def load : Source → Dialogue F (Except Failure F)
  | table (.path p) => Dialogue.loadPath p none
  | table (.tableName n) => Dialogue.loadTable n none
  | table (.sql q) => Dialogue.runQuery q
  | versioned t => loadVersioned t

end Source

namespace Dataset

variable {F : Type}

/-- The one place that a request for a version names. -/
def placeOf (r : VersionedRequest) : Except Refusal VersionedLocation :=
  match r.path, r.tableName with
  | some p, none => .ok (.path p)
  | none, some n => .ok (.tableName n)
  | _, _ => .error .oneOfTwoPlaces

/-- The name of a dataset over a version that is given none: the table and the number. -/
def versionedName (t : VersionedTable) : Option String :=
  match t.location, t.version with
  | .tableName n, some v => some (n ++ "v" ++ toString v)
  | .tableName n, none => some n
  | .path _, _ => none

/-- Loads a version of a table as a dataset. -/
def loadVersioned (r : VersionedRequest) (options : DatasetOptions) :
    Dialogue F (Except Failure (Dataset F)) :=
  match placeOf r with
  | .error refusal => pure (.error (.invalidParameter refusal))
  | .ok place => do
    if ← place.isVersioned then
      let table ← place.pinned r.version
      let labels := { r.labels with name := r.labels.name.or (versionedName table) }
      match ← Source.loadVersioned table with
      | .error f => return .error f
      | .ok frame => do
        Dialogue.note (.versionedLoaded table)
        make frame (.versioned table) labels options
    else return .error (.invalidParameter place.notVersioned)

/-- The origin that a request for wrapping a frame names: a query, or a place. -/
def originOf (r : FrameRequest) : Except Refusal (String ⊕ VersionedLocation) :=
  match r.path, r.tableName, r.sql with
  | some p, none, none => .ok (.inr (.path p))
  | none, some n, none => .ok (.inr (.tableName n))
  | none, none, some q => if r.version.isSome then .error .versionOfQuery else .ok (.inl q)
  | _, _, _ => .error .oneOfThreeOrigins

/-- The source of a frame from a place: with a version if the catalog knows versions of it. -/
def sourceOf (place : VersionedLocation) (version : Option UInt64) :
    Dialogue F (Except Refusal Source) := do
  if ← place.isVersioned then return .ok (.versioned (← place.pinned version))
  else
    match version with
    | some v => return .error (place.versionRefused v)
    | none => return .ok (.table place.plain)

/-- Wraps a frame as a dataset. -/
def fromFrame (frame : F) (r : FrameRequest) (options : DatasetOptions) :
    Dialogue F (Except Failure (Dataset F)) :=
  match originOf r with
  | .error refusal => pure (.error (.invalidParameter refusal))
  | .ok (.inl q) => make frame (.table (.sql q)) r.labels options
  | .ok (.inr place) => do
    match ← sourceOf place r.version with
    | .error refusal => return .error (.invalidParameter refusal)
    | .ok source => make frame source r.labels options

end Dataset
end Lineage
