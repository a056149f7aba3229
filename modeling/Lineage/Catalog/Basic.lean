import Lineage.Failure
/-
  Catalogs of named tables.

  A name stands for one frame, or for the frames that were committed under it, each with its
  number as version.  Registering a frame replaces whatever was there; committing to a table
  that is registered without versions is refused.  Queries are shown all names, each with its latest
  frame.
-/

namespace Lineage

/-- What a name stands for. -/
inductive CatalogEntry (F : Type) where
  | plain (frame : F)
  /-- The frames of the versions, from the first on. -/
  | versioned (snapshots : List F)

/-- The frame of the latest version, or the only one. -/
def CatalogEntry.latest? {F : Type} : CatalogEntry F → Option F
  | plain frame => some frame
  | versioned snapshots => snapshots.getLast?

/-- Named tables. -/
structure Catalog (F : Type) where
  entries : List (String × CatalogEntry F)

namespace Catalog

variable {F : Type}

/-- No tables. -/
def empty : Catalog F := ⟨[]⟩

/-- What a name stands for. -/
def get? (c : Catalog F) (name : String) : Option (CatalogEntry F) := c.entries.lookup name

/-- Gives a name a new meaning. -/
def put (c : Catalog F) (name : String) (e : CatalogEntry F) : Catalog F :=
  ⟨(name, e) :: c.entries.filter (fun old => old.1 != name)⟩

/-- Registers a frame without versions. -/
def register (c : Catalog F) (name : String) (frame : F) : Catalog F := c.put name (.plain frame)

/-- The version of the last of some snapshots. -/
def lastVersion (snapshots : List F) : UInt64 := UInt64.ofNat (snapshots.length - 1)

/-- Adds a version to a table, and tells its number. -/
def commit (c : Catalog F) (name : String) (frame : F) : Except Failure (UInt64 × Catalog F) :=
  match c.get? name with
  | some (.plain _) => .error (.invalidParameter (.commitToPlainTable name))
  | some (.versioned snapshots) =>
    let all := snapshots ++ [frame]
    .ok (lastVersion all, c.put name (.versioned all))
  | none => .ok (0, c.put name (.versioned [frame]))

/-- Puts a name in its place in an ordered list. -/
def insertName (name : String) : List String → List String
  | [] => [name]
  | n :: rest => if n < name then n :: insertName name rest else name :: n :: rest

/-- All names, in order. -/
def tableNames (c : Catalog F) : List String := (c.entries.map Prod.fst).foldr insertName []

/-- A name stands for a table with versions. -/
def isVersioned (c : Catalog F) (name : String) : Bool :=
  match c.get? name with
  | some (.versioned _) => true
  | _ => false

/-- The latest version of a table. -/
def latestVersion (c : Catalog F) (name : String) : Option UInt64 :=
  match c.get? name with
  | some (.versioned snapshots) => if snapshots.isEmpty then none else some (lastVersion snapshots)
  | _ => none

/-- The frame of a table, or of one of its versions. -/
def load (c : Catalog F) (name : String) (version : Option UInt64) : Except Failure F :=
  match c.get? name, version with
  | none, _ => .error (.tableNotFound name)
  | some (.plain frame), none => .ok frame
  | some (.plain _), some v => .error (.invalidParameter (.versionOfPlainTable v name))
  | some (.versioned snapshots), some v =>
    match snapshots[v.toNat]? with
    | some frame => .ok frame
    | none => .error (.versionNotFound name v)
  | some (.versioned snapshots), none =>
    match snapshots.getLast? with
    | some frame => .ok frame
    | none => .error (.tableNotFound name)

/-- Shows a frame to queries under a name, instead of the one that is there. -/
def showAs (tables : List (String × F)) (name : String) (frame : F) : List (String × F) :=
  (name, frame) :: tables.filter fun old => old.1 != name

/-- Shows the latest frame of an entry to queries.  An entry without any frame is left out. -/
def showEntry (tables : List (String × F)) (entry : String × CatalogEntry F) : List (String × F) :=
  match entry.2.latest? with
  | some frame => showAs tables entry.1 frame
  | none => tables

/-- What queries see when entries are shown to them one after the other. -/
def shownIn (entries : List (String × CatalogEntry F)) : List (String × F) :=
  entries.foldl showEntry []

/-- What queries see of a catalog. -/
def visible (c : Catalog F) : List (String × F) := shownIn c.entries

/-- The description of a catalog. -/
def describe (c : Catalog F) : String :=
  "LocalCatalog \x7b tables: " ++ Text.quotedList c.tableNames ++ " \x7d"

end Catalog
end Lineage
