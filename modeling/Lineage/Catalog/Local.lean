import Lineage.Catalog.Basic
import Lineage.Catalog.Snapshots
import Lineage.Observation
import Lineage.Sql.Meaning
/-
  A catalog of plans beside a tree of files.

  Names are looked up in the catalog, paths in the tree.  A file is looked at and read when its
  plan is used, except for JSON files, which are read at once.
-/

namespace Lineage.Catalog

/-- The plan over a file; `scan` is the number under which it is looked at. -/
def openFile (files : FileTree) (format : FileFormat) (path : String) (scan : Nat) :
    Except Failure Plan :=
  match format with
  | .json =>
    match files.open? path with
    | .error fault => .error (.io fault.message)
    | .ok .directory => .error (.engine .file "the path leads to a directory")
    | .ok (.file content) =>
      match content with
      | .text s => (Files.Records.ofDocument s).map Plan.ofTable
      | .table _ => .error Files.Records.unreadable
  | other => .ok ⟨.files other path scan, []⟩

/-- The plan for what a path stands for. -/
def openTarget (files : FileTree) (path : String) (scan : Nat) :
    Snapshots.Target → Except Failure Plan
  | .snapshot v => .ok ⟨.files .parquet (Snapshots.filePath path v) scan, []⟩
  | .file format => openFile files format path scan

/-- The note that is made before something is opened. -/
def openingNote (path : String) : Snapshots.Target → Note
  | .snapshot v => .snapshotLoading path v
  | .file format => .fileLoading path format

/-- The plan for a path, with the note made on the way. -/
def loadPath (files : FileTree) (path : String) (version : Option UInt64) (scan : Nat) :
    List Note × Except Failure Plan :=
  match Snapshots.resolve files path version with
  | .error f => ([], .error f)
  | .ok target => ([openingNote path target], openTarget files path scan target)

/-- A query over one of the tables, or over none: its statement, and the plan of the table. -/
structure Query where
  statement : Sql.Statement
  table : Plan

/-- The names that the table of a statement has there. -/
def Query.names (q : Query) : List String :=
  match q.statement.place with
  | none => []
  | some place => place.table :: place.alias?.toList

/-- The query that a text holds. -/
def query (c : Catalog Plan) (text : String) : Except Failure Query :=
  match Sql.Statement.ofText text with
  | none => .error (Sql.misread "the query cannot be read")
  | some statement =>
    match statement.place with
    | none => .ok ⟨statement, .ofTable ⟨[], []⟩⟩
    | some place =>
      match c.visible.lookup place.table with
      | none => .error (Sql.misread ("the table is not known: " ++ place.table))
      | some table => .ok ⟨statement, table⟩

/-- The plan of a query, once its table has been looked at. -/
def Query.plan (q : Query) (seen : Look) : Except Failure Plan := do
  q.statement.plan q.names (← q.table.schema seen) q.table

end Lineage.Catalog
