import Lineage.Files.Csv
import Lineage.Files.Format
import Lineage.Files.Glob
import Lineage.Files.Records
/-
  Tables that are read from files when they are used.

  A path with a pattern, or of a directory, stands for several files; their rows follow each
  other in the order of the files' paths.  Files are looked at once (`look`): that tells which
  files there are and which columns they have.  Each time rows are wanted the files are read again
  (`read`), and by then they may have changed, so they may no longer fit what was seen.
-/

namespace Lineage

/-- What is known of a table that is not read yet. -/
structure Look where
  /-- The paths of the files. -/
  paths : List String
  columns : FrameSchema
  /-- The number of rows, for files that tell it. -/
  rows : Nat
deriving Repr, Inhabited

namespace Files

/-! ## Contents -/

/-- The content of a file. -/
def contentAt (t : FileTree) (path : String) : Except Failure FileContent :=
  match t.open? path with
  | .ok (.file content) => .ok content
  | .ok .directory => .error (.engine .file "the path leads to a directory")
  | .error fault => .error (.engine .file fault.message)

/-- The file has another format. -/
def otherFormat : Failure := .engine .computation "the file is not of this format"

/-- The text of a file. -/
def textAt (t : FileTree) (path : String) : Except Failure String := do
  match ← contentAt t path with
  | .text s => return s
  | .table _ => throw otherFormat

/-- The table of a file that holds one. -/
def tableAt (t : FileTree) (path : String) : Except Failure Table := do
  match ← contentAt t path with
  | .table table => return table
  | .text _ => throw otherFormat

/-! ## Paths -/

/-- The paths of the files in a directory and below, in order. -/
def filesUnder (t : FileTree) (path : String) (key : FileKey) : List String :=
  let paths := t.entries.filterMap fun (k, entry) =>
    match entry with
    | .file _ =>
      if key.isPrefixOf k then some ((k.drop key.length).foldl joined path) else none
    | .directory => none
  paths.mergeSort fun a b => a ≤ b

/-- The paths of the files that a path stands for. -/
def pathsOf (t : FileTree) (path : String) : Except Failure (List String) := do
  let paths ←
    if isPattern path then
      match glob? t path with
      | some paths => pure paths
      | none => throw (.engine .computation "the pattern is malformed")
    else
      match t.locate path with
      | .error fault => throw (.engine .file fault.message)
      | .ok key => pure (if t.isDirectory key then filesUnder t path key else [path])
  if paths.isEmpty then throw (.engine .computation "there are no such files") else return paths

/-! ## Looking -/

/-- The columns of two files, which must have the same names. -/
def mergeColumns (a b : FrameSchema) : Except Failure FrameSchema :=
  if a.map Prod.fst = b.map Prod.fst then
    .ok (List.zipWith (fun c d => (c.1, Csv.widenFiles c.2 d.2)) a b)
  else .error (.engine .computation "the files have different columns")

/-- The columns of files, the narrowest that suit them all. -/
def mergeAll : List FrameSchema → Except Failure FrameSchema
  | [] => .ok []
  | first :: others => others.foldlM mergeColumns first

/-- What is known of the first of some files. -/
def ofFirst {α : Type} (f : String → Except Failure α) (empty : α) : List String → Except Failure α
  | [] => .ok empty
  | path :: _ => f path

/-- Looks at the files that a path stands for. -/
def look (t : FileTree) (format : FileFormat) (path : String) : Except Failure Look := do
  let paths ← pathsOf t path
  match format with
  | .csv =>
    let columns ← paths.mapM fun p => do Csv.columns (← textAt t p)
    return ⟨paths, ← mergeAll columns, 0⟩
  | .ndjson =>
    return ⟨paths, ← ofFirst (fun p => do Records.lineColumns (← textAt t p)) [] paths, 0⟩
  | .parquet =>
    let columns ← ofFirst (fun p => (tableAt t p).map Table.columns) [] paths
    let rows ← paths.mapM fun p => (tableAt t p).map Table.height
    return ⟨paths, columns, rows.foldl (· + ·) 0⟩
  | .json => throw otherFormat

/-! ## Reading -/

/-- The rows of a table in which columns are expected, of which some are needed; the others are
left without values. -/
def rowsOfTable (expected : FrameSchema) (isNeeded : String → Bool) (t : Table) :
    Except Failure (List (List Cell)) := do
  if t.columns.any fun c => !expected.any (·.1 == c.1) then
    throw (.engine .schema "the file has other columns than expected")
  let places ← expected.mapM fun c =>
    if isNeeded c.1 then
      match Table.indexOf? t.columns c.1, t.columns.lookup c.1 with
      | some i, some d =>
        if d.text = c.2.text then .ok (some i)
        else .error (.engine .schema ("the type of a column has changed: " ++ c.1))
      | _, _ => .error (.engine .columnMissing c.1)
    else .ok none
  return t.rows.map fun row => places.map fun place => (place.map (Table.cellAt row)).getD .null

/-- Reads the rows of files that have been looked at; columns that are not needed are left without
values. -/
def read (t : FileTree) (format : FileFormat) (seen : Look) (isNeeded : String → Bool) :
    Except Failure (List (List Cell)) := do
  let rows ← seen.paths.mapM fun path =>
    match format with
    | .csv => do Csv.rows seen.columns isNeeded (← textAt t path)
    | .ndjson => do Records.lineRows seen.columns isNeeded (← textAt t path)
    | .parquet => do rowsOfTable seen.columns isNeeded (← tableAt t path)
    | .json => throw otherFormat
  return rows.flatten

/-- Counts the rows of files without reading them. -/
def count (t : FileTree) (format : FileFormat) (seen : Look) : Except Failure Nat := do
  let counts ← seen.paths.mapM fun path =>
    match format with
    | .csv => do Csv.count (← textAt t path)
    | .ndjson => (textAt t path).map Records.lineCount
    | .parquet => (tableAt t path).map Table.height
    | .json => throw otherFormat
  return counts.foldl (· + ·) 0

end Files
end Lineage
