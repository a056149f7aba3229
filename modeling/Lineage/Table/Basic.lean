import Lineage.Failure
import Lineage.Table.Cell
import Lineage.Table.Dtype
/-
  Tables: named and typed columns, and rows.

  A table is kept by rows, so it has a height even without columns, and everything that drops or
  moves rows says nothing about columns.  Cells that a row lacks are missing values.
-/

namespace Lineage

/-- A table. -/
structure Table where
  columns : FrameSchema
  rows : List (List Cell)
deriving Repr, Inhabited

/-- One column with its values. -/
structure Series where
  name : String
  dtype : Dtype
  cells : List Cell
deriving Repr, Inhabited

namespace Table

/-- The number of rows. -/
def height (t : Table) : Nat := t.rows.length

/-- The number of columns. -/
def width (t : Table) : Nat := t.columns.length

/-- The names of the columns. -/
def names (t : Table) : List String := t.columns.map Prod.fst

/-- The cell of a row at a place. -/
def cellAt (row : List Cell) (i : Nat) : Cell := row.getD i .null

/-- The values at a place, from top to bottom. -/
def cells (t : Table) (i : Nat) : List Cell := t.rows.map (cellAt · i)

/-- All columns with their values. -/
def series (t : Table) : List Series :=
  t.columns.zipIdx.map fun (column, i) => ⟨column.1, column.2, t.cells i⟩

/-- The place of the column with a name. -/
def indexOf? (columns : FrameSchema) (name : String) : Option Nat :=
  columns.findIdx? (·.1 == name)

/-- The first rows. -/
def take (t : Table) (n : Nat) : Table := ⟨t.columns, t.rows.take n⟩

/-- The table without the column at a place. -/
def dropColumn (t : Table) (i : Nat) : Table :=
  ⟨t.columns.eraseIdx i, t.rows.map (·.eraseIdx i)⟩

/-- The rows of columns that stand side by side. -/
def rowsOf : Nat → List (List Cell) → List (List Cell)
  | 0, _ => []
  | height + 1, columns =>
    columns.map (·.headD .null) :: rowsOf height (columns.map (·.drop 1))

/-- Fails if two columns cannot stand in one table, because of their names or their heights. -/
def clash (a b : Series) : Except Failure Unit :=
  if a.name = b.name then .error (.engine .duplicate a.name)
  else if a.cells.length ≠ b.cells.length then .error (.engine .shape b.name)
  else .ok ()

/-- Fails if some of a few columns do not go together; each is held against all behind it. -/
def checkFew : List Series → Except Failure Unit
  | [] => .ok ()
  | c :: rest => do
    rest.forM (clash c)
    checkFew rest

/-- Fails if some of many columns do not go together; each is held against the height of the first
one and the names before it. -/
def checkMany (height : Nat) (seen : List String) : List Series → Except Failure Unit
  | [] => .ok ()
  | c :: rest =>
    if c.cells.length ≠ height then .error (.engine .shape c.name)
    else if seen.contains c.name then .error (.engine .duplicate c.name)
    else checkMany height (c.name :: seen) rest

/-- The height of the first of some columns. -/
def heightOf (columns : List Series) : Nat := (columns.head?.map (·.cells.length)).getD 0

/-- The table with the given columns, which must have different names and the same height. -/
def ofSeries (columns : List Series) : Except Failure Table := do
  if columns.length ≤ 4 then checkFew columns else checkMany (heightOf columns) [] columns
  return ⟨columns.map fun c => (c.name, c.dtype),
    rowsOf (heightOf columns) (columns.map (·.cells))⟩

end Table
end Lineage
