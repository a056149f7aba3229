import Lineage.Table.Compute
import Lineage.Table.Description
/-
  Steps of plans.

  A step makes a table of a table.  Which columns it makes is told by the columns that it is given
  (`Step.schema`), and so is whether it can be carried out at all (`Step.check`); its rows never
  fail (`Step.rows`).
-/

namespace Lineage

/-- A step of a plan. -/
inductive Step where
  /-- Keeps the rows for which a condition is true. -/
  | filter (condition : Expr)
  | select (outputs : List Output)
  /-- Puts columns in the place of those that have their names, or behind all others. -/
  | extend (outputs : List Output)
  /-- Leaves rows out and keeps at most some of those behind. -/
  | slice (offset length : Nat)
  | sort (keys : List SortKey)
  /-- Leaves out rows that are equal to an earlier one. -/
  | distinct
  /-- One row: columns that are computed from all rows, beside the first row. -/
  | lead (outputs : List Output)
deriving DecidableEq, Repr

namespace Step

/-! ## Steps with one column -/

/-- Keeps the rows in which a column compares with a value as asked. -/
def keep (column : String) (c : Comparison) (value : Literal) : Step :=
  filter (.compare c (.column column) (.literal value))

/-- Keeps columns, in the order of their names. -/
def project (names : List String) : Step := select (names.map Output.column)

/-- Adds a column without values, or takes the values out of the one of that name. -/
def withNull (column : String) : Step := extend [⟨.literal .null, some column⟩]

/-- Keeps the first rows. -/
def limit (rows : Nat) : Step := slice 0 rows

/-- Sorts by a column, missing values first. -/
def sortBy (column : String) (descending : Bool) : Step :=
  sort [⟨.column column, descending, false⟩]

/-! ## Columns -/

/-- Columns with one of them put in its place. -/
def putColumn (columns : FrameSchema) (field : String × Dtype) : FrameSchema :=
  match Table.indexOf? columns field.1 with
  | some i => columns.set i field
  | none => columns ++ [field]

/-- The columns that outputs make. -/
def fields (columns : FrameSchema) (outputs : List Output) : Except Failure FrameSchema := do
  let made ← outputs.mapM (Output.field columns)
  checkDistinct (made.map Prod.fst)
  return made

/-- The columns after a step. -/
def schema (columns : FrameSchema) : Step → Except Failure FrameSchema
  | filter condition => do
    let _ ← condition.dtype columns
    return columns
  | select outputs => fields columns outputs
  | extend outputs | lead outputs => do return (← fields columns outputs).foldl putColumn columns
  | slice _ _ | distinct => .ok columns
  | sort keys => do
    let _ ← keys.mapM fun k => k.expr.dtype columns
    return columns

/-- The expressions of a step. -/
def exprs : Step → List Expr
  | filter condition => [condition]
  | select outputs | extend outputs | lead outputs => outputs.map Output.expr
  | sort keys => keys.map SortKey.expr
  | slice _ _ | distinct => []

/-- Fails if a step cannot be carried out on tables with these columns. -/
def check (columns : FrameSchema) (s : Step) : Except Failure Unit := do
  s.exprs.forM (Expr.check columns)
  match s with
  | filter condition => condition.checkCondition columns
  | _ => return ()

/-! ## Rows -/

/-- The rows of outputs alone.  If none of them is computed from single rows there is one row. -/
def selected (t : Table) (outputs : List Output) : List (List Cell) :=
  let height :=
    if outputs.isEmpty then 0
    else if outputs.any fun o => o.expr.usesRow then t.height
    else 1
  Table.rowsOf height (outputs.map fun o => (o.expr.values t.columns t.rows).spread height)

/-- A row with values put in the places of columns. -/
def putCells (columns : FrameSchema) (row : List Cell) : List (String × Cell) → List Cell
  | [] => row
  | (name, c) :: rest =>
    match Table.indexOf? columns name with
    | some i => putCells columns (row.set i c) rest
    | none => putCells (columns ++ [(name, .null)]) (row ++ [c]) rest

/-- The rows with outputs in their places.  Outputs beside nothing make one row. -/
def extended (t : Table) (outputs : List Output) : List (List Cell) :=
  let rows := if t.columns.isEmpty && t.rows.isEmpty then [[]] else t.rows
  let made := Table.rowsOf rows.length
    (outputs.map fun o => (o.expr.values t.columns t.rows).spread rows.length)
  List.zipWith (fun row cells => putCells t.columns row ((outputs.map Output.name).zip cells))
    rows made

/-- The one row of outputs beside the first row. -/
def leading (t : Table) (outputs : List Output) : List (List Cell) :=
  let first := t.rows.head?.getD (t.columns.map fun _ => .null)
  let cells := (selected t outputs).head?.getD []
  [putCells t.columns first ((outputs.map Output.name).zip cells)]

/-- The rows after a step. -/
def rows (t : Table) : Step → List (List Cell)
  | filter condition => keepTrue t.columns condition t.rows
  | select outputs => selected t outputs
  | extend outputs => extended t outputs
  | slice offset length => (t.rows.drop offset).take length
  | sort keys => sortRows t.columns keys t.rows
  | distinct => distinctRows t.rows
  | lead outputs => leading t outputs

/-- Carries out a step. -/
def apply (t : Table) (s : Step) : Except Failure Table := do
  let columns ← s.schema t.columns
  s.check t.columns
  return ⟨columns, s.rows t⟩

/-! ## Texts -/

/-- A text with every line moved to the right. -/
def indented (text : String) : String :=
  String.intercalate "\n" ((text.toList.splitOn '\n').map fun line =>
    "  " ++ String.ofList line)

/-- The text of a choice for each key, if not all are the usual one. -/
def choiceText (name : String) (choices : List Bool) : String :=
  if choices.any id then name ++ ": " ++ listText (choices.map toString) else ""

/-- The text of the keys of a sort. -/
def sortText (columns : FrameSchema) (keys : List SortKey) : String :=
  let choices := [choiceText "descending" (keys.map SortKey.descending),
    choiceText "nulls_last" (keys.map SortKey.nullsLast)].filter fun s => !s.isEmpty
  (if choices.isEmpty then "" else listText choices ++ " ") ++
    listText (keys.map fun k => k.expr.describe columns)

/-- The text of a step over a plan that has these columns and this text. -/
def describe (columns : FrameSchema) (below : String) : Step → String
  | filter condition => "FILTER " ++ condition.describe columns ++ "\nFROM\n" ++ indented below
  | select outputs =>
    "SELECT " ++ listText (outputs.map (·.describe columns)) ++ "\n" ++ indented below
  | extend outputs =>
    " WITH_COLUMNS:\n " ++ listText (outputs.map (·.describe columns)) ++ " \n" ++ indented below
  | slice offset length => s!"SLICE[offset: {offset}, len: {length}]\n" ++ indented below
  | sort keys => "SORT BY " ++ sortText columns keys ++ "\n" ++ indented below
  | distinct => "UNIQUE[maintain_order: true, keep_strategy: Any] BY None\n" ++ indented below
  | lead outputs => "LEAD " ++ listText (outputs.map (·.describe columns)) ++ "\n" ++ indented below

end Step
end Lineage
