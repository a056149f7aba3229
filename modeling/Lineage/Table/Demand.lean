import Lineage.Table.Step
/-
  What steps need of the rows that they are given.

  Rows that lie in files are read only as far as they are needed, and what is not read cannot
  fail.  So it matters which columns a plan needs, and whether it needs rows at all: `trim` goes
  through the steps from the last to the first, leaves out the outputs that no later step needs,
  and tells what is needed of the rows at the beginning.
-/

namespace Lineage

/-- What is needed of rows. -/
structure Demand where
  /-- The columns; all of them, if none are listed. -/
  columns : Option (List String)
  /-- The rows are needed, and not just their columns. -/
  rows : Bool
deriving DecidableEq, Repr

namespace Demand

/-- All columns and all rows. -/
def everything : Demand := ⟨none, true⟩

/-- A column is needed. -/
def includes (d : Demand) (name : String) : Bool :=
  match d.columns with
  | none => true
  | some names => names.contains name

/-- The columns that are listed, and all of them if the list is empty. -/
def ofColumns (names : List String) (rows : Bool) : Demand :=
  ⟨if names.isEmpty then none else some names, rows⟩

/-- Further columns are needed, and so are the rows. -/
def and (d : Demand) (names : List String) : Demand := ⟨d.columns.map (· ++ names), true⟩

end Demand

namespace Step

/-- The number of rows alone is asked for. -/
def countsRows : Step → Bool
  | select [o] => o.expr = .rowCount
  | _ => false

/-- The columns that outputs use. -/
def used (outputs : List Output) : List String := outputs.flatMap fun o => o.expr.columns

/-- The outputs of a selection that are needed.  If a selection has a row for each row that it is
given, so has what is left of it. -/
def neededOutputs (d : Demand) (outputs : List Output) : List Output :=
  let kept := outputs.filter fun o => d.includes o.name
  let single (os : List Output) : Bool := os.any fun o => o.expr.usesRow
  if single kept = single outputs && !kept.isEmpty then kept else outputs

/-- What a step needs of rows with these columns if that much is needed of its result, and what is
left of the step. -/
def trim (columns : FrameSchema) (d : Demand) (s : Step) : Demand × Option Step :=
  match s with
  | filter condition => (d.and condition.columns, some s)
  | sort keys => (d.and (keys.flatMap fun k => k.expr.columns), some s)
  | select outputs =>
    if s.countsRows then (.ofColumns ((columns.take 1).map Prod.fst) true, some s)
    else
      let kept := neededOutputs d outputs
      (.ofColumns (used kept) (d.rows || kept.any fun o => o.expr.usesTable), some (select kept))
  | extend outputs =>
    let kept := outputs.filter fun o => d.includes o.name
    let names := d.columns.map fun names =>
      names.filter (fun n => !kept.any fun o => o.name = n) ++ used kept
    let rows := d.rows || kept.any fun o => o.expr.usesTable
    match names with
    | none => (⟨none, rows⟩, some s)
    | some names => (.ofColumns names rows, if kept.isEmpty then none else some (extend kept))
  | slice _ length => (⟨d.columns, d.rows && length ≠ 0⟩, some s)
  | distinct | lead _ => (.everything, some s)

/-- What steps need of rows with these columns if all of their result is needed, and what is left
of the steps. -/
def trimAll (columns : FrameSchema) : List Step → Demand × List Step
  | [] => (.everything, [])
  | s :: rest =>
    match s.schema columns with
    | .error _ => (.everything, s :: rest)
    | .ok after =>
      let (d, rest) := trimAll after rest
      let (d, s) := s.trim columns d
      (d, s.toList ++ rest)

end Step
end Lineage
