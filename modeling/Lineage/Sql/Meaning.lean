import Lineage.Sql.Statement
import Lineage.Table.Plan
/-
  What statements mean: the steps that a plan goes on with.

  Rows are kept by the condition first.  Then the outputs are selected; but if the result is to be
  sorted, they are put beside all columns, so that it can be sorted by either, and only then
  selected.  At last equal rows and rows out of range are left out.

  So a statement means the same plan as the steps that one could have written instead.
-/

namespace Lineage.Sql

/-! ## Terms -/

/-- The names of the table of a statement, and its columns. -/
structure Scope where
  names : List String
  columns : FrameSchema

/-- A query that cannot be understood. -/
def misread (why : String) : Failure := .engine .query why

namespace Term

/-- The opposite of a condition. -/
def opposite : Expr → Expr
  | .isNull a => .isPresent a
  | .isPresent a => .isNull a
  | e => .negate e

/-- What a sign in front of an expression makes of it. -/
def signed (op : Arithmetic) (e : Expr) : Expr :=
  match op, e with
  | .sub, .literal l =>
    match opposite? l with
    | some l => .literal l
    | none => .arithmetic .sub (.literal (.int 0)) (.literal l)
  | .add, .literal (.int n) => .literal (.int n)
  | .add, .literal (.float x) => .literal (.float x)
  | op, e => .arithmetic op (.literal (.int 0)) e

/-- The expression that a term stands for. -/
def expr (s : Scope) : Term → Except Failure Expr
  | column none name => .ok (.column name)
  | column (some table) name =>
    if s.names.contains table && s.columns.any (·.1 == name) then .ok (.column name)
    else .error (misread ("there is no column " ++ name ++ " in " ++ table))
  | literal l => .ok (.literal l)
  | plus a => (a.expr s).map (signed .add)
  | minus a => (a.expr s).map (signed .sub)
  | arithmetic op a b => do return .arithmetic op (← a.expr s) (← b.expr s)
  | compare c a b => do return .compare c (← a.expr s) (← b.expr s)
  | both a b => do return .both (← a.expr s) (← b.expr s)
  | either a b => do return .either (← a.expr s) (← b.expr s)
  | negate (between a low high) => do
    let e ← a.expr s
    return .either (.compare .lt e (← low.expr s)) (.compare .gt e (← high.expr s))
  | negate a => (a.expr s).map opposite
  | isNull a => (a.expr s).map .isNull
  | isTruth b a => do return .compare .eq (← a.expr s) (.literal (.bool b))
  | among a items => do return .among (← a.expr s) items
  | between a low high => do
    let e ← a.expr s
    return .both (.compare .ge e (← low.expr s)) (.compare .le e (← high.expr s))
  | like a pattern folded =>
    match pattern with
    | literal (.text p) => do return .like (← a.expr s) p folded
    | _ => .error (.engine .querySyntax "a pattern must be a text")
  | rowCount => .ok .rowCount
  | overall f a => (a.expr s).map (.overall f)

end Term

/-! ## Outputs -/

/-- The outputs that a part of a selection stands for. -/
def Item.outputs (s : Scope) : Item → Except Failure (List Output)
  | all none => .ok (s.columns.map fun c => .column c.1)
  | all (some table) =>
    if s.names.contains table then .ok (s.columns.map fun c => .column c.1)
    else .error (misread ("there is no table " ++ table))
  | one t name => do return [⟨← t.expr s, name⟩]

/-- The key that a sorting stands for.  A whole number stands for the output at that place. -/
def Sorting.key (s : Scope) (outputs : List Output) (o : Sorting) : Except Failure SortKey := do
  let e ←
    match o.term with
    | .literal (.int n) =>
      match (if n < 1 then none else outputs[(n - 1).toNat]?) with
      | some output => pure (.column output.name)
      | none => throw (misread "there is no such output")
    | t => t.expr s
  return ⟨e, o.descending, o.nullsLast.getD !o.descending⟩

/-- A number of rows. -/
def rowsOf : Term → Except Failure Nat
  | .literal (.int n) => .ok n.toNat
  | _ => .error (.engine .querySyntax "a number of rows is expected")

namespace Statement

/-- A condition that is known before any row is: a truth value, or two values side by side. -/
def known? : Term → Option Bool
  | .literal (.bool b) => some b
  | .compare .eq (.literal a) (.literal b) => some (a = b)
  | .compare .ne (.literal a) (.literal b) => some (a ≠ b)
  | _ => none

/-- The plan with the rows that a condition keeps. -/
def kept (s : Scope) (p : Plan) : Option Term → Except Failure Plan
  | none => .ok p
  | some t =>
    match known? t with
    | some true => .ok p
    | some false => .ok (.ofTable ⟨s.columns, []⟩)
    | none => do return p.andThen (.filter (← t.expr s))

/-- The names of outputs as outputs. -/
def named (outputs : List Output) : Step := .project (outputs.map Output.name)

/-- The steps that select outputs.  Literals alone are put beside the rows, so that there is a row
for each row. -/
def selecting (outputs : List Output) : List Step :=
  let fixed (o : Output) : Bool := !o.expr.usesRow && !o.expr.usesTable
  if !outputs.isEmpty && outputs.all fixed then [.extend outputs, named outputs]
  else [.select outputs]

/-- The steps that put outputs beside the columns to sort by either. -/
def besideRows (outputs : List Output) : Step :=
  let overall (o : Output) : Bool := !o.expr.usesRow && o.expr.usesTable
  if !outputs.isEmpty && outputs.all overall then .lead outputs else .extend outputs

/-- The step for a range of rows. -/
def cutting (s : Statement) : Except Failure (List Step) := do
  let offset ← s.offset.mapM rowsOf
  let limit ← s.limit.mapM rowsOf
  match offset, limit with
  | none, none => return []
  | offset, limit => return [.slice (offset.getD 0) (limit.getD Plan.rowBound)]

/-- The plan of a statement over a table; the outputs are checked at once. -/
def plan (s : Statement) (names : List String) (columns : FrameSchema) (p : Plan) :
    Except Failure Plan := do
  let scope : Scope := ⟨names, columns⟩
  let p ← kept scope p s.condition
  let outputs := (← s.items.mapM (Item.outputs scope)).flatten
  let steps ←
    if s.order.isEmpty then do
      let _ ← outputs.mapM (Output.field columns)
      pure (selecting outputs)
    else do
      let keys ← s.order.mapM (Sorting.key scope outputs)
      let beside := besideRows outputs
      if let some t := s.condition then
        let _ ← (← t.expr scope).dtype columns
      let _ ← beside.schema columns
      pure [beside, .sort keys, named outputs]
  let distinct := if s.distinct then [Step.distinct] else []
  return { p with steps := p.steps ++ steps ++ distinct ++ (← s.cutting) }

end Statement
end Lineage.Sql
