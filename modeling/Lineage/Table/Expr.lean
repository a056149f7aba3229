import Lineage.Decimal.Binary64
/-
  Expressions over the columns of a table.

  An expression is computed from each row, from all rows, or from neither.  `Expr.columns` are
  the columns that it uses, and `Expr.leading` is the name of its result when it is given none.
-/

namespace Lineage

/-- A value that stands in a plan or query. -/
inductive Literal where
  | null
  | bool (b : Bool)
  | int (n : Int)
  | float (x : Binary64)
  | text (s : String)
deriving DecidableEq, Repr

/-- Comparisons. -/
inductive Comparison where
  | lt | le | gt | ge | eq | ne
deriving DecidableEq, Repr

/-- A comparison holds for values in a given order. -/
def Comparison.holds : Comparison → Ordering → Bool
  | lt, o => o = .lt
  | le, o => o ≠ .gt
  | gt, o => o = .gt
  | ge, o => o ≠ .lt
  | eq, o => o = .eq
  | ne, o => o ≠ .eq

/-- The sign of a comparison. -/
def Comparison.sign : Comparison → String
  | lt => "<"
  | le => "<="
  | gt => ">"
  | ge => ">="
  | eq => "=="
  | ne => "!="

/-- Arithmetic. -/
inductive Arithmetic where
  | add | sub | mul | div | rem
deriving DecidableEq, Repr

/-- The sign of an operation. -/
def Arithmetic.sign : Arithmetic → String
  | add => "+"
  | sub => "-"
  | mul => "*"
  | div => "/"
  | rem => "%"

/-- What is computed from all values of an expression.  Missing ones do not count. -/
inductive Aggregate where
  | count | sum | min | max | mean
deriving DecidableEq, Repr

/-- The name of an aggregate. -/
def Aggregate.name : Aggregate → String
  | count => "count"
  | sum => "sum"
  | min => "min"
  | max => "max"
  | mean => "mean"

/-- An expression. -/
inductive Expr where
  | column (name : String)
  | literal (l : Literal)
  | arithmetic (op : Arithmetic) (a b : Expr)
  | compare (c : Comparison) (a b : Expr)
  | both (a b : Expr)
  | either (a b : Expr)
  | negate (a : Expr)
  | isNull (a : Expr)
  | isPresent (a : Expr)
  /-- The value is one of those listed. -/
  | among (a : Expr) (items : List Literal)
  /-- The text fits a pattern, in which `%` stands for any characters and `_` for one; folded,
  small and capital letters are alike. -/
  | like (a : Expr) (pattern : String) (folded : Bool)
  /-- The number of rows. -/
  | rowCount
  | overall (f : Aggregate) (a : Expr)
deriving DecidableEq, Repr

namespace Expr

/-- The columns that are used. -/
def columns : Expr → List String
  | column name => [name]
  | literal _ | rowCount => []
  | arithmetic _ a b | compare _ a b | both a b | either a b => a.columns ++ b.columns
  | negate a | isNull a | isPresent a | among a _ | like a _ _ | overall _ a => a.columns

/-- The values of single rows are used, so that there is a result for each row. -/
def usesRow : Expr → Bool
  | column _ => true
  | literal _ | rowCount | overall _ _ => false
  | arithmetic _ a b | compare _ a b | both a b | either a b => a.usesRow || b.usesRow
  | negate a | isNull a | isPresent a | among a _ | like a _ _ => a.usesRow

/-- All rows together are used. -/
def usesTable : Expr → Bool
  | column _ | literal _ => false
  | rowCount | overall _ _ => true
  | arithmetic _ a b | compare _ a b | both a b | either a b => a.usesTable || b.usesTable
  | negate a | isNull a | isPresent a | among a _ | like a _ _ => a.usesTable

/-- The name of the result: that of the first column. -/
def leading : Expr → String
  | column name => name
  | literal _ => "literal"
  | rowCount => "len"
  | arithmetic _ a _ | compare _ a _ | both a _ | either a _ => a.leading
  | negate a | isNull a | isPresent a | among a _ | like a _ _ | overall _ a => a.leading

end Expr

/-- A column of a result: what is computed, and the name that it is given. -/
structure Output where
  expr : Expr
  given : Option String
deriving DecidableEq, Repr

namespace Output

/-- The column of a name as it is. -/
def column (name : String) : Output := ⟨.column name, none⟩

/-- The name of the column. -/
def name (o : Output) : String := o.given.getD o.expr.leading

end Output
end Lineage
