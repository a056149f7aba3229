import Lineage.Decimal.Brief
import Lineage.Table.Typing
/-
  The texts of expressions in plans.

  A text shows what is computed and not what was written: a whole number beside a column of
  doubles is shown as a double, and a column that is brought to doubles says so.
-/

namespace Lineage

/-- The text of a literal in a plan. -/
def Literal.describe : Literal → String
  | null => "null"
  | bool b => if b then "true" else "false"
  | int n => toString n
  | float x => Decimal.brief x
  | text s => "\"" ++ s ++ "\""

/-- A column in the text of a plan. -/
def columnText (name : String) : String := "col(\"" ++ name ++ "\")"

/-- A list in the text of a plan. -/
def listText (items : List String) : String := "[" ++ String.intercalate ", " items ++ "]"

/-- The text of a literal that is brought to a type. -/
def Literal.describeAs (d : Dtype) (l : Literal) : String :=
  match l, d.kind with
  | int n, .real => Decimal.brief (.ofInt n)
  | bool b, .whole => toString b.toNat
  | bool b, .real => Decimal.brief (.ofNat b.toNat)
  | bool b, .text => (text (if b then "true" else "false")).describe
  | l, _ => l.describe

/-- The word for a type to which a column is brought. -/
def Dtype.word (d : Dtype) : String :=
  match d with
  | f16 => "Float16"
  | f32 => "Float32"
  | f64 => "Float64"
  | str => "String"
  | d =>
    match d.bits? with
    | some (bits, true) => s!"Int{bits}"
    | some (bits, false) => s!"UInt{bits}"
    | none => d.text

/-- A number or a truth value of one type is brought to another. -/
def isBrought (source target : Dtype) : Bool :=
  match source.kind, target.kind with
  | .whole, .whole | .whole, .real | .real, .real => source.text ≠ target.text
  | .truth, .text => true
  | _, _ => false

/-- The text of an operand that is brought to a type, from its text by itself. -/
def Operand.describeAs (d : Dtype) (text : String) : Operand → String
  | .literal l => l.describeAs d
  | .typed own => if isBrought own d then text ++ ".cast(" ++ d.word ++ ")" else text

/-- The text of an operation in which both operands are brought to a type. -/
def operationText (sign : String) (d : Dtype) (a b : Operand) (s t : String) : String :=
  "[(" ++ a.describeAs d s ++ ") " ++ sign ++ " (" ++ b.describeAs d t ++ ")]"

/-- The text of an expression over columns. -/
def Expr.describe (columns : FrameSchema) : Expr → String
  | column name => columnText name
  | literal l => l.describe
  | arithmetic op a b =>
    operationText op.sign ((arithmetic op a b).typeIn columns) (a.operandIn columns)
      (b.operandIn columns) (a.describe columns) (b.describe columns)
  | compare c a b =>
    let s := a.operandIn columns
    let t := b.operandIn columns
    operationText c.sign ((comparedAs s t).getD .null) s t (a.describe columns)
      (b.describe columns)
  | both a b => "[(" ++ a.describe columns ++ ") & (" ++ b.describe columns ++ ")]"
  | either a b => "[(" ++ a.describe columns ++ ") | (" ++ b.describe columns ++ ")]"
  | negate a => a.describe columns ++ ".not()"
  | isNull a => a.describe columns ++ ".is_null()"
  | isPresent a => a.describe columns ++ ".is_not_null()"
  | among a items => a.describe columns ++ ".is_in(" ++ listText (items.map (·.describe)) ++ ")"
  | like a pattern folded =>
    a.describe columns ++ (if folded then ".ilike(" else ".like(") ++
      (Literal.text pattern).describe ++ ")"
  | rowCount => "len()"
  | overall f a => a.describe columns ++ "." ++ f.name ++ "()"

/-- The text of an output. -/
def Output.describe (columns : FrameSchema) (o : Output) : String :=
  match o.given with
  | none => o.expr.describe columns
  | some name => o.expr.describe columns ++ ".alias(\"" ++ name ++ "\")"

end Lineage
