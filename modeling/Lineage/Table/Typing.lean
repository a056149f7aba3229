import Lineage.Failure
import Lineage.Table.Dtype
import Lineage.Table.Expr
/-
  Types of expressions.

  Whether an expression has a type is told by the columns alone (`Expr.dtype`).  Some expressions
  have a type and can still not be computed, whatever the rows are; `Expr.check` tells them.

  A number that stands in an expression has no type of its own there: beside a column it takes a
  type that suits the column, so that adding one to a column of short numbers leaves them short.
-/

namespace Lineage

/-! ## Kinds of types -/

/-- Kinds of types. -/
inductive Kind where
  | whole | real | truth | text | bytes | moment | duration | nothing | other
deriving DecidableEq, Repr

/-- The bits of a type of whole numbers, and whether one of them is a sign. -/
def Dtype.bits? : Dtype → Option (Nat × Bool)
  | .i8 => some (8, true)
  | .i16 => some (16, true)
  | .i32 => some (32, true)
  | .i64 => some (64, true)
  | .i128 => some (128, true)
  | .u8 => some (8, false)
  | .u16 => some (16, false)
  | .u32 => some (32, false)
  | .u64 => some (64, false)
  | .u128 => some (128, false)
  | _ => none

/-- The type of whole numbers of some bits. -/
def Dtype.ofBits : Nat × Bool → Dtype
  | (8, true) => .i8
  | (16, true) => .i16
  | (32, true) => .i32
  | (64, true) => .i64
  | (_, true) => .i128
  | (8, false) => .u8
  | (16, false) => .u16
  | (32, false) => .u32
  | (64, false) => .u64
  | (_, false) => .u128

/-- The kind of a type. -/
def Dtype.kind (d : Dtype) : Kind :=
  if d.bits?.isSome then .whole
  else
    match d with
    | .f16 | .f32 | .f64 => .real
    | .bool => .truth
    | .str => .text
    | .binary => .bytes
    | .date | .datetime _ _ | .time => .moment
    | .duration _ => .duration
    | .null => .nothing
    | _ => .other

/-- Numbers, and truth values, which count as zero and one. -/
def Kind.isNumeric : Kind → Bool
  | whole | real | truth | nothing => true
  | text | bytes | moment | duration | other => false

/-! ## Types that hold the values of two -/

/-- The least type that holds the whole numbers of two types; where there is none these become
doubles. -/
def wholeJoin (a b : Nat × Bool) : Dtype :=
  if a.2 = b.2 then .ofBits (max a.1 b.1, a.2)
  else
    let (signed, other) := if a.2 then (a.1, b.1) else (b.1, a.1)
    if 64 ≤ other then .f64 else .ofBits (max signed (2 * other), true)

/-- The least type of floating point numbers that holds numbers of two types. -/
def realJoin (a b : Dtype) : Dtype :=
  match a, b with
  | .f16, .f16 => .f16
  | .f32, .f32 | .f16, .f32 | .f32, .f16 => .f32
  | .f32, d | d, .f32 =>
    match d.bits? with
    | some (bits, _) => if bits ≤ 16 then .f32 else .f64
    | none => .f64
  | _, _ => .f64

/-- The coarser of two units of time. -/
def TimeUnit.coarser : TimeUnit → TimeUnit → TimeUnit
  | milliseconds, _ | _, milliseconds => milliseconds
  | microseconds, _ | _, microseconds => microseconds
  | nanoseconds, nanoseconds => nanoseconds

/-- The type that holds the moments of two types.  A time of day is no moment of a day, and there
are no moments of two zones in one type. -/
def momentJoin : Dtype → Dtype → Option Dtype
  | .date, .date => some .date
  | .time, .time => some .time
  | .datetime u zone, .datetime v other =>
    if zone = other then some (.datetime (u.coarser v) zone) else none
  | .date, .datetime u zone | .datetime u zone, .date => some (.datetime u zone)
  | _, _ => none

/-- The least type that holds the values of two types. -/
def supertype (a b : Dtype) : Option Dtype :=
  match a.kind, b.kind with
  | .nothing, _ => some b
  | _, .nothing => some a
  | .whole, .whole => some (wholeJoin (a.bits?.getD (64, true)) (b.bits?.getD (64, true)))
  | .real, .real | .real, .whole | .whole, .real => some (realJoin a b)
  | .truth, .whole | .truth, .real => some b
  | .whole, .truth | .real, .truth => some a
  | .moment, .whole | .whole, .moment | .duration, .whole | .whole, .duration => some .i64
  | .moment, .real | .real, .moment | .duration, .real | .real, .duration => some .f64
  | .text, .bytes | .bytes, .text => some .binary
  | .moment, .moment => momentJoin a b
  | .duration, .duration =>
    match a, b with
    | .duration u, .duration v => some (.duration (u.coarser v))
    | _, _ => none
  | .truth, .truth | .text, .text | .bytes, .bytes => some a
  | _, _ => none

/-! ## Operands -/

/-- The type of a literal standing alone. -/
def Literal.dtype : Literal → Dtype
  | null => .null
  | bool _ => .bool
  | int n => if -(2 ^ 31 : Int) ≤ n && n < 2 ^ 31 then .i32 else .i64
  | float _ => .f64
  | text _ => .str

/-- One side of an operation: a literal, or anything else that has a type. -/
inductive Operand where
  | literal (l : Literal)
  | typed (d : Dtype)

/-- The type of an operand by itself. -/
def Operand.dtype : Operand → Dtype
  | literal l => l.dtype
  | typed d => d

/-- An expression of some type as an operand. -/
def Expr.operand (d : Dtype) : Expr → Operand
  | .literal l => .literal l
  | _ => .typed d

/-- The least type of whole numbers, with a sign or without, that holds a number. -/
def leastBits (signed : Bool) (n : Int) : Nat × Bool :=
  let fits (bits : Nat) : Bool :=
    if signed then -(2 ^ (bits - 1) : Int) ≤ n && n < 2 ^ (bits - 1) else 0 ≤ n && n < 2 ^ bits
  (([8, 16, 32, 64].find? fits).getD 128, signed)

/-- The type of whole numbers in which a column of a type is brought together with a number.  It
has more bits than the column only if the number asks for them. -/
def Dtype.besideWhole (d : Dtype) (n : Int) : Dtype :=
  match d.bits? with
  | some bits =>
    let least := leastBits (bits.2 || n < 0) n
    if !bits.2 && least.2 && 64 ≤ bits.1 then .i64 else wholeJoin bits least
  | none => d

/-- The type in which two operands are brought together. -/
def Operand.join : Operand → Operand → Option Dtype
  | .literal (.int n), .typed d | .typed d, .literal (.int n) =>
    match d.kind with
    | .whole => some (d.besideWhole n)
    | .real => some d
    | _ => supertype (Literal.int n).dtype d
  | .literal (.float x), .typed d | .typed d, .literal (.float x) =>
    match d.kind with
    | .real => some d
    | .whole => some .f64
    | _ => supertype (Literal.float x).dtype d
  | a, b => supertype a.dtype b.dtype

/-! ## Arithmetic and comparisons -/

/-- Values of these types do not go together. -/
def unfit (fault : EngineFault) (a b : Dtype) : Failure :=
  .engine fault ("cannot combine " ++ a.text ++ " and " ++ b.text)

/-- The type of the result of arithmetic. -/
def Arithmetic.dtype (op : Arithmetic) (a b : Operand) : Except Failure Dtype :=
  let refusal : Failure := unfit .operation a.dtype b.dtype
  match op, a.dtype.kind, b.dtype.kind with
  | add, .truth, .truth => .ok .u32
  | _, .truth, .truth => .error refusal
  | add, .text, .text | add, .text, .nothing | add, .nothing, .text => .ok .str
  | _, k, l =>
    if k.isNumeric && l.isNumeric then
      match a.join b with
      | some d => .ok d
      | none => .error refusal
    else .error refusal

/-- The type in which two operands are compared.  A truth value beside a text is spelled out. -/
def comparedAs (a b : Operand) : Option Dtype :=
  match a.dtype.kind, b.dtype.kind with
  | .truth, .text | .text, .truth => some .str
  | _, _ => a.join b

/-- Why values of two types that cannot be brought together are not compared. -/
def comparisonFault (a b : Dtype) : EngineFault :=
  let number (k : Kind) : Bool := k = .whole || k = .real
  if (a.kind = .text && number b.kind) || (number a.kind && b.kind = .text) then .computation
  else .schema

/-- Times are not compared with texts. -/
def comparisonRefused (a b : Dtype) : Bool :=
  let temporal (k : Kind) : Bool := k = .moment || k = .duration
  (temporal a.kind && b.kind = .text) || (a.kind = .text && temporal b.kind)

/-- A literal may be listed among the values that are looked for in a column of a type. -/
def mayBeListed (d : Dtype) (l : Literal) : Bool :=
  match l, d.kind with
  | .null, _ | _, .nothing => true
  | .text _, k => k = .text
  | .bool _, k => k = .truth
  | .int _, k | .float _, k => k = .whole || k = .real || k = .moment || k = .duration

/-! ## Aggregates -/

/-- The type of a sum; there is none of texts and times. -/
def sumType (d : Dtype) : Except Failure Dtype :=
  match d with
  | .bool => .ok .u32
  | .i8 | .i16 | .u8 | .u16 => .ok .i64
  | d =>
    match d.kind with
    | .whole | .real | .nothing | .duration => .ok d
    | _ => .error (.engine .operation ("no sum of " ++ d.text))

/-- The type of an aggregate of values of a type. -/
def Aggregate.dtype (d : Dtype) : Aggregate → Except Failure Dtype
  | count => .ok .u32
  | sum => sumType d
  | min | max => .ok d
  | mean =>
    match d with
    | .f32 => .ok .f32
    | _ => .ok .f64

/-! ## Expressions -/

/-- A column that is used is not there. -/
def columnMissing (name : String) : Failure := .engine .columnMissing name

/-- The type of a column. -/
def typeOfColumn (columns : FrameSchema) (name : String) : Except Failure Dtype :=
  match columns.lookup name with
  | some d => .ok d
  | none => .error (columnMissing name)

namespace Expr

/-- The type of an expression over columns. -/
def dtype (columns : FrameSchema) : Expr → Except Failure Dtype
  | column name => typeOfColumn columns name
  | literal l => .ok l.dtype
  | arithmetic op a b => do
    let s ← a.dtype columns
    let t ← b.dtype columns
    op.dtype (a.operand s) (b.operand t)
  | compare _ a b => do
    let s ← a.dtype columns
    let t ← b.dtype columns
    if comparisonRefused s t then .error (unfit .operation s t) else return .bool
  | both a b | either a b => do
    let _ ← a.dtype columns
    let _ ← b.dtype columns
    return .bool
  | negate a | isNull a | isPresent a | like a _ _ => do
    let _ ← a.dtype columns
    return .bool
  | among a items => do
    let d ← a.dtype columns
    match items.find? fun l => !mayBeListed d l with
    | some l => .error (unfit .operation d l.dtype)
    | none => return .bool
  | rowCount => .ok .u32
  | overall f a => do f.dtype (← a.dtype columns)

/-- The type of an expression, or none if it has no type. -/
def typeIn (columns : FrameSchema) (e : Expr) : Dtype :=
  match e.dtype columns with
  | .ok d => d
  | .error _ => .null

/-- An expression as one side of an operation. -/
def operandIn (columns : FrameSchema) (e : Expr) : Operand := e.operand (e.typeIn columns)

/-- The expression has truth values, which may all be missing. -/
def isCondition (columns : FrameSchema) (e : Expr) : Bool :=
  (e.typeIn columns).kind = .truth || (e.typeIn columns).kind = .nothing

/-- Fails unless the expression has truth values. -/
def checkCondition (columns : FrameSchema) (e : Expr) : Except Failure Unit :=
  if e.isCondition columns then .ok ()
  else .error (unfit .computation (e.typeIn columns) .bool)

/-- Fails if an expression that has a type cannot be computed. -/
def check (columns : FrameSchema) : Expr → Except Failure Unit
  | column _ | literal _ | rowCount => .ok ()
  | arithmetic _ a b => do
    a.check columns
    b.check columns
  | compare _ a b => do
    a.check columns
    b.check columns
    let s := a.typeIn columns
    let t := b.typeIn columns
    if (comparedAs (a.operand s) (b.operand t)).isSome then return ()
    else .error (unfit (comparisonFault s t) s t)
  | both a b | either a b => do
    a.check columns
    b.check columns
    a.checkCondition columns
    b.checkCondition columns
  | negate a => do
    a.check columns
    a.checkCondition columns
  | isNull a | isPresent a | among a _ | overall _ a => a.check columns
  | like a _ _ => do
    a.check columns
    match (a.typeIn columns).kind with
    | .text | .nothing => return ()
    | _ => .error (unfit .schema (a.typeIn columns) .str)

end Expr

/-- The column of a table that an output makes. -/
def Output.field (columns : FrameSchema) (o : Output) : Except Failure (String × Dtype) := do
  return (o.name, ← o.expr.dtype columns)

/-- Fails if a name stands twice. -/
def checkDistinct (names : List String) : Except Failure Unit :=
  match names with
  | [] => .ok ()
  | name :: rest =>
    if rest.contains name then .error (.engine .duplicate name) else checkDistinct rest

end Lineage
