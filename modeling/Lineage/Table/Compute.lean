import Lineage.Table.Basic
import Lineage.Table.Typing
/-
  Values of expressions.

  An expression over the rows of a table has a value for each row (`Values.each`) or one value for
  all of them (`Values.same`).  Operands are brought to the type of the operation first, and whole
  numbers that leave their type come in again at its other end.  With a missing operand there is
  no result; a comparison with a missing value is neither true nor false.
-/

namespace Lineage

/-! ## Values of a type -/

/-- The value of a literal. -/
def Literal.cell : Literal → Cell
  | null => .null
  | bool b => .bool b
  | int n => .int n
  | float x => .float x
  | text s => .text s

/-- A whole number as one of a type: the low bits are kept. -/
def Dtype.wrap (d : Dtype) (n : Int) : Int :=
  match d.bits? with
  | some (bits, true) => n.bmod (2 ^ bits)
  | some (bits, false) => n % 2 ^ bits
  | none => n

/-- A double as one of a type. -/
def Dtype.round (d : Dtype) (x : Binary64) : Binary64 :=
  match d with
  | .f16 | .f32 => x.shortened
  | _ => x

/-- A value as one of a type; a whole number that the type does not hold is missing there. -/
def Dtype.fit (d : Dtype) : Cell → Cell
  | .int n =>
    match d.kind with
    | .real => .float (d.round (.ofInt n))
    | _ => if d.wrap n = n then .int n else .null
  | .bool b =>
    match d.kind with
    | .whole => .int b.toNat
    | .real => .float (.ofNat b.toNat)
    | .text => .text (if b then "true" else "false")
    | _ => .bool b
  | .float x => .float (d.round x)
  | .text s => if d.kind = .bytes then .bytes (Text.utf8 s) else .text s
  | c => c

/-- The ticks of a second. -/
def TimeUnit.perSecond : TimeUnit → Int
  | nanoseconds => 1000000000
  | microseconds => 1000000
  | milliseconds => 1000

/-- A value of one type as one of another.  Times are counted in the unit of the other type, and
from one beginning in all time zones. -/
def Dtype.convert (source target : Dtype) (c : Cell) : Cell :=
  match source, target, c with
  | .date, .datetime u _, .int n => .int (n * (86400 * u.perSecond))
  | .datetime u _, .datetime v _, .int n => .int (n * v.perSecond / u.perSecond)
  | .duration u, .duration v, .int n => .int ((n * v.perSecond).tdiv u.perSecond)
  | _, _, c => target.fit c

/-! ## Arithmetic -/

/-- Arithmetic on whole numbers.  Quotients are cut off, and there are none by zero. -/
def Arithmetic.onInts (op : Arithmetic) (m n : Int) : Option Int :=
  match op with
  | add => some (m + n)
  | sub => some (m - n)
  | mul => some (m * n)
  | div => if n = 0 then none else some (m.tdiv n)
  | rem => if n = 0 then none else some (m.fmod n)

/-- Arithmetic on doubles. -/
def Arithmetic.onFloats (op : Arithmetic) (x y : Binary64) : Binary64 :=
  match op with
  | add => x.add y
  | sub => x.sub y
  | mul => x.mul y
  | div => x.div y
  | rem => x.modulo y

/-- Arithmetic in a type.  Texts are put together. -/
def Arithmetic.onCells (op : Arithmetic) (d : Dtype) (a b : Cell) : Cell :=
  match d.fit a, d.fit b with
  | .int m, .int n =>
    match op.onInts m n with
    | some k => .int (d.wrap k)
    | none => .null
  | .float x, .float y => .float (d.round (op.onFloats x y))
  | .text s, .text t => .text (s ++ t)
  | _, _ => .null

/-! ## Truth values -/

/-- A truth value, if it is there. -/
def Cell.truth? : Cell → Option Bool
  | .bool b => some b
  | _ => none

/-- A truth value that may be missing. -/
def Cell.ofTruth? : Option Bool → Cell
  | some b => .bool b
  | none => .null

/-- Both are true. -/
def bothTrue (a b : Cell) : Cell :=
  match a.truth?, b.truth? with
  | some false, _ | _, some false => .bool false
  | some true, some true => .bool true
  | _, _ => .null

/-- One of them is true. -/
def eitherTrue (a b : Cell) : Cell :=
  match a.truth?, b.truth? with
  | some true, _ | _, some true => .bool true
  | some false, some false => .bool false
  | _, _ => .null

/-- A comparison of values of one type. -/
def Comparison.onCells (c : Comparison) (a b : Cell) : Cell :=
  match a.compare? b with
  | some o => .bool (c.holds o)
  | none => .null

/-- A value is one of those listed. -/
def Cell.isAmong (items : List Cell) (c : Cell) : Cell :=
  if c.isNull then .null else .bool (items.any fun i => c.compare? i = some .eq)

/-- A text fits a pattern, in which `%` stands for any characters and `_` for one. -/
def fitsPattern : List Char → List Char → Bool
  | [], cs => cs.isEmpty
  | '%' :: ps, [] => fitsPattern ps []
  | '%' :: ps, c :: cs => fitsPattern ps (c :: cs) || fitsPattern ('%' :: ps) cs
  | _ :: _, [] => false
  | p :: ps, c :: cs => (p = '_' || p = c) && fitsPattern ps cs
termination_by ps cs => (ps.length + cs.length)

/-- A value is a text that fits a pattern. -/
def Cell.isLike (pattern : String) (folded : Bool) : Cell → Cell
  | .text s =>
    let fold (cs : List Char) : List Char := if folded then cs.map Char.toLower else cs
    .bool (fitsPattern (fold pattern.toList) (fold s.toList))
  | _ => .null

/-! ## Aggregates -/

/-- The value that comes first in an order; missing values do not count. -/
def extreme (wanted : Ordering) (cells : List Cell) : Cell :=
  cells.foldl (fun best c =>
    if c.isNull then best
    else if best.isNull then c
    else if c.compare? best = some wanted then c else best) .null

/-- The value is a word that is no number. -/
def Cell.isNaN : Cell → Bool
  | .float x => x.isNaN
  | _ => false

/-- The values that count for the least and the greatest one: words that are no number count only
if there is nothing else. -/
def comparableCells (cells : List Cell) : List Cell :=
  let present := cells.filter fun c => !c.isNull
  if present.all Cell.isNaN then present else present.filter fun c => !c.isNaN

/-- The sum of values in a type; those that are missing do not count. -/
def sumOf (d : Dtype) (cells : List Cell) : Cell :=
  match d.kind with
  | .nothing => .null
  | _ =>
    (cells.filter fun c => !c.isNull).foldl (fun total c => Arithmetic.add.onCells d total c)
      (d.fit (.int 0))

/-- The mean of values in a type. -/
def meanOf (d : Dtype) (cells : List Cell) : Cell :=
  let present := cells.filter fun c => !c.isNull
  if present.isEmpty then .null
  else
    d.fit (Arithmetic.div.onCells .f64 (sumOf .f64 present) (.int present.length))

/-- The value of an aggregate in its type. -/
def Aggregate.value (f : Aggregate) (d : Dtype) (cells : List Cell) : Cell :=
  match f with
  | count => .int (cells.filter fun c => !c.isNull).length
  | sum => sumOf d cells
  | min => extreme .lt (comparableCells cells)
  | max => extreme .gt (comparableCells cells)
  | mean => meanOf d cells

/-! ## Expressions -/

/-- The values of an expression: one for each row, or one for all. -/
inductive Values where
  | each (cells : List Cell)
  | same (c : Cell)

namespace Values

/-- The values with a function applied. -/
def map (f : Cell → Cell) : Values → Values
  | each cells => each (cells.map f)
  | same c => same (f c)

/-- The values of an operation. -/
def map₂ (f : Cell → Cell → Cell) : Values → Values → Values
  | each as, each bs => each (List.zipWith f as bs)
  | each as, same b => each (as.map (f · b))
  | same a, each bs => each (bs.map (f a))
  | same a, same b => same (f a b)

/-- All values; a single one counts once. -/
def list : Values → List Cell
  | each cells => cells
  | same c => [c]

/-- A value for each of some rows. -/
def spread (height : Nat) : Values → List Cell
  | each cells => cells
  | same c => List.replicate height c

end Values

namespace Expr

/-- The values of an expression over rows. -/
def values (columns : FrameSchema) (rows : List (List Cell)) : Expr → Values
  | column name =>
    match Table.indexOf? columns name with
    | some i => .each (rows.map (Table.cellAt · i))
    | none => .same .null
  | literal l => .same l.cell
  | arithmetic op a b =>
    let d := (arithmetic op a b).typeIn columns
    (a.values columns rows).map₂ (op.onCells d) (b.values columns rows)
  | compare c a b =>
    let d := (comparedAs (a.operandIn columns) (b.operandIn columns)).getD .null
    ((a.values columns rows).map ((a.typeIn columns).convert d)).map₂ c.onCells
      ((b.values columns rows).map ((b.typeIn columns).convert d))
  | both a b => (a.values columns rows).map₂ bothTrue (b.values columns rows)
  | either a b => (a.values columns rows).map₂ eitherTrue (b.values columns rows)
  | negate a => (a.values columns rows).map fun c => Cell.ofTruth? (c.truth?.map not)
  | isNull a => (a.values columns rows).map fun c => .bool c.isNull
  | isPresent a => (a.values columns rows).map fun c => .bool !c.isNull
  | among a items => (a.values columns rows).map (Cell.isAmong (items.map Literal.cell))
  | like a pattern folded => (a.values columns rows).map (Cell.isLike pattern folded)
  | rowCount => .same (.int rows.length)
  | overall f a =>
    let d := (overall f a).typeIn columns
    .same (f.value d (a.values columns rows).list)

/-- The values of an expression for each of the rows. -/
def cells (columns : FrameSchema) (rows : List (List Cell)) (e : Expr) : List Cell :=
  (e.values columns rows).spread rows.length

end Expr

/-! ## Rows -/

/-- The rows for which a condition is true. -/
def keepTrue (columns : FrameSchema) (condition : Expr) (rows : List (List Cell)) :
    List (List Cell) :=
  ((rows.zip (condition.cells columns rows)).filter fun r => r.2.truth? = some true).map Prod.fst

/-! ## Order -/

/-- What rows are sorted by.  Missing values stand together, at the end or at the beginning. -/
structure SortKey where
  expr : Expr
  descending : Bool
  nullsLast : Bool
deriving DecidableEq, Repr

/-- The order of two values to sort by. -/
def SortKey.order (k : SortKey) (a b : Cell) : Ordering :=
  match a.isNull, b.isNull with
  | true, true => .eq
  | true, false => if k.nullsLast then .gt else .lt
  | false, true => if k.nullsLast then .lt else .gt
  | false, false =>
    let o := (a.compare? b).getD .eq
    if k.descending then o.swap else o

/-- The order of two lists of values, one for each key; the first that differ decide. -/
def orderOf : List SortKey → List Cell → List Cell → Ordering
  | k :: ks, a :: as, b :: bs => (k.order a b).then (orderOf ks as bs)
  | _, _, _ => .eq

/-- Sorts rows; those with equal values keep their order. -/
def sortRows (columns : FrameSchema) (keys : List SortKey) (rows : List (List Cell)) :
    List (List Cell) :=
  let values := Table.rowsOf rows.length (keys.map fun k => k.expr.cells columns rows)
  let sorted := (values.zip rows).mergeSort fun a b => orderOf keys a.1 b.1 ≠ .gt
  sorted.map Prod.snd

/-- The rows without those that are equal to an earlier one. -/
def distinctRows (rows : List (List Cell)) : List (List Cell) :=
  let coded := rows.map fun row => (Cell.codes row, row)
  (coded.foldl (fun (seen : List (List UInt8) × List (List Cell)) (r : List UInt8 × List Cell) =>
    if seen.1.contains r.1 then seen else (r.1 :: seen.1, r.2 :: seen.2)) ([], [])).2.reverse

end Lineage
