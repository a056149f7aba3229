import Lineage.Decimal.Spelled
import Lineage.Sql.Token
import Lineage.Table.Expr
/-
  Statements of queries.

  A statement chooses rows and computes columns of one table.  Keywords may be written in small or
  capital letters; names of tables and columns are taken as they stand.

  How tightly an operation holds its operands together is a number (`strength`).  A term is read
  by its first operand, and then by the operations behind it that hold tighter than what stands
  in front of it.
-/

namespace Lineage.Sql

/-! ## Statements -/

/-- A part of a statement that has a value. -/
inductive Term where
  /-- A column, with the table that it is said to be in. -/
  | column (table : Option String) (name : String)
  | literal (l : Literal)
  | plus (a : Term)
  | minus (a : Term)
  | arithmetic (op : Arithmetic) (a b : Term)
  | compare (c : Comparison) (a b : Term)
  | both (a b : Term)
  | either (a b : Term)
  | negate (a : Term)
  | isNull (a : Term)
  | isTruth (b : Bool) (a : Term)
  | among (a : Term) (items : List Literal)
  | between (a low high : Term)
  | like (a pattern : Term) (folded : Bool)
  /-- The number of rows. -/
  | rowCount
  | overall (f : Aggregate) (a : Term)
deriving Repr

/-- A part of what is selected. -/
inductive Item where
  /-- All columns, with the table that they are said to be in. -/
  | all (table : Option String)
  | one (t : Term) (name : Option String)
deriving Repr

/-- What a result is sorted by. -/
structure Sorting where
  term : Term
  descending : Bool
  nullsLast : Option Bool
deriving Repr

/-- A table and the name that it has in the statement. -/
structure Place where
  table : String
  alias? : Option String
deriving Repr

/-- A statement. -/
structure Statement where
  distinct : Bool
  items : List Item
  /-- There may be no table at all. -/
  place : Option Place
  condition : Option Term
  order : List Sorting
  limit : Option Term
  offset : Option Term
deriving Repr

/-! ## Words and signs -/

/-- The words that begin or join parts of a statement. -/
def joints : List String :=
  ["WITH", "EXPLAIN", "ANALYZE", "SELECT", "WHERE", "GROUP", "SORT", "HAVING", "ORDER", "TOP",
   "LATERAL", "VIEW", "LIMIT", "OFFSET", "FETCH", "UNION", "EXCEPT", "INTERSECT", "MINUS",
   "CLUSTER", "DISTRIBUTE", "RETURNING", "VALUES", "FROM", "INTO", "END"]

/-- The words that join tables. -/
def tableJoints : List String :=
  ["ON", "JOIN", "INNER", "CROSS", "FULL", "LEFT", "RIGHT", "NATURAL", "USING", "OUTER", "SEMI",
   "ANTI", "SET", "QUALIFY", "WINDOW", "FOR", "TABLESAMPLE", "PARTITION", "PIVOT", "UNPIVOT"]

/-- The words that join operands. -/
def operators : List String :=
  ["AND", "OR", "NOT", "IS", "IN", "BETWEEN", "LIKE", "ILIKE", "AS", "BY", "ASC", "DESC", "NULLS"]

/-- A reader: what it makes of tokens, and those behind. -/
abbrev Reader (α : Type) := List Token → Option (α × List Token)

/-- Takes a keyword. -/
def keyword (k : String) : List Token → Option (List Token)
  | t :: rest => if t.isKeyword k then some rest else none
  | [] => none

/-- Takes keywords. -/
def keywords : List String → List Token → Option (List Token)
  | [], ts => some ts
  | k :: ks, ts => (keyword k ts).bind (keywords ks)

/-- Takes a sign. -/
def sign (s : String) : List Token → Option (List Token)
  | .sign t :: rest => if t = s then some rest else none
  | _ => none

/-- A name that is asked for. -/
def name : Reader String
  | .name s :: rest | .word s :: rest | .text s :: rest => some (s, rest)
  | _ => none

/-- A name that may be missing; some words are none. -/
def nameUnless (others : List String) : Reader String
  | .name s :: rest => some (s, rest)
  | .word s :: rest => if others.contains s.toUpper then none else some (s, rest)
  | _ => none

/-- A name of its own for a part of a statement, behind the word for it or not. -/
def ownName (others : List String) (ts : List Token) : Option (Option String × List Token) :=
  match keyword "AS" ts with
  | some ts => (name ts).map fun (n, ts) => (some n, ts)
  | none =>
    match nameUnless others ts with
    | some (n, ts) => some (some n, ts)
    | none => some (none, ts)

/-! ## Terms -/

/-- The literal of a number.  One with an exponent must have a point. -/
def numberOf (cs : List Char) : Option Literal :=
  if cs.contains '.' then (Decimal.float? cs).map .float
  else if Decimal.allDigits cs && Decimal.natOf cs < 2 ^ 63 then some (.int (Decimal.natOf cs))
  else none

/-- A value that stands for itself. -/
def literal : Reader Literal
  | .number cs :: rest => (numberOf cs).map fun l => (l, rest)
  | .text s :: rest => some (.text s, rest)
  | .word s :: rest =>
    match s.toUpper with
    | "NULL" => some (.null, rest)
    | "TRUE" => some (.bool true, rest)
    | "FALSE" => some (.bool false, rest)
    | _ => none
  | _ => none

/-- The opposite of a number. -/
def opposite? : Literal → Option Literal
  | .int n => some (.int (-n))
  | .float x => some (.float x.neg)
  | _ => none

/-- A value that stands for itself, with its sign. -/
def signedLiteral : Reader Literal
  | .sign "-" :: ts => do
    let (l, ts) ← literal ts
    return (← opposite? l, ts)
  | ts => literal ts

/-- The comparison that a sign stands for. -/
def comparison? : String → Option Comparison
  | "<" => some .lt
  | "<=" => some .le
  | ">" => some .gt
  | ">=" => some .ge
  | "=" | "==" => some .eq
  | "<>" | "!=" => some .ne
  | _ => none

/-- The arithmetic that a sign stands for. -/
def arithmetic? : String → Option Arithmetic
  | "+" => some .add
  | "-" => some .sub
  | "*" => some .mul
  | "/" => some .div
  | "%" => some .rem
  | _ => none

/-- The strength of operations that words stand for. -/
def wordStrength (s : String) : Nat :=
  match s.toUpper with
  | "OR" => 5
  | "AND" => 10
  | "IS" => 17
  | "LIKE" | "ILIKE" => 19
  | "BETWEEN" | "IN" => 20
  | _ => 0

/-- The strength of a negation. -/
def negationStrength : Nat := 15

/-- The strength of the operation that tokens begin with; nothing, if they begin with none. -/
def strength : List Token → Nat
  | .word s :: rest =>
    if s.toUpper = "NOT" then
      match rest with
      | .word t :: _ => if wordStrength t < 19 then 0 else wordStrength t
      | _ => 0
    else wordStrength s
  | .sign s :: _ =>
    if (comparison? s).isSome then 20
    else
      match arithmetic? s with
      | some .add | some .sub => 30
      | some _ => 40
      | none => 0
  | _ => 0

/-- A list has ended before these tokens. -/
def endsList : List Token → Bool
  | [] => true
  | .sign s :: _ => s = ")" || s = ";"
  | .word s :: _ => joints.contains s.toUpper
  | _ => false

/-- One or more parts with commas between.  A comma may stand behind the last part. -/
def separated {α : Type} (part : Reader α) : Nat → Reader (List α)
  | 0, _ => none
  | n + 1, ts => do
    let (a, ts) ← part ts
    match sign "," ts with
    | none => return ([a], ts)
    | some ts =>
      if endsList ts then return ([a], ts)
      else
        let (as, ts) ← separated part n ts
        return (a :: as, ts)

/-- The aggregate that a word stands for. -/
def aggregate? (s : String) : Option Aggregate :=
  match s.toUpper with
  | "COUNT" => some .count
  | "SUM" => some .sum
  | "MIN" => some .min
  | "MAX" => some .max
  | "AVG" => some .mean
  | _ => none

/-- A term, or its opposite. -/
def negateIf (negated : Bool) (t : Term) : Term := if negated then .negate t else t

mutual

/-- A term whose operations are stronger than a number.  The first argument bounds the depth of
the recursion. -/
def term : Nat → Nat → Reader Term
  | 0, _, _ => none
  | fuel + 1, least, ts => do
    let (a, ts) ← operand fuel ts
    operations fuel least a ts

/-- The first operand of a term. -/
def operand : Nat → Reader Term
  | 0, _ => none
  | fuel + 1, ts =>
    match ts with
    | .sign "(" :: rest => do
      let (a, rest) ← term fuel 0 rest
      return (a, ← sign ")" rest)
    | .sign "-" :: rest => (term fuel 40 rest).map fun (a, rest) => (.minus a, rest)
    | .sign "+" :: rest => (term fuel 40 rest).map fun (a, rest) => (.plus a, rest)
    | .name t :: .sign "." :: .name n :: rest | .name t :: .sign "." :: .word n :: rest
    | .word t :: .sign "." :: .name n :: rest | .word t :: .sign "." :: .word n :: rest =>
      some (.column (some t) n, rest)
    | .word s :: rest =>
      if s.toUpper = "NOT" then
        (term fuel negationStrength rest).map fun (a, rest) => (.negate a, rest)
      else
        match sign "(" rest, literal ts with
        | some rest, _ => aggregate fuel s rest
        | none, some (l, rest) => some (.literal l, rest)
        | none, none =>
          if (joints ++ operators).contains s.toUpper then none else some (.column none s, rest)
    | .name n :: rest => some (.column none n, rest)
    | ts => (literal ts).map fun (l, ts) => (.literal l, ts)

/-- An aggregate: the word for it has been read, and the bracket behind it. -/
def aggregate : Nat → String → Reader Term
  | 0, _, _ => none
  | fuel + 1, word, ts => do
    let f ← aggregate? word
    match sign "*" ts, sign ")" ts with
    | some ts, _ => if f = .count then return (.rowCount, ← sign ")" ts) else none
    | none, some ts => if f = .count then return (.rowCount, ts) else none
    | none, none =>
      let (a, ts) ← term fuel 0 ts
      return (.overall f a, ← sign ")" ts)

/-- The operations behind an operand that are stronger than a number. -/
def operations : Nat → Nat → Term → Reader Term
  | 0, _, _, _ => none
  | fuel + 1, least, a, ts =>
    if strength ts ≤ least then some (a, ts)
    else
      match operation fuel a ts with
      | some (a, ts) => operations fuel least a ts
      | none => none

/-- One operation behind an operand. -/
def operation : Nat → Term → Reader Term
  | 0, _, _ => none
  | fuel + 1, a, ts =>
    match ts with
    | .sign s :: rest => do
      let (b, rest) ← term fuel (strength ts) rest
      match comparison? s, arithmetic? s with
      | some c, _ => return (.compare c a b, rest)
      | none, some op => return (.arithmetic op a b, rest)
      | none, none => none
    | .word s :: rest =>
      match s.toUpper with
      | "OR" => (term fuel 5 rest).map fun (b, rest) => (.either a b, rest)
      | "AND" => (term fuel 10 rest).map fun (b, rest) => (.both a b, rest)
      | "IS" =>
        let (negated, rest) :=
          match keyword "NOT" rest with
          | some rest => (true, rest)
          | none => (false, rest)
        match literal rest with
        | some (.null, rest) => some (negateIf negated (.isNull a), rest)
        | some (.bool b, rest) => some (negateIf negated (.isTruth b a), rest)
        | _ => none
      | "NOT" => (condition fuel a rest).map fun (t, rest) => (.negate t, rest)
      | _ => condition fuel a ts
    | _ => none

/-- A condition on an operand that begins with a word. -/
def condition : Nat → Term → Reader Term
  | 0, _, _ => none
  | fuel + 1, a, ts =>
    match ts with
    | .word s :: rest =>
      match s.toUpper with
      | "IN" => do
        let (items, rest) ← separated signedLiteral rest.length (← sign "(" rest)
        return (.among a items, ← sign ")" rest)
      | "BETWEEN" => do
        let (low, rest) ← term fuel 20 rest
        let (high, rest) ← term fuel 20 (← keyword "AND" rest)
        return (.between a low high, rest)
      | "LIKE" => (term fuel 19 rest).map fun (p, rest) => (.like a p false, rest)
      | "ILIKE" => (term fuel 19 rest).map fun (p, rest) => (.like a p true, rest)
      | _ => none
    | _ => none

end

/-! ## Parts of a statement -/

/-- A part of what is selected. -/
def item (fuel : Nat) : Reader Item
  | .sign "*" :: rest => some (.all none, rest)
  | .word t :: .sign "." :: .sign "*" :: rest | .name t :: .sign "." :: .sign "*" :: rest =>
    some (.all (some t), rest)
  | ts => do
    let (t, ts) ← term fuel 0 ts
    let (n, ts) ← ownName (joints ++ operators) ts
    return (.one t n, ts)

/-- A part that may be missing. -/
def optional {α : Type} (lead : List Token → Option (List Token)) (part : Reader α) :
    Reader (Option α) := fun ts =>
  match lead ts with
  | none => some (none, ts)
  | some ts => (part ts).map fun (a, ts) => (some a, ts)

/-- A table. -/
def place : Reader Place := fun ts => do
  let (table, ts) ← name ts
  let (own, ts) ← ownName (joints ++ tableJoints ++ operators) ts
  return (⟨table, own⟩, ts)

/-- What a result is sorted by. -/
def sorting (fuel : Nat) : Reader Sorting := fun ts => do
  let (t, ts) ← term fuel 0 ts
  let (descending, ts) :=
    match keyword "DESC" ts, keyword "ASC" ts with
    | some ts, _ => (true, ts)
    | none, some ts => (false, ts)
    | none, none => (false, ts)
  match keywords ["NULLS", "FIRST"] ts, keywords ["NULLS", "LAST"] ts with
  | some ts, _ => return (⟨t, descending, some false⟩, ts)
  | none, some ts => return (⟨t, descending, some true⟩, ts)
  | none, none => return (⟨t, descending, none⟩, ts)

/-- How many rows are left out and kept at most. -/
structure Range where
  limit : Option Term
  offset : Option Term

/-- The range of rows: its two parts stand in any order, or in one with a comma. -/
def range (fuel : Nat) : Nat → Range → Reader Range
  | 0, r, ts => some (r, ts)
  | n + 1, r, ts =>
    match keywords ["LIMIT", "ALL"] ts, keyword "LIMIT" ts, keyword "OFFSET" ts with
    | some ts, _, _ => range fuel n r ts
    | none, some ts, _ => do
      let (a, ts) ← term fuel 0 ts
      match sign "," ts with
      | some ts => do
        let (b, ts) ← term fuel 0 ts
        range fuel n ⟨some b, some a⟩ ts
      | none => range fuel n { r with limit := some a } ts
    | none, none, some ts => do
      let (a, ts) ← term fuel 0 ts
      let ts := ((keyword "ROWS" ts).or (keyword "ROW" ts)).getD ts
      range fuel n { r with offset := some a } ts
    | none, none, none => some (r, ts)

/-- A statement and the tokens behind it. -/
def statement (fuel : Nat) : Reader Statement := fun ts => do
  let ts ← keyword "SELECT" ts
  let (distinct, ts) :=
    match keyword "DISTINCT" ts with
    | some ts => (true, ts)
    | none => (false, ((keyword "ALL" ts).getD ts))
  let (items, ts) ← separated (item fuel) ts.length ts
  let (place, ts) ← optional (keyword "FROM") place ts
  let (condition, ts) ← optional (keyword "WHERE") (term fuel 0) ts
  let (order, ts) ← optional (keywords ["ORDER", "BY"]) (separated (sorting fuel) ts.length) ts
  let (r, ts) ← range fuel 2 ⟨none, none⟩ ts
  return (⟨distinct, items, place, condition, order.getD [], r.limit, r.offset⟩, ts)

/-- The statement that a text holds.  Semicolons may stand before and behind it. -/
def Statement.ofText (text : String) : Option Statement := do
  let ts := (← Token.ofText text).dropWhile (· == .sign ";")
  let (s, rest) ← statement (4 * ts.length + 8) ts
  if rest.all (· == .sign ";") then some s else none

end Lineage.Sql
