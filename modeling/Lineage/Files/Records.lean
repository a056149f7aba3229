import Lineage.Decimal.Layout
import Lineage.Decimal.Spelled
import Lineage.Failure
import Lineage.Files.Encoding
import Lineage.Json.Document
import Lineage.Table.Basic
/-
  Tables from JSON objects: one object for each row.

  The columns come in the order in which their names first appear; a row without a name has a
  missing value there.  A column of several kinds of values has the type that all of them can be
  turned into, which is text if nothing else is.

  The objects may stand in one document, which is read at once, or in one line each.  Lines are
  looked at before they are read, so a line may turn out not to fit the columns, and reading it is
  stricter with numbers and truth values.
-/

namespace Lineage.Files.Records

/-! ## Values -/

/-- A value.  A number is whole if it is written without a point and an exponent. -/
inductive Item where
  | null
  | bool (b : Bool)
  | int (n : Int)
  | float (x : Binary64)
  | text (s : String)
  | list (items : List Item)
  | object (members : List (String × Item))
deriving Inhabited

/-- A character of a number. -/
def inNumber (c : Char) : Bool := c.isDigit || "+-.eE".contains c

/-- The number that a text begins with; it must not be too large for a double, or for 64 bits if it
is whole. -/
def numberOf (start : List Char) : Option Item :=
  let cs := start.takeWhile inNumber
  if Decimal.isWhole cs then
    let n := Decimal.intOf cs
    if -(2 ^ 63 : Int) ≤ n && n < (2 ^ 64 : Int) then some (.int n) else none
  else
    let x := (Decimal.Spelling.of cs).value
    if x.isFinite then some (.float x) else none

/-- The end of an array or object is there. -/
def isClosed : Json.Ending → Bool
  | .closed _ => true
  | .broken _ _ => false

mutual

/-- A part of a document as a value. -/
def itemOf : Json.Doc → Option Item
  | .null _ _ => some .null
  | .bool _ b _ => some (.bool b)
  | .number start _ _ => numberOf start
  | .text _ value _ => value.toOption.map .text
  | .array _ items ending => if isClosed ending then (itemsOf items).map .list else none
  | .object _ members ending => if isClosed ending then (membersOf members).map .object else none
  | .broken _ _ _ => none

/-- Parts of a document as values. -/
def itemsOf : List Json.Doc → Option (List Item)
  | [] => some []
  | d :: rest => do return (← itemOf d) :: (← itemsOf rest)

/-- Members of a document as members. -/
def membersOf : List (Json.Key × Json.Doc) → Option (List (String × Item))
  | [] => some []
  | (key, d) :: rest => do return (← key.text.toOption, ← itemOf d) :: (← membersOf rest)

end

/-- The text is not one of objects, or not JSON. -/
def unreadable : Failure := .engine .computation "the text does not hold objects"

/-- The value of a text. -/
def valueOf (cs : List Char) : Except Failure Item :=
  let doc := Json.Doc.ofChars cs
  match itemOf doc, doc.outcome with
  | some item, .ok stop => if (Json.skipBlank stop).isEmpty then .ok item else .error unreadable
  | _, _ => .error unreadable

/-- One row: the members of an object. -/
abbrev Row := List (String × Item)

/-- A value as a row.  Nothing at all is a row without values. -/
def rowOf : Item → Except Failure Row
  | .object members => .ok members
  | .null => .ok []
  | _ => .error unreadable

/-! ## Types -/

/-- Values of these types do not stand in one column. -/
def apart (a b : Dtype) : Failure :=
  .engine .schema ("cannot combine " ++ a.text ++ " and " ++ b.text)

/-- The type that values of two types can be turned into. -/
def join : Dtype → Dtype → Except Failure Dtype
  | .null, d | d, .null => .ok d
  | .str, _ | _, .str => .ok .str
  | .list a, .list b => (join a b).map .list
  | .bool, .bool => .ok .bool
  | .i64, .i64 | .bool, .i64 | .i64, .bool => .ok .i64
  | .f64, .f64 | .f64, .i64 | .i64, .f64 | .f64, .bool | .bool, .f64 => .ok .f64
  | .record fields, .record _ => .ok (.record fields)
  | a, b => .error (apart a b)

mutual

/-- The type of a value. -/
def typeOf : Item → Except Failure Dtype
  | .null => .ok .null
  | .bool _ => .ok .bool
  | .int _ => .ok .i64
  | .float _ => .ok .f64
  | .text _ => .ok .str
  | .list items => (typeOfAll items).map .list
  | .object members => (typesOf members).map .record

/-- The type that all values can be turned into. -/
def typeOfAll : List Item → Except Failure Dtype
  | [] => .ok .null
  | item :: rest => do join (← typeOf item) (← typeOfAll rest)

/-- The types of the members of an object. -/
def typesOf : List (String × Item) → Except Failure (List (String × Dtype))
  | [] => .ok []
  | (name, item) :: rest => do return (name, ← typeOf item) :: (← typesOf rest)

end

/-- The names of all rows, each where it first appears. -/
def names (rows : List Row) : List String :=
  rows.foldl (fun seen row =>
    row.foldl (fun seen m => if seen.contains m.1 then seen else seen ++ [m.1]) seen) []

/-- The value of a row under a name. -/
def valueAt (row : Row) (name : String) : Item := (row.lookup name).getD .null

/-- The number of rows that are looked at. -/
def lookedAt : Nat := 100

/-- The columns of rows, told by the first of them. -/
def columnsOf (rows : List Row) : Except Failure FrameSchema :=
  let rows := rows.take lookedAt
  (names rows).mapM fun name => do return (name, ← typeOfAll (rows.map fun row => valueAt row name))

/-! ## Cells -/

/-- A value does not fit its column. -/
def misfit (d : Dtype) : Failure := .engine .computation ("a value is no " ++ d.text)

/-- The text of a number. -/
def floatText (x : Binary64) : String := Decimal.Layout.plain.text x

mutual

/-- The text of a value. -/
def Item.print : Item → String
  | .null => "null"
  | .bool b => if b then "true" else "false"
  | .int n => toString n
  | .float x => floatText x
  | .text s => "\"" ++ s ++ "\""
  | .list items => "[" ++ String.intercalate ", " (printAll items) ++ "]"
  | .object members => "\x7b" ++ String.intercalate ", " (printMembers members) ++ "\x7d"

/-- The texts of values. -/
def printAll : List Item → List String
  | [] => []
  | item :: rest => item.print :: printAll rest

/-- The texts of members. -/
def printMembers : List (String × Item) → List String
  | [] => []
  | (name, item) :: rest => ("\"" ++ name ++ "\": " ++ item.print) :: printMembers rest

end

/-- A whole number of 64 bits.  In a document another one is missing. -/
def wholeCell (inLine : Bool) (n : Int) : Except Failure Cell :=
  if -(2 ^ 63 : Int) ≤ n && n < (2 ^ 63 : Int) then .ok (.int n)
  else if inLine then .error (misfit .i64)
  else .ok .null

mutual

/-- A value, turned into a value of a type.  Truth values count as numbers in a document, but not in
a line; a line turns lists into texts, which a document does not.  Of objects inside of objects
the values are not kept. -/
def cellOf (inLine : Bool) : Dtype → Item → Except Failure Cell
  | _, .null => .ok .null
  | .null, _ => if inLine then .error (misfit .null) else .ok .null
  | .bool, .bool b => .ok (.bool b)
  | .i64, .int n => wholeCell inLine n
  | .i64, .float x => wholeCell inLine x.truncated
  | .i64, .bool b => if inLine then .error (misfit .i64) else .ok (.int b.toNat)
  | .f64, .int n => .ok (.float (.ofInt n))
  | .f64, .float x => .ok (.float x)
  | .f64, .bool b => if inLine then .error (misfit .f64) else .ok (.float (.ofNat b.toNat))
  | .str, .text s => .ok (.text s)
  | .str, .list items => if inLine then .ok (.text (Item.list items).print) else .error (misfit .str)
  | .str, .object members =>
    if inLine then .ok (.text (Item.object members).print) else .error (misfit .str)
  | .str, item => .ok (.text item.print)
  | .list d, .list items => (cellsOf inLine d items).map .list
  | .record _, .object _ => .ok .null
  | d, _ => .error (misfit d)

/-- Values, turned into values of a type. -/
def cellsOf (inLine : Bool) : Dtype → List Item → Except Failure (List Cell)
  | _, [] => .ok []
  | d, item :: rest => do return (← cellOf inLine d item) :: (← cellsOf inLine d rest)

end

/-! ## Documents -/

/-- The table of some rows.  A row has no names but those of the rows that are looked at.  A single
row without columns does not count. -/
def tableOf (rows : List Row) : Except Failure Table := do
  let columns ← columnsOf rows
  if rows.any fun row => row.any fun m => !columns.any (·.1 == m.1) then throw unreadable
  let cells ← rows.mapM fun row => columns.mapM fun c => cellOf false c.2 (valueAt row c.1)
  return ⟨columns, if columns.isEmpty && rows.length = 1 then [] else cells⟩

/-- The table in a text that holds one object or an array of objects. -/
def ofDocument (text : String) : Except Failure Table := do
  match ← valueOf (charsOf text) with
  | .list items => tableOf (← items.mapM rowOf)
  | .object members => tableOf [members]
  | _ => throw unreadable

/-! ## Lines -/

/-- The lines of a text that are not blank. -/
def lines (text : String) : List (List Char) :=
  ((charsOf text).splitOn '\n').filter fun line => !line.all Json.isBlank

/-- The columns of the objects in lines, told by the first of them. -/
def lineColumns (text : String) : Except Failure FrameSchema := do
  let looked := (lines text).take lookedAt
  if looked.isEmpty then throw unreadable
  columnsOf (← looked.mapM fun line => do rowOf (← valueOf line))

/-- The number of objects in lines. -/
def lineCount (text : String) : Nat := (lines text).length

/-- The members of an object in a line. -/
def lineRow (line : List Char) : Except Failure Row := do
  match ← valueOf line with
  | .object members => return members
  | _ => throw unreadable

/-- The rows of objects in lines; columns that are not needed are left without values. -/
def lineRows (expected : FrameSchema) (isNeeded : String → Bool) (text : String) :
    Except Failure (List (List Cell)) :=
  (lines text).mapM fun line => do
    let row ← lineRow line
    expected.mapM fun c =>
      if isNeeded c.1 then cellOf true c.2 (valueAt row c.1) else .ok .null

end Lineage.Files.Records
