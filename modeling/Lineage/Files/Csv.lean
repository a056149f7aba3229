import Lineage.Decimal.Spelled
import Lineage.Failure
import Lineage.Files.Encoding
import Lineage.Table.Basic
/-
  Tables from text with commas.

  The first line that is not blank names the columns.  A field that begins with a quote goes on to
  the next comma or line end that is not between quotes; a quote inside is written twice.  An empty
  field is a missing value, and an empty text is written as two quotes.

  A file is looked at before it is read: the type of a column is the narrowest that its fields in
  the first lines have, which are whole numbers, numbers, truth values, and else text.  Reading
  comes later and may find fields that do not fit.  It reads only the columns that are needed, so
  what stands in the others is not looked at.
-/

namespace Lineage.Files.Csv

/-! ## Lines -/

/-- Between quotes or not, behind a character. -/
def turn (inside : Bool) (c : Char) : Bool := if c = '"' then !inside else inside

/-- A line and what follows it. -/
structure Cut where
  line : List Char
  rest : List Char

/-- Cuts behind the first line end that is not between quotes. -/
def cutLine (inside : Bool) : List Char → Cut
  | [] => ⟨[], []⟩
  | c :: rest =>
    if c = '\n' && !inside then ⟨[], rest⟩
    else
      let cut := cutLine (turn inside c) rest
      ⟨c :: cut.line, cut.rest⟩

/-- The lines of a text.  The first argument bounds their number. -/
def lines : Nat → List Char → List (List Char)
  | 0, _ | _, [] => []
  | n + 1, cs =>
    let cut := cutLine false cs
    cut.line :: lines n cut.rest

/-- The number of line ends that are not between quotes. -/
def lineEnds (cs : List Char) : Nat :=
  (cs.foldl (fun (inside, ends) c =>
    (turn inside c, if c = '\n' && !inside then ends + 1 else ends)) (false, 0)).2

/-- The number of lines, told by their ends. -/
def lineCount (body : List Char) : Nat :=
  lineEnds body + (if body.isEmpty || body.getLast? = some '\n' then 0 else 1)

/-- A line without the first character of a line end of two. -/
def withoutReturn (line : List Char) : List Char :=
  if 1 < line.length && line.getLast? = some '\r' then line.dropLast else line

/-! ## Fields -/

/-- What stands behind a field. -/
inductive Mark where
  | comma | line | nothing
deriving DecidableEq

/-- A field as it is written, what stands behind it, and the text behind that. -/
structure Piece where
  chars : List Char
  mark : Mark
  rest : List Char

/-- Reads on in a field; `quoted` tells whether quotes count in it. -/
def readOn (quoted inside : Bool) : List Char → Piece
  | [] => ⟨[], .nothing, []⟩
  | c :: rest =>
    if c = ',' && !inside then ⟨[], .comma, rest⟩
    else if c = '\n' && !inside then ⟨[], .line, rest⟩
    else
      let p := readOn quoted (if quoted then turn inside c else false) rest
      { p with chars := c :: p.chars }

/-- Reads a field. -/
def readField (cs : List Char) : Piece := readOn (cs.head? = some '"') false cs

/-- The fields of a line.  The first argument bounds their number. -/
def fields : Nat → List Char → List (List Char)
  | 0, _ => []
  | n + 1, cs =>
    let p := readField cs
    match p.mark with
    | .comma => p.chars :: fields n p.rest
    | _ => [p.chars]

/-- The fields of a line. -/
def fieldsOf (line : List Char) : List (List Char) := fields (line.length + 1) line

/-- The field stands between quotes. -/
def isQuoted (field : List Char) : Bool := field.head? = some '"'

/-- What stands between the first and the last character. -/
def between (field : List Char) : List Char := (field.drop 1).dropLast

/-! ## The head of a file -/

/-- The text from the first line on that is not blank. -/
def skipBlank : Nat → List Char → List Char
  | 0, cs => cs
  | n + 1, cs =>
    let cut := cutLine false cs
    if cs.isEmpty then []
    else if cut.line.isEmpty || cut.line == ['\r'] then skipBlank n cut.rest
    else cs

/-- Names with a number behind those that have come before. -/
def distinctNames (seen : List String) : List String → List String
  | [] => []
  | name :: rest =>
    let count := seen.count name
    (if count = 0 then name else name ++ "_duplicated_" ++ toString (count - 1)) ::
      distinctNames (name :: seen) rest

/-- A name without quotes around it. -/
def nameOf (field : List Char) : String :=
  String.ofList (if isQuoted field then between field else field)

/-- The names of the columns, and the text behind them. -/
structure Parts where
  names : List String
  body : List Char

/-- The parts of a file. -/
def parts (text : String) : Except Failure Parts :=
  let cs := charsOf text
  let cs := skipBlank cs.length cs
  if cs.isEmpty then .error (.engine .noData "the file is empty")
  else
    let cut := cutLine false cs
    .ok ⟨distinctNames [] ((fieldsOf (withoutReturn cut.line)).map nameOf), cut.rest⟩

/-! ## Types -/

/-- A number with a point or an exponent, or a word for one that is not finite. -/
def isDecimal (field : List Char) : Bool :=
  let s := Decimal.Spelling.of field
  s.body == "inf".toList || s.body == "NaN".toList ||
    match s.fraction, s.exponent with
    | none, none => false
    | some [], none => Decimal.allDigits s.whole
    | some f, e => s.whole.all Char.isDigit && Decimal.allDigits f && (e.all Decimal.isSigned)
    | none, some e => Decimal.allDigits s.whole && Decimal.isSigned e

/-- A truth value. -/
def isTruth (field : List Char) : Bool :=
  Decimal.spells "true" field || Decimal.spells "false" field

/-- What a field says about the type of its column; an empty one says nothing. -/
def typeOfField (field : List Char) : Option Dtype :=
  if field.isEmpty then none
  else
    let inner := if isQuoted field then between field else field
    if isTruth inner then some .bool
    else if Decimal.isWhole inner then some .i64
    else if isDecimal inner then some .f64
    else some .str

/-- The narrowest type for two. -/
def widen (a b : Dtype) : Dtype :=
  match a, b with
  | .bool, .bool => .bool
  | .i64, .i64 => .i64
  | .f64, .f64 | .f64, .i64 | .i64, .f64 => .f64
  | _, _ => .str

/-- The type of a column with these fields. -/
def columnType (fields : List (List Char)) : Dtype :=
  match fields.filterMap typeOfField with
  | [] => .str
  | d :: ds => ds.foldl widen d

/-- The number of lines that are looked at. -/
def lookedAt : Nat := 100

/-- The columns of a file. -/
def columns (text : String) : Except Failure FrameSchema := do
  let p ← parts text
  let rows := (lines lookedAt p.body).map fun line => fieldsOf (withoutReturn line)
  return p.names.zipIdx.map fun (name, i) => (name, columnType (rows.map fun row => row.getD i []))

/-- The narrowest type for the columns of two files. -/
def widenFiles (a b : Dtype) : Dtype :=
  match a, b with
  | .bool, .i64 | .i64, .bool => .i64
  | .bool, .f64 | .f64, .bool => .f64
  | _, _ => widen a b

/-- The number of rows of a file. -/
def count (text : String) : Except Failure Nat := (parts text).map fun p => lineCount p.body

/-! ## Values -/

/-- A field does not fit its column. -/
def unfitField (field : List Char) : Failure :=
  .engine .computation ("could not read the field " ++ String.ofList field)

/-- A text with pairs of quotes made into one, and without quotes that stand alone. -/
def unescaped : List Char → List Char
  | '"' :: '"' :: rest => '"' :: unescaped rest
  | '"' :: rest => unescaped rest
  | c :: rest => c :: unescaped rest
  | [] => []

/-- The text of a field. -/
def textOf (field : List Char) : Except Failure Cell :=
  if isQuoted field then
    if 1 < field.length && field.getLast? = some '"' then
      .ok (.text (String.ofList (unescaped (between field))))
    else .error (unfitField field)
  else .ok (.text (String.ofList field))

/-- A whole number of 64 bits. -/
def whole? (cs : List Char) : Option Cell :=
  let n := Decimal.intOf cs
  if Decimal.isSigned cs && -(2 ^ 63 : Int) ≤ n && n < (2 ^ 63 : Int) then some (.int n) else none

/-- The number of a field, with blanks in front of it or not. -/
def numberOf (read : List Char → Option Cell) (field : List Char) : Except Failure Cell :=
  if field.isEmpty then .ok .null
  else
    match read field with
    | some c => .ok c
    | none =>
      let rest := field.dropWhile fun c => c = ' ' || c = '\t'
      if rest.isEmpty then .ok .null
      else
        match read rest with
        | some c => .ok c
        | none => .error (unfitField field)

/-- The truth value of a field. -/
def truthOf (field : List Char) : Except Failure Cell :=
  if field.isEmpty then .ok .null
  else if Decimal.spells "true" field then .ok (.bool true)
  else if Decimal.spells "false" field then .ok (.bool false)
  else .error (unfitField field)

/-- The value of a field in a column of a type. -/
def cellOf (d : Dtype) (written : List Char) : Except Failure Cell :=
  let field := if written.getLast? = some '\r' then written.dropLast else written
  let inner := if isQuoted field then between field else field
  if field.isEmpty then .ok .null
  else
    match d with
    | .i64 => numberOf whole? inner
    | .f64 => numberOf (fun cs => (Decimal.float? cs).map Cell.float) inner
    | .bool => truthOf inner
    | _ => textOf field

/-! ## Rows -/

/-- A column of a file: the type that is expected of its fields if it is needed. -/
abbrev Wanted := Option Dtype

/-- A row that has been read, and the text behind it. -/
structure Read where
  cells : List Cell
  rest : List Char

/-- A row has more fields than there are columns. -/
def tooManyFields : Failure := .engine .computation "a row has too many fields"

/-- Reads a row from the first of some columns on.  Behind the last one that is needed the rest of
the line is skipped; `strict` tells that there must not be one. -/
def readRow (strict : Bool) : List Wanted → List Char → Except Failure Read
  | [], cs => .ok ⟨[], (cutLine false cs).rest⟩
  | w :: ws, cs => do
    let p := readField cs
    let cell ← (w.map fun d => cellOf d p.chars).getD (.ok .null)
    match p.mark with
    | .comma =>
      if ws.any Option.isSome then
        let r ← readRow strict ws p.rest
        return ⟨cell :: r.cells, r.rest⟩
      else if strict && !p.rest.isEmpty then .error tooManyFields
      else return ⟨cell :: ws.map fun _ => .null, (cutLine false p.rest).rest⟩
    | _ => return ⟨cell :: ws.map fun _ => .null, p.rest⟩

/-- Reads all rows.  The first argument bounds their number. -/
def readRows (strict : Bool) (ws : List Wanted) : Nat → List Char → Except Failure (List (List Cell))
  | 0, _ | _, [] => .ok []
  | n + 1, cs => do
    let r ← readRow strict ws cs
    return r.cells :: (← readRows strict ws n r.rest)

/-- The rows of a file in which columns are expected, of which some are needed; the others are
left without values. -/
def rows (expected : FrameSchema) (isNeeded : String → Bool) (text : String) :
    Except Failure (List (List Cell)) := do
  let p ← parts text
  if expected.length < p.names.length then
    throw (.engine .schema "the file has more columns than expected")
  if let some c := expected.find? fun c => isNeeded c.1 && !p.names.contains c.1 then
    throw (.engine .columnMissing c.1)
  let wanted := p.names.map fun name => if isNeeded name then expected.lookup name else none
  let read ← readRows (wanted.all Option.isSome) wanted p.body.length p.body
  if read.length ≠ lineCount p.body then
    throw (.engine .computation "the quotes of the file do not match")
  -- the columns of the file may stand in another order than the expected ones
  let places := expected.map fun c => (p.names.findIdx? (· == c.1))
  return read.map fun row => places.map fun place =>
    (place.map (Table.cellAt row)).getD .null

end Lineage.Files.Csv
