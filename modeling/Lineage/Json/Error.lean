import Lineage.Json.Printer
import Lineage.Text.Quoted
/-
  What can be wrong with a JSON text, and where.

  A text can fail to be JSON (`Fault`), or it can be JSON and not describe a value of the kind
  that is wanted (`Complaint`).  Both are found while the text is read from left to right, and
  the first one found is reported.  The place of a trouble is the rest of the text behind it, so
  that no counting is needed while reading; line and column are worked out once, at the end.
-/

namespace Lineage.Json

/-- Ways in which a text fails to be JSON. -/
inductive Fault where
  | endInArray | endInObject | endInText | endInValue
  | colonMissing
  | arrayContinuation | objectContinuation
  | wordMisspelt
  | valueMissing
  | badEscape | badNumber | numberTooLarge
  | controlCharacter
  | nameNotText
  | loneSurrogate | surrogatePairCut
  | trailingComma | trailingText
  | tooDeep
deriving DecidableEq, Repr, Inhabited

/-- The wording of a fault. -/
def Fault.message : Fault → String
  | endInArray => "EOF while parsing a list"
  | endInObject => "EOF while parsing an object"
  | endInText => "EOF while parsing a string"
  | endInValue => "EOF while parsing a value"
  | colonMissing => "expected `:`"
  | arrayContinuation => "expected `,` or `]`"
  | objectContinuation => "expected `,` or `\x7d`"
  | wordMisspelt => "expected ident"
  | valueMissing => "expected value"
  | badEscape => "invalid escape"
  | badNumber => "invalid number"
  | numberTooLarge => "number out of range"
  | controlCharacter => "control character (\\u0000-\\u001F) found while parsing a string"
  | nameNotText => "key must be a string"
  | loneSurrogate => "lone leading surrogate in hex escape"
  | surrogatePairCut => "unexpected end of hex escape"
  | trailingComma => "trailing comma"
  | trailingText => "trailing characters"
  | tooDeep => "recursion limit exceeded"

/-- The text ended too early. -/
def Fault.isEnd : Fault → Bool
  | endInArray | endInObject | endInText | endInValue => true
  | _ => false

/-- What was found where something else was wanted. -/
inductive Found where
  | null
  | boolean (b : Bool)
  | number (n : Number)
  | text (s : String)
  | array
  | object
  /-- A name of an alternative without the value that belongs to it. -/
  | bareName

/-- The wording of what was found. -/
def Found.message : Found → String
  | null => "null"
  | boolean b => s!"boolean `{b}`"
  | number (.unsigned n) => s!"integer `{n.toNat}`"
  | number (.negative n) => s!"integer `{n.toInt}`"
  | number (.float x) => "floating point `" ++ Decimal.Layout.exchange.text x ++ "`"
  | text s => "string " ++ Text.quoted s
  | array => "sequence"
  | object => "map"
  | bareName => "unit variant"

/-- Ways in which a JSON value fails to be of the kind that is wanted. -/
inductive Complaint where
  | wrongKind (found : Found) (wanted : String)
  | wrongValue (found : Found) (wanted : String)
  | wrongLength (length : Nat) (wanted : String)
  | unknownAlternative (name : String) (known : List String)
  | memberMissing (name : String)
  | memberRepeated (name : String)

/-- The wording of a list of alternatives. -/
def oneOf : List String → String
  | [] => "there are no variants"
  | [a] => s!"expected `{a}`"
  | [a, b] => s!"expected `{a}` or `{b}`"
  | names => "expected one of " ++ String.intercalate ", " (names.map fun n => s!"`{n}`")

/-- The wording of a complaint. -/
def Complaint.message : Complaint → String
  | wrongKind found wanted => "invalid type: " ++ found.message ++ ", expected " ++ wanted
  | wrongValue found wanted => "invalid value: " ++ found.message ++ ", expected " ++ wanted
  | wrongLength length wanted => s!"invalid length {length}, expected {wanted}"
  | unknownAlternative name known => s!"unknown variant `{name}`, " ++ oneOf known
  | memberMissing name => s!"missing field `{name}`"
  | memberRepeated name => s!"duplicate field `{name}`"

/-- A fault or a complaint. -/
inductive Problem where
  | fault (f : Fault)
  | complaint (c : Complaint)

/-- The wording of a problem. -/
def Problem.message : Problem → String
  | fault f => f.message
  | complaint c => c.message

/-- How problems are sorted: the text is not JSON, it ended too early, or it is JSON and does not
describe the value that is wanted. -/
inductive Category where
  | malformed | unfinished | unfitting
deriving DecidableEq, Repr

/-- The sort of a problem. -/
def Problem.category : Problem → Category
  | fault f => if f.isEnd then .unfinished else .malformed
  | complaint _ => .unfitting

/-! ## Places -/

/-- A place in a text: some bytes into what follows it, but never past the end. -/
structure Place where
  rest : List Char
  ahead : Nat

/-- The place just before the rest of a text. -/
def here (rest : List Char) : Place := ⟨rest, 0⟩

/-- The place one byte into the rest of a text: where the next character has been looked at. -/
def peeked (rest : List Char) : Place := ⟨rest, 1⟩

/-- The length of a text in bytes. -/
def byteLength (cs : List Char) : Nat := cs.foldl (fun n c => n + c.utf8Size) 0

/-- The offset of a place in the text it belongs to. -/
def Place.offset (whole : List Char) (p : Place) : Nat :=
  min (byteLength whole) (byteLength whole - byteLength p.rest + p.ahead)

/-- Line and column of an offset.  Lines are counted from one; the column is the number of bytes
since the line began. -/
def position (whole : List Char) (offset : Nat) : Nat × Nat :=
  go whole 1 0 offset
where
  /-- Counts lines and columns on the way to the offset. -/
  go : List Char → Nat → Nat → Nat → Nat × Nat
    | [], line, column, _ => (line, column)
    | c :: rest, line, column, left =>
      if left < c.utf8Size then (line, column + left)
      else if c = '\n' then go rest (line + 1) 0 (left - 1)
      else go rest line (column + c.utf8Size) (left - c.utf8Size)

/-- A problem and its place.  A value that was taken in as a whole before it was examined has
lost its places. -/
structure Trouble where
  problem : Problem
  place : Option Place

/-- A fault at a place. -/
def Fault.troubleAt (f : Fault) (p : Place) : Trouble := ⟨.fault f, some p⟩

/-! ## Reports -/

/-- A problem with line and column, as it is reported. -/
structure Error where
  problem : Problem
  position : Option (Nat × Nat)

/-- The report of a trouble with a text. -/
def Trouble.report (whole : List Char) (t : Trouble) : Error :=
  ⟨t.problem, t.place.map fun p => position whole (p.offset whole)⟩

/-- The wording of a report. -/
def Error.message (e : Error) : String :=
  match e.position with
  | none => e.problem.message
  | some (line, column) => e.problem.message ++ s!" at line {line} column {column}"

end Lineage.Json
