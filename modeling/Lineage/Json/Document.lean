import Lineage.Json.Scalar
/-
  JSON texts as trees that remember where everything stands.

  A document is what can be made out in a text from left to right.  Where the text stops being
  JSON the tree ends in a `broken` leaf, or in a `broken` ending of an array or object, that says
  what is wrong there; everything to the left of it is in the tree.  So a reader that goes through
  the tree in order finds the first problem of the text, whether it is a fault of the text or a
  value of the wrong kind, and a part that nobody asks for is only skipped.

  Most faults are there twice: as one who reads the part would report it, and as one who skips it
  would.  Some parts are faulty only for a reader, and then the tree goes on behind them.
-/

namespace Lineage.Json

/-- The name of a member, and what follows it once blanks are skipped. -/
structure Key where
  text : Except Trouble String
  gap : List Char

/-- How an array or object ends. -/
inductive Ending where
  /-- With its bracket; what follows is given. -/
  | closed (stop : List Char)
  /-- Not at all: the trouble for a reader and for one who skips. -/
  | broken (read skipped : Trouble)

/-- Reads the end of an array or object. -/
def Ending.read : Ending → Except Trouble Unit
  | .closed _ => .ok ()
  | .broken read _ => .error read

/-- Skips the end of an array or object. -/
def Ending.skip : Ending → Except Trouble Unit
  | .closed _ => .ok ()
  | .broken _ skipped => .error skipped

/-- What can be made out in a text.  Every part carries the text from its first character on, and
every complete one what follows it. -/
inductive Doc where
  | null (start stop : List Char)
  | bool (start : List Char) (b : Bool) (stop : List Char)
  | number (start : List Char) (value : Except Trouble Number) (stop : List Char)
  | text (start : List Char) (value : Except Trouble String) (stop : List Char)
  | array (start : List Char) (items : List Doc) (ending : Ending)
  | object (start : List Char) (members : List (Key × Doc)) (ending : Ending)
  | broken (start : List Char) (read skipped : Trouble)

namespace Doc

/-- The text from the first character of a part on; nothing where no part begins. -/
def start : Doc → List Char
  | null start _ | bool start _ _ | number start _ _ | text start _ _ | array start _ _
  | object start _ _ | broken start _ _ => start

/-- What follows a part, or the troubles it ends in. -/
def outcome : Doc → Except (Trouble × Trouble) (List Char)
  | null _ stop | bool _ _ stop | number _ _ stop | text _ _ stop => .ok stop
  | array _ _ (.closed stop) | object _ _ (.closed stop) => .ok stop
  | array _ _ (.broken r s) | object _ _ (.broken r s) | broken _ r s => .error (r, s)

/-! ## Making a document out of a text -/

/-- A leaf whose trouble is the same for every one. -/
def fault (start : List Char) (f : Fault) (p : Place) : Doc :=
  broken start (f.troubleAt p) (f.troubleAt p)

/-- An ending whose trouble is the same for every one. -/
def faultyEnding (f : Fault) (p : Place) : Ending := .broken (f.troubleAt p) (f.troubleAt p)

/-- A word: its first letter has been seen. -/
def ofWord (start word rest : List Char) (complete : List Char → Doc) : Doc :=
  match expectWord word rest with
  | .ok stop => complete stop
  | .error t => broken start t t

/-- A number, behind its sign if it has one. -/
def ofNumber (start : List Char) (negative : Bool) (rest : List Char) : Doc :=
  match scanNumber .badNumber rest with
  | .ok (parts, stop) => number start (parts.number negative stop) stop
  | .error skipped =>
    match scanNumber .endInValue rest with
    | .ok _ => broken start skipped skipped
    | .error read => broken start read skipped

/-- A text, behind its opening quote: what it says if it is read, and what follows it. -/
def scanText (rest : List Char) : Except (Trouble × Trouble) (Except Trouble String × List Char) :=
  match skipText rest with
  | .ok stop => .ok ((readText rest).map fun r => String.ofList r.1, stop)
  | .error skipped =>
    match readText rest with
    | .ok _ => .error (skipped, skipped)
    | .error read => .error (read, skipped)

/-- A text as a part of the document. -/
def ofText (start rest : List Char) : Doc :=
  match scanText rest with
  | .ok (value, stop) => text start value stop
  | .error (read, skipped) => broken start read skipped

/-- What comes next in an array or object: another part, or its end. -/
inductive Next where
  | part (cs : List Char)
  | finish (e : Ending)

/-- What comes next in an array, at its beginning (`first`) or behind an item. -/
def nextItem (first : Bool) (cs : List Char) : Next :=
  match skipBlank cs with
  | [] => .finish (faultyEnding .endInArray (peeked []))
  | c :: rest =>
    if c = ']' then .finish (.closed rest)
    else if first then .part (c :: rest)
    else if c = ',' then
      match skipBlank rest with
      | [] => .finish (faultyEnding .endInValue (peeked []))
      | d :: after =>
        if d = ']' then
          .finish (.broken (Fault.trailingComma.troubleAt (peeked (d :: after)))
            (Fault.valueMissing.troubleAt (peeked (d :: after))))
        else .part (d :: after)
    else .finish (faultyEnding .arrayContinuation (peeked (c :: rest)))

/-- What comes next in an object, at its beginning or behind a member; a name is given from behind
its opening quote. -/
def nextMember (first : Bool) (cs : List Char) : Next :=
  match skipBlank cs with
  | [] => .finish (faultyEnding .endInObject (peeked []))
  | c :: rest =>
    if c = '\x7d' then .finish (.closed rest)
    else if first then
      if c = '"' then .part rest
      else .finish (faultyEnding .nameNotText (peeked (c :: rest)))
    else if c = ',' then
      match skipBlank rest with
      | [] => .finish (.broken (Fault.endInValue.troubleAt (peeked []))
          (Fault.endInObject.troubleAt (peeked [])))
      | d :: after =>
        if d = '"' then .part after
        else if d = '\x7d' then
          .finish (.broken (Fault.trailingComma.troubleAt (peeked (d :: after)))
            (Fault.nameNotText.troubleAt (peeked (d :: after))))
        else .finish (faultyEnding .nameNotText (peeked (d :: after)))
    else .finish (faultyEnding .objectContinuation (peeked (c :: rest)))

mutual

/-- The part that a text begins with.  The first argument bounds the depth of the recursion;
twice the length of the text is enough. -/
def value : Nat → List Char → Doc
  | 0, cs => fault cs .endInValue (here cs)
  | fuel + 1, cs =>
    match skipBlank cs with
    | [] => fault [] .endInValue (peeked [])
    | c :: rest =>
      let start := c :: rest
      if c = 'n' then ofWord start ['u', 'l', 'l'] rest (null start)
      else if c = 't' then ofWord start ['r', 'u', 'e'] rest (bool start true)
      else if c = 'f' then ofWord start ['a', 'l', 's', 'e'] rest (bool start false)
      else if c = '-' then ofNumber start true rest
      else if c.isDigit then ofNumber start false start
      else if c = '"' then ofText start rest
      else if c = '[' then
        let (items, ending) := itemsFrom fuel true rest
        array start items ending
      else if c = '\x7b' then
        let (members, ending) := membersFrom fuel true rest
        object start members ending
      else fault start .valueMissing (peeked start)

/-- The items of an array from here on, and how it ends. -/
def itemsFrom : Nat → Bool → List Char → List Doc × Ending
  | 0, _, cs => ([], faultyEnding .endInArray (here cs))
  | fuel + 1, first, cs =>
    match nextItem first cs with
    | .finish e => ([], e)
    | .part cs =>
      let item := value fuel cs
      match item.outcome with
      | .error (read, skipped) => ([item], .broken read skipped)
      | .ok stop =>
        let (items, ending) := itemsFrom fuel false stop
        (item :: items, ending)

/-- The members of an object from here on, and how it ends. -/
def membersFrom : Nat → Bool → List Char → List (Key × Doc) × Ending
  | 0, _, cs => ([], faultyEnding .endInObject (here cs))
  | fuel + 1, first, cs =>
    match nextMember first cs with
    | .finish e => ([], e)
    | .part cs =>
      match scanText cs with
      | .error (read, skipped) => ([], .broken read skipped)
      | .ok (name, stop) =>
        let gap := skipBlank stop
        let item :=
          match gap with
          | [] => fault [] .endInObject (peeked [])
          | c :: rest => if c = ':' then value fuel rest else fault [] .colonMissing (peeked gap)
        match item.outcome with
        | .error (read, skipped) => ([(⟨name, gap⟩, item)], .broken read skipped)
        | .ok stop =>
          let (members, ending) := membersFrom fuel false stop
          ((⟨name, gap⟩, item) :: members, ending)

end

/-- What can be made out in a text. -/
def ofChars (cs : List Char) : Doc := value (2 * cs.length + 2) cs

/-! ## Going through a document -/

/-- How deep arrays and objects may stand inside each other where they are read, plus one. -/
def depthLimit : Nat := 128

/-- The depth that is left inside an array or object. -/
def deeper (start : List Char) (depth : Nat) : Except Trouble Nat :=
  if depth ≤ 1 then .error (Fault.tooDeep.troubleAt (peeked start)) else .ok (depth - 1)

mutual

/-- Reads a part as a value. -/
def json (depth : Nat) : Doc → Except Trouble Json
  | null _ _ => .ok .null
  | bool _ b _ => .ok (.bool b)
  | number _ value _ => value.map .number
  | text _ value _ => value.map .text
  | array start items ending => do
    let items ← jsonItems (← deeper start depth) items
    ending.read
    return .array items
  | object start members ending => do
    let members ← jsonMembers (← deeper start depth) members
    ending.read
    return .object members
  | broken _ read _ => .error read

/-- Reads the items of an array. -/
def jsonItems (depth : Nat) : List Doc → Except Trouble (List Json)
  | [] => .ok []
  | d :: rest => do return (← json depth d) :: (← jsonItems depth rest)

/-- Reads the members of an object. -/
def jsonMembers (depth : Nat) : List (Key × Doc) → Except Trouble (List (String × Json))
  | [] => .ok []
  | (key, d) :: rest => do
    let name ← key.text
    return (name, ← json depth d) :: (← jsonMembers depth rest)

end

mutual

/-- Skips a part. -/
def skip : Doc → Except Trouble Unit
  | null _ _ | bool _ _ _ | number _ _ _ | text _ _ _ => .ok ()
  | array _ items ending => do
    skipItems items
    ending.skip
  | object _ members ending => do
    skipMembers members
    ending.skip
  | broken _ _ skipped => .error skipped

/-- Skips the items of an array. -/
def skipItems : List Doc → Except Trouble Unit
  | [] => .ok ()
  | d :: rest => do
    skip d
    skipItems rest

/-- Skips the members of an object. -/
def skipMembers : List (Key × Doc) → Except Trouble Unit
  | [] => .ok ()
  | (_, d) :: rest => do
    skip d
    skipMembers rest

end

end Doc

/-! ## Whole texts -/

/-- Applies a reader to the value of a text; nothing but blanks may follow that value. -/
def readWith {α : Type} (reader : Doc → Except Trouble α) (text : String) : Except Error α :=
  let whole := text.toList
  let doc := Doc.ofChars whole
  let result : Except Trouble α := do
    let a ← reader doc
    match doc.outcome with
    | .error (read, _) => .error read
    | .ok stop =>
      if (skipBlank stop).isEmpty then return a
      else .error (Fault.trailingText.troubleAt (peeked (skipBlank stop)))
  result.mapError (Trouble.report whole)

/-- The value of a JSON text. -/
def parse (text : String) : Except Error Json := readWith (Doc.json Doc.depthLimit) text

end Lineage.Json
