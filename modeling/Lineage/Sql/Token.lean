/-
  Words, names, numbers, texts and signs of queries.

  A name stands between double or slanted quotes, a text between single ones, and a quote inside
  is written twice.  Comments go from two dashes to the end of the line, or stand between marks
  that may be nested.
-/

namespace Lineage.Sql

/-- A token. -/
inductive Token where
  | word (s : String)
  | name (s : String)
  | number (cs : List Char)
  | text (s : String)
  | sign (s : String)
deriving DecidableEq, Repr

namespace Token

/-- A character that a word begins with. -/
def startsWord (c : Char) : Bool :=
  c.isAlpha || c = '_' || c = '#' || c = '@' || 128 ≤ c.toNat

/-- A character that a word goes on with. -/
def continuesWord (c : Char) : Bool := startsWord c || c.isDigit || c = '$'

/-- The text up to a closing quote and what follows it. -/
def quotedPart (quote : Char) : List Char → Option (List Char × List Char)
  | [] => none
  | [c] => if c = quote then some ([], []) else none
  | c :: d :: rest =>
    if c = quote then
      if d = quote then (quotedPart quote rest).map fun (s, r) => (quote :: s, r)
      else some ([], d :: rest)
    else (quotedPart quote (d :: rest)).map fun (s, r) => (c :: s, r)

/-- What follows a comment that is open a number of times. -/
def skipComment : Nat → List Char → Option (List Char)
  | 0, cs => some cs
  | _ + 1, [] | _ + 1, [_] => none
  | depth + 1, c :: d :: rest =>
    if c = '*' && d = '/' then skipComment depth rest
    else if c = '/' && d = '*' then skipComment (depth + 2) rest
    else skipComment (depth + 1) (d :: rest)

/-- The characters of an exponent that a text begins with. -/
def exponentOf (cs : List Char) : List Char :=
  match cs with
  | c :: d :: rest =>
    if c = 'e' || c = 'E' then
      let signed := (d = '+' || d = '-') && (rest.head?.map Char.isDigit).getD false
      if signed then c :: d :: rest.takeWhile Char.isDigit
      else if d.isDigit then c :: (d :: rest).takeWhile Char.isDigit
      else []
    else []
  | _ => []

/-- The characters of a number that a text begins with. -/
def numberOf (cs : List Char) : List Char :=
  let whole := cs.takeWhile Char.isDigit
  let rest := cs.drop whole.length
  let fraction :=
    if rest.head? = some '.' then '.' :: (rest.drop 1).takeWhile Char.isDigit else []
  whole ++ fraction ++ exponentOf (rest.drop fraction.length)

/-- The signs of two characters. -/
def pairs : List String := ["<=", ">=", "<>", "!=", "=="]

/-- The sign that a text begins with. -/
def signOf (cs : List Char) : Option String :=
  let two := String.ofList (cs.take 2)
  if pairs.contains two then some two
  else
    match cs with
    | c :: _ => if "<>=+-*/%(),;.".contains c then some (String.singleton c) else none
    | [] => none

/-- The tokens of a text; there are none if something cannot be made out.  The first argument
bounds their number. -/
def scan : Nat → List Char → Option (List Token)
  | 0, _ | _, [] => some []
  | n + 1, c :: rest =>
    let cs := c :: rest
    if c.isWhitespace then scan n rest
    else if c = '-' && rest.head? = some '-' then scan n (rest.dropWhile (· ≠ '\n'))
    else if c = '/' && rest.head? = some '*' then do scan n (← skipComment 1 (rest.drop 1))
    else if startsWord c then
      let word := cs.takeWhile continuesWord
      (scan n (cs.drop word.length)).map (.word (String.ofList word) :: ·)
    else if c.isDigit || (c = '.' && (rest.head?.map Char.isDigit).getD false) then
      let number := numberOf cs
      (scan n (cs.drop number.length)).map (.number number :: ·)
    else if c = '\'' then do
      let (s, after) ← quotedPart '\'' rest
      return .text (String.ofList s) :: (← scan n after)
    else if c = '"' || c = '\x60' then do
      let (s, after) ← quotedPart c rest
      return .name (String.ofList s) :: (← scan n after)
    else do
      let s ← signOf cs
      return .sign s :: (← scan n (cs.drop s.length))

/-- The tokens of a text. -/
def ofText (text : String) : Option (List Token) :=
  let cs := text.toList
  scan cs.length cs

/-- The token is a keyword, in small or capital letters. -/
def isKeyword (k : String) : Token → Bool
  | word s => s.toUpper = k
  | _ => false

end Token
end Lineage.Sql
