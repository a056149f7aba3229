import Lineage.Decimal.Layout
import Lineage.Json.Basic
import Lineage.Text.Hex
/-
  JSON values as text, without any blanks.

  Inside a text only what has to be escaped is: the quote, the backslash and the control
  characters, five of them by a letter and the others by their code point.  A double is written
  with the digits of `Decimal.Layout.exchange`; the doubles that are no finite number have no
  form in JSON and are written as `null`.
-/

namespace Lineage.Json

/-- A character between quotes. -/
def escaped (c : Char) : List Char :=
  if c = '"' then ['\\', '"']
  else if c = '\\' then ['\\', '\\']
  else if c = '\n' then ['\\', 'n']
  else if c = '\r' then ['\\', 'r']
  else if c = '\t' then ['\\', 't']
  else if c.toNat = 8 then ['\\', 'b']
  else if c.toNat = 12 then ['\\', 'f']
  else if c.toNat < 32 then
    ['\\', 'u', '0', '0', Text.hexDigit (c.toNat / 16), Text.hexDigit (c.toNat % 16)]
  else [c]

/-- A text between quotes. -/
def printText (s : String) : List Char := '"' :: s.toList.flatMap escaped ++ ['"']

/-- A number.  Doubles that are not finite are written as `null`. -/
def Number.print : Number → List Char
  | .unsigned n => Nat.toDigits 10 n.toNat
  | .negative n => '-' :: Nat.toDigits 10 n.toInt.natAbs
  | .float x => if x.isFinite then (Decimal.Layout.exchange.text x).toList else "null".toList

mutual

/-- The text of a value. -/
def print : Json → List Char
  | .null => "null".toList
  | .bool b => if b then "true".toList else "false".toList
  | .number n => n.print
  | .text s => printText s
  | .array items => '[' :: printItems items ++ [']']
  | .object members => '\x7b' :: printMembers members ++ ['\x7d']

/-- The items of an array, parted by commas. -/
def printItems : List Json → List Char
  | [] => []
  | [j] => print j
  | j :: rest => print j ++ ',' :: printItems rest

/-- The members of an object, parted by commas. -/
def printMembers : List (String × Json) → List Char
  | [] => []
  | [(name, j)] => printText name ++ ':' :: print j
  | (name, j) :: rest => printText name ++ ':' :: print j ++ ',' :: printMembers rest

end

/-- The text of a value, as a string. -/
def render (j : Json) : String := String.ofList j.print

end Lineage.Json
