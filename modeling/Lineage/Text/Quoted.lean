import Lineage.Text.Printable
/-
  Quoted text, as descriptions of values show it.

  Between double quotes stand the characters of the text; the quote, the backslash and the three
  blanks that end or move a line are escaped with a backslash and a letter, the null character is
  `\0`, and a character without a visible form is written by its code point in hexadecimal.
-/

namespace Lineage.Text

/-- The hexadecimal digits of a number, in small letters. -/
def hexDigits (n : Nat) : List Char := Nat.toDigits 16 n

/-- A character between quotes. -/
def quotedChar (c : Char) : List Char :=
  if c = '"' then ['\\', '"']
  else if c = '\\' then ['\\', '\\']
  else if c = '\n' then ['\\', 'n']
  else if c = '\r' then ['\\', 'r']
  else if c = '\t' then ['\\', 't']
  else if c.toNat = 0 then ['\\', '0']
  else if isHidden c then ['\\', 'u', '\x7b'] ++ hexDigits c.toNat ++ ['\x7d']
  else [c]

/-- The text between quotes, with its escapes. -/
def quoted (s : String) : String :=
  String.ofList ('"' :: s.toList.flatMap quotedChar ++ ['"'])

/-- A value that may be missing: `Some(…)` around its description, or `None`. -/
def optional {α : Type} (describe : α → String) : Option α → String
  | none => "None"
  | some a => "Some(" ++ describe a ++ ")"

/-- A list of quoted texts in brackets. -/
def quotedList (texts : List String) : String :=
  "[" ++ String.intercalate ", " (texts.map quoted) ++ "]"

end Lineage.Text
