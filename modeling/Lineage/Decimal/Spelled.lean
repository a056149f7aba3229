import Lineage.Decimal.Binary64
/-
  Numbers spelled in text.

  A spelled number has a sign, digits before and behind a point, and an exponent, of which much
  may be missing; infinities and the word that is no number are spelled by words.  Readers of
  tables differ in what they take for a number, so the parts are told apart here (`Spelling.of`)
  and each reader asks for the ones that it wants.
-/

namespace Lineage.Decimal

/-- Digits, and at least one. -/
def allDigits (cs : List Char) : Bool := !cs.isEmpty && cs.all Char.isDigit

/-- The number that digits spell. -/
def natOf (cs : List Char) : Nat := cs.foldl (fun n c => 10 * n + (c.toNat - '0'.toNat)) 0

/-- The integer that digits spell, with or without a sign in front. -/
def intOf (cs : List Char) : Int :=
  match cs with
  | '-' :: rest => -(natOf rest : Int)
  | '+' :: rest => natOf rest
  | _ => natOf cs

/-- Digits with a minus sign in front or not. -/
def isWhole (cs : List Char) : Bool :=
  match cs with
  | '-' :: rest => allDigits rest
  | _ => allDigits cs

/-- Digits with a sign in front or not. -/
def isSigned (cs : List Char) : Bool :=
  match cs with
  | '-' :: rest | '+' :: rest => allDigits rest
  | _ => allDigits cs

/-- The parts of a spelled number: its sign, what stands before and behind the point, and the
exponent. -/
structure Spelling where
  negative : Bool
  /-- All of it but the sign. -/
  body : List Char
  whole : List Char
  fraction : Option (List Char)
  exponent : Option (List Char)

/-- Cuts a text at the first of some characters, which is left out. -/
def cutAt (p : Char → Bool) (cs : List Char) : List Char × Option (List Char) :=
  let before := cs.takeWhile fun c => !p c
  (before, (cs.drop before.length).tail?)

namespace Spelling

/-- The parts of a text. -/
def of (cs : List Char) : Spelling :=
  let negative := cs.head? = some '-'
  let body := if negative || cs.head? = some '+' then cs.drop 1 else cs
  let (mantissa, exponent) := cutAt (fun c => c = 'e' || c = 'E') body
  let (whole, fraction) := cutAt (· = '.') mantissa
  ⟨negative, body, whole, fraction, exponent⟩

/-- The exponent is missing or a whole number. -/
def exponentFits (s : Spelling) : Bool :=
  match s.exponent with
  | none => true
  | some e => isSigned e

/-- Digits with a point among them or next to them, or none. -/
def mantissaFits (s : Spelling) : Bool :=
  match s.fraction with
  | none => allDigits s.whole
  | some f => (s.whole ++ f).all Char.isDigit && !(s.whole ++ f).isEmpty

/-- The text spells a number in digits. -/
def isNumber (s : Spelling) : Bool := s.mantissaFits && s.exponentFits

/-- The double nearest to the number. -/
def value (s : Spelling) : Binary64 :=
  let fraction := s.fraction.getD []
  let digits := s.whole ++ fraction
  let exponent : Int := (s.exponent.map intOf).getD 0 - fraction.length
  let bound : Int := 400 + digits.length
  -- beyond the bound every number is zero or infinite
  .ofDecimal s.negative (natOf digits) (max (-bound) (min bound exponent))

end Spelling

/-- The text spells a word, in small or capital letters. -/
def spells (word : String) (cs : List Char) : Bool := cs.map Char.toLower = word.toList

/-- The double nearest to the number that a text spells, in digits or by a word. -/
def float? (cs : List Char) : Option Binary64 :=
  let s := Spelling.of cs
  if s.isNumber then some s.value
  else if spells "nan" s.body then some .nan
  else if spells "inf" s.body || spells "infinity" s.body then some (.infinity s.negative)
  else none

end Lineage.Decimal
