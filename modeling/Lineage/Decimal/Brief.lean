import Lineage.Decimal.Layout
/-
  Brief texts of doubles: about nine characters at most, and digits beyond them are rounded away.

  Small whole numbers have one place behind the point.  A number whose full text has at most nine
  characters is written in full; a longer one has six places, or, if it is very small or large,
  an exponent and four places.
-/

namespace Lineage.Decimal

/-- The whole number nearest to the absolute value of a finite word times a power of ten, a half
going to the even neighbour. -/
def scaledNearest (x : Binary64) (power : Int) : Nat :=
  if 0 ≤ power then Binary64.roundHalfEven (x.ratio.1 * 10 ^ power.toNat) x.ratio.2
  else Binary64.roundHalfEven x.ratio.1 (x.ratio.2 * 10 ^ (-power).toNat)

/-- Six places, without zeros at the end but one behind the point. -/
def sixPlaces (x : Binary64) : List Char :=
  let padded := positionalText false ⟨scaledNearest x 6, -6⟩
  let trimmed := (padded.reverse.dropWhile (· = '0')).reverse
  if trimmed.getLast? = some '.' then trimmed ++ ['0'] else trimmed

/-- One place before the point, four behind it, and an exponent. -/
def fourPlaces (x : Binary64) : List Char :=
  let d := shortest Layout.plain.tie x
  let k := d.exponent + (digitChars d.digits).length - 1
  let digits := scaledNearest x (4 - k)
  let (digits, k) := if digits = 10 ^ 5 then (10 ^ 4, k + 1) else (digits, k)
  let ds := digitChars digits
  let sign := if k < 0 then ['-'] else []
  ds.take 1 ++ '.' :: ds.drop 1 ++ 'e' :: sign ++ digitChars k.natAbs

/-- A finite word is a whole number. -/
def isWholeNumber (x : Binary64) : Bool := x.ratio.1 % x.ratio.2 == 0

/-- The absolute value of a word is not above 999999. -/
def isModest (x : Binary64) : Bool := x.magnitude ≤ (Binary64.ofNat 999999).magnitude

/-- The absolute value of a word is not below a millionth. -/
def isNoticeable (x : Binary64) : Bool := (Binary64.ofDecimal false 1 (-6)).magnitude ≤ x.magnitude

/-- The brief text of a double. -/
def brief (x : Binary64) : String :=
  let full := Layout.plain.text x
  if !x.isFinite then full
  else
    let sign := if x.isNegative then ['-'] else []
    let whole := isWholeNumber x
    if whole && isModest x then full ++ ".0"
    else if 9 < full.length then
      String.ofList (sign ++ if isModest x && isNoticeable x then sixPlaces x else fourPlaces x)
    else if whole then String.ofList (sign ++ scientificText false (shortest Layout.plain.tie x))
    else full

end Lineage.Decimal
