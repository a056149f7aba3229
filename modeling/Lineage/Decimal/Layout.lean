import Lineage.Decimal.Shortest
/-
  Decimal layouts: how the digits of a double are set on the line.

  Three layouts are in use.  `Layout.plain` never shows an exponent and is what a reader sees in
  a prompt; `Layout.described` is the one inside descriptions of values, and `Layout.exchange`
  the one of exchanged text.  The last two write small and large numbers with an exponent and
  keep a `.0`; they differ in the plus sign of the exponent and in the choice between two decimals
  that are equally short and equally near.
-/

namespace Lineage.Decimal

/-- What a layout decides. -/
structure Layout where
  /-- The powers of ten `k` for which a number `d.ddd · 10^k` is written without an exponent. -/
  positional : Int → Bool
  /-- A whole number written without an exponent ends in `.0`. -/
  pointZero : Bool
  /-- A positive exponent carries its sign. -/
  plusSign : Bool
  /-- Of two shortest decimals that are equally near, the one with the greater digits is written,
  instead of the one whose last digit is even. -/
  tieUp : Bool

/-- Never an exponent, and whole numbers without a point: `4`, `2.5`, `0.0000001`. -/
def Layout.plain : Layout := ⟨fun _ => true, false, false, true⟩

/-- Between `1e-4` and `1e16` without an exponent; `4.0`, `1e16`, `1e-5`. -/
def Layout.described : Layout := ⟨fun k => -4 ≤ k && k < 16, true, false, true⟩

/-- Between `1e-5` and `1e16` without an exponent; `4.0`, `1e+16`, `1e-6`. -/
def Layout.exchange : Layout := ⟨fun k => -5 ≤ k && k < 16, true, true, false⟩

/-- A run of zeros. -/
def zeros (n : Nat) : List Char := List.replicate n '0'

/-- The decimal digits of a natural number. -/
def digitChars (n : Nat) : List Char := Nat.toDigits 10 n

/-- The digits with a point, and no exponent. -/
def positionalText (pointZero : Bool) (d : Numeral) : List Char :=
  let ds := digitChars d.digits
  if 0 ≤ d.exponent then
    ds ++ zeros d.exponent.toNat ++ (if pointZero then ['.', '0'] else [])
  else
    let places := (-d.exponent).toNat
    let padded := zeros (places + 1 - ds.length) ++ ds
    padded.take (padded.length - places) ++ '.' :: padded.drop (padded.length - places)

/-- One digit, a point if more follow, the rest, and the exponent. -/
def scientificText (plusSign : Bool) (d : Numeral) : List Char :=
  let ds := digitChars d.digits
  let k := d.exponent + (ds.length - 1 : Nat)
  let tail := ds.drop 1
  let point := if tail.isEmpty then [] else '.' :: tail
  let sign := if k < 0 then ['-'] else if plusSign then ['+'] else []
  ds.take 1 ++ point ++ 'e' :: sign ++ digitChars k.natAbs

/-- The text of a decimal without a sign. -/
def Layout.unsigned (l : Layout) (d : Numeral) : List Char :=
  let k := d.exponent + (digitChars d.digits).length - 1
  if d.digits = 0 || l.positional k then positionalText l.pointZero d
  else scientificText l.plusSign d

/-- Whether the upper of two decimals that are equally near is taken, told by the digits of the
lower one. -/
def Layout.tie (l : Layout) (below : Nat) : Bool := l.tieUp || tieToEven below

/-- The text of a double.  The negative zero keeps its sign; the words that are no finite number
are `NaN`, `inf` and `-inf`. -/
def Layout.text (l : Layout) (x : Binary64) : String :=
  if x.isNaN then "NaN"
  else
    let sign := if x.isNegative then ['-'] else []
    let body := if x.isInfinite then ['i', 'n', 'f'] else l.unsigned (shortest l.tie x)
    String.ofList (sign ++ body)

end Lineage.Decimal
