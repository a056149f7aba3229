/-
  Binary floating point words of 64 bits, as exact numbers.

  A score, a confidence or a cell of a column of doubles is kept as its 64 bits.  No machine
  arithmetic is used: a finite word is a sign and the exact value `m · 2^e` with natural `m`, and
  a word is made from an exact quotient of naturals by rounding to the nearest word, a half going
  to the even neighbour (`Binary64.ofRatio`).  Products and quotients of words are therefore the
  exact ones, rounded once.

  Why `ofRatio` is right: it scales the quotient by a power of two so that its integer part has
  53 binary digits (fewer only at the least exponent), rounds that integer part, and lays the
  result on the scale of words.  Words of one sign are ordered like their bits, so a carry out of
  the 53 digits lands on the next exponent without a case of its own.
-/

-- Powers of numbers are the built-in ones, whatever algebra is imported beside them.
attribute [instance (10000), default_instance (20000)] instPowNat

namespace Lineage

/-- A double, by its 64 bits. -/
structure Binary64 where
  bits : UInt64
deriving DecidableEq, Repr, Inhabited

namespace Binary64

/-! ## The fields of a word -/

/-- The sign bit is set: negative numbers and the negative zero. -/
def isNegative (x : Binary64) : Bool := x.bits.toNat ≥ 2 ^ 63

/-- The word without its sign, as a natural number.  It grows with the absolute value. -/
def magnitude (x : Binary64) : Nat := x.bits.toNat % 2 ^ 63

/-- The magnitude of the infinities; above it lie the words that are no number. -/
def infiniteMagnitude : Nat := 2047 * 2 ^ 52

def isNaN (x : Binary64) : Bool := infiniteMagnitude < x.magnitude
def isInfinite (x : Binary64) : Bool := x.magnitude == infiniteMagnitude
def isFinite (x : Binary64) : Bool := x.magnitude < infiniteMagnitude
def isZero (x : Binary64) : Bool := x.magnitude == 0

/-- The word with the given sign and magnitude. -/
def ofMagnitude (negative : Bool) (magnitude : Nat) : Binary64 :=
  ⟨UInt64.ofNat (magnitude + if negative then 2 ^ 63 else 0)⟩

def zero : Binary64 := ofMagnitude false 0
def infinity (negative : Bool) : Binary64 := ofMagnitude negative infiniteMagnitude
def nan : Binary64 := ofMagnitude false (infiniteMagnitude + 2 ^ 51)

/-- The opposite number: the same magnitude with the other sign. -/
def neg (x : Binary64) : Binary64 := ofMagnitude (!x.isNegative) x.magnitude

/-! ## Exact values -/

/-- The whole number `m` of a finite word `m · 2^e`. -/
def significand (x : Binary64) : Nat :=
  let field := x.magnitude / 2 ^ 52
  let fraction := x.magnitude % 2 ^ 52
  if field = 0 then fraction else fraction + 2 ^ 52

/-- The exponent `e` of a finite word `m · 2^e`, counted from the least one, -1074. -/
def scale (x : Binary64) : Nat := x.magnitude / 2 ^ 52 - 1

/-- The absolute value of a finite word, as a quotient of naturals. -/
def ratio (x : Binary64) : Nat × Nat := (x.significand * 2 ^ x.scale, 2 ^ 1074)

/-! ## Rounding -/

/-- The whole number nearest to `num / den`, a half going to the even neighbour. -/
def roundHalfEven (num den : Nat) : Nat :=
  let q := num / den
  let r := num % den
  if 2 * r < den then q
  else if den < 2 * r then q + 1
  else q + q % 2

/-- How far the quotient `num / den`, in units of the least word, has to be scaled down by powers
of two until its integer part has at most 53 binary digits. -/
def shift (num den : Nat) : Nat := (num * 2 ^ 1074 / den).log2 - 52

/-- The magnitude of the word nearest to `num / den`: with the quotient scaled to 53 digits, each
step of the exponent is worth `2^52` magnitudes. -/
def magnitudeOfRatio (num den : Nat) : Nat :=
  let e := shift num den
  let magnitude := e * 2 ^ 52 + roundHalfEven (num * 2 ^ 1074) (den * 2 ^ e)
  min magnitude infiniteMagnitude

/-- The word nearest to `num / den` with the given sign; beyond the largest finite word it is an
infinity. -/
def ofRatio (negative : Bool) (num den : Nat) : Binary64 :=
  ofMagnitude negative (magnitudeOfRatio num den)

/-- The word nearest to a natural number. -/
def ofNat (n : Nat) : Binary64 := ofRatio false n 1

/-- The word nearest to an integer. -/
def ofInt (n : Int) : Binary64 := ofRatio (n < 0) n.natAbs 1

/-- The word nearest to `digits · 10^exponent`. -/
def ofDecimal (negative : Bool) (digits : Nat) (exponent : Int) : Binary64 :=
  match exponent with
  | .ofNat k => ofRatio negative (digits * 10 ^ k) 1
  | .negSucc k => ofRatio negative digits (10 ^ (k + 1))

/-- The product of two words, rounded once. -/
def mul (x y : Binary64) : Binary64 :=
  let negative := x.isNegative != y.isNegative
  if x.isNaN || y.isNaN then nan
  else if x.isInfinite || y.isInfinite then
    (if x.isZero || y.isZero then nan else infinity negative)
  else ofRatio negative (x.ratio.1 * y.ratio.1) (x.ratio.2 * y.ratio.2)

/-- The quotient of two words, rounded once. -/
def div (x y : Binary64) : Binary64 :=
  let negative := x.isNegative != y.isNegative
  if x.isNaN || y.isNaN then nan
  else if x.isInfinite then (if y.isInfinite then nan else infinity negative)
  else if y.isInfinite then ofMagnitude negative 0
  else if y.isZero then (if x.isZero then nan else infinity negative)
  else ofRatio negative (x.ratio.1 * y.ratio.2) (x.ratio.2 * y.ratio.1)

/-- The value of a finite word as a whole number of least words. -/
def units (x : Binary64) : Int :=
  let n : Int := x.ratio.1
  if x.isNegative then -n else n

/-- The sum of two words, rounded once. -/
def add (x y : Binary64) : Binary64 :=
  if x.isNaN || y.isNaN then nan
  else if x.isInfinite then (if y.isInfinite && x.isNegative != y.isNegative then nan else x)
  else if y.isInfinite then y
  else
    let total := x.units + y.units
    if total = 0 then ofMagnitude (x.isNegative && y.isNegative) 0
    else ofRatio (total < 0) total.natAbs (2 ^ 1074)

/-- The difference of two words, rounded once. -/
def sub (x y : Binary64) : Binary64 := x.add y.neg

/-- The greatest whole number that is not above a word. -/
def floor (x : Binary64) : Binary64 :=
  if x.isFinite && !x.isZero then ofInt (x.units.fdiv (2 ^ 1074)) else x

/-- A finite word without what stands behind its point. -/
def truncated (x : Binary64) : Int := x.units.tdiv (2 ^ 1074)

/-- What is left of a word when a multiple of another is taken away; it has the sign of the
other. -/
def modulo (x y : Binary64) : Binary64 := x.sub ((x.div y).floor.mul y)

/-! ## Order -/

/-- The place of a word among all numbers: the two zeros coincide. -/
def rank (x : Binary64) : Int := if x.isNegative then -(x.magnitude : Int) else x.magnitude

/-- The order of numbers, with every word that is no number above them all and equal to its like.
This is the order columns are sorted by. -/
def totalCompare (x y : Binary64) : Ordering :=
  match x.isNaN, y.isNaN with
  | true, true => .eq
  | true, false => .gt
  | false, true => .lt
  | false, false => compare x.rank y.rank

/-- One word for each number: the negative zero and the spellings of "no number" are folded. -/
def canonical (x : Binary64) : Binary64 :=
  if x.isNaN then nan else if x.isZero then zero else x

/-! ## Short words -/

/-- The 32-bit word nearest to a double: a sign, eight digits of exponent and 23 of fraction. -/
def toBinary32 (x : Binary64) : UInt32 :=
  let sign : Nat := if x.isNegative then 2 ^ 31 else 0
  if x.isNaN then UInt32.ofNat (sign + 255 * 2 ^ 23 + 2 ^ 22)
  else if x.isInfinite then UInt32.ofNat (sign + 255 * 2 ^ 23)
  else
    let e := (x.ratio.1 / 2 ^ (1074 - 149)).log2 - 23
    let m := e * 2 ^ 23 + roundHalfEven x.ratio.1 (2 ^ (1074 - 149 + e))
    UInt32.ofNat (sign + min m (255 * 2 ^ 23))

/-- The double that a 32-bit word stands for. -/
def ofBinary32 (w : UInt32) : Binary64 :=
  let negative := w.toNat ≥ 2 ^ 31
  let field := w.toNat / 2 ^ 23 % 256
  let fraction := w.toNat % 2 ^ 23
  if field = 255 then (if fraction = 0 then infinity negative else nan)
  else if field = 0 then ofRatio negative fraction (2 ^ 149)
  else ofRatio negative ((fraction + 2 ^ 23) * 2 ^ (field - 1)) (2 ^ 149)

/-- The nearest of the doubles that are values of 32-bit words. -/
def shortened (x : Binary64) : Binary64 := ofBinary32 x.toBinary32

end Binary64
end Lineage
