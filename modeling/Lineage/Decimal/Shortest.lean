import Lineage.Decimal.Binary64
/-
  The shortest decimal that reads back as a given double.

  A finite word stands for an interval of reals: those that round to it.  Its ends are the
  midpoints to its two neighbours, and they belong to the interval exactly when the significand
  is even.  For 1, 2, … 17 digits `shortest` looks at the two points of that decimal grid next to
  the value; the first grid with a point inside the interval wins, and of two points the nearer.

  Why two points are enough: if any point of a grid lies inside the interval, then so does one of
  the two around the value, because the interval contains the value.
-/

namespace Lineage.Decimal

/-- The number `digits · 10^exponent`. -/
structure Numeral where
  digits : Nat
  exponent : Int
deriving DecidableEq, Repr

/-- A positive real interval around `value / den`, as numerators over one denominator. -/
structure Interval where
  low : Nat
  value : Nat
  high : Nat
  den : Nat
  closed : Bool

/-- The reals that round to a finite word.  Below a power of two the neighbour is only half as
far away as above it. -/
def roundingInterval (x : Binary64) : Interval :=
  let m := x.significand
  let unit := 2 ^ x.scale
  let below := if m = 2 ^ 52 ∧ 0 < x.scale then unit else 2 * unit
  { low := 4 * m * unit - below
    value := 4 * m * unit
    high := 4 * m * unit + 2 * unit
    den := 4 * 2 ^ 1074
    closed := m % 2 = 0 }

namespace Interval

/-- Membership of `num / (den of the interval)`. -/
def holds (i : Interval) (num scale : Nat) : Bool :=
  if i.closed then i.low * scale ≤ num && num ≤ i.high * scale
  else i.low * scale < num && num < i.high * scale

/-- The two points of the grid `10^exponent` next to the value, those inside the interval, the
nearer first; a tie is decided by `tieUp`. -/
def candidate (i : Interval) (tieUp : Nat → Bool) (exponent : Int) : Option Numeral :=
  -- the grid step is `step / scale`, and everything is compared over the denominator `scale`
  let step : Nat := if 0 ≤ exponent then i.den * 10 ^ exponent.toNat else i.den
  let scale : Nat := if 0 ≤ exponent then 1 else 10 ^ (-exponent).toNat
  let target := i.value * scale
  let below := target / step
  let rest := target % step
  let lowFits := i.holds (below * step) scale
  let highFits := i.holds ((below + 1) * step) scale
  let upper := if 2 * rest = step then tieUp below else step < 2 * rest
  if lowFits && (!highFits || !upper) then some ⟨below, exponent⟩
  else if highFits then some ⟨below + 1, exponent⟩
  else none

end Interval

/-- The number of decimal digits of a natural number; zero has none. -/
def digitCount (n : Nat) : Nat := if n = 0 then 0 else (Nat.toDigits 10 n).length

/-- The power of ten below a positive quotient: `10^k ≤ num / den < 10^(k+1)`. -/
def powerBelow (num den : Nat) : Int :=
  if den ≤ num then (digitCount (num / den) : Int) - 1
  else
    -- `den / num` has `d` digits, so the quotient lies near `10^-d`
    let d := digitCount (den / num)
    if num * 10 ^ (d - 1) = den then -((d : Int) - 1) else -(d : Int)

/-- Tries the grids with `count`, `count + 1`, … digits. -/
def search (i : Interval) (tieUp : Nat → Bool) (top : Int) : Nat → Nat → Numeral
  | count, 0 => ⟨i.value / i.den, top - count⟩
  | count, fuel + 1 =>
    match i.candidate tieUp (top - (count : Int) + 1) with
    | some d => d
    | none => search i tieUp top (count + 1) fuel

/-- Drops the zeros at the end of the digits. -/
def trim (fuel : Nat) (d : Numeral) : Numeral :=
  match fuel with
  | 0 => d
  | fuel + 1 =>
    if d.digits ≠ 0 ∧ d.digits % 10 = 0 then trim fuel ⟨d.digits / 10, d.exponent + 1⟩ else d

/-- The shortest decimal in the rounding interval of a finite word, and of the shortest the
nearest.  Zero is `0 · 10^0`. -/
def shortest (tieUp : Nat → Bool) (x : Binary64) : Numeral :=
  if x.isZero then ⟨0, 0⟩
  else
    let i := roundingInterval x
    trim 400 (search i tieUp (powerBelow i.value i.den) 1 17)

/-- A tie goes to the even digit. -/
def tieToEven (below : Nat) : Bool := below % 2 = 1

end Lineage.Decimal
