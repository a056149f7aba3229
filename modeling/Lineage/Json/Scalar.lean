import Lineage.Json.Error
/-
  Words, numbers and texts at the front of a list of characters.

  Each kind is there twice: read, which gives its value, and skipped, which only finds its end.
  Skipping asks for less.  A number that is too large for a double and half of a surrogate pair
  are no faults while skipping, and what a number lacks at the end of the text is then a bad
  number and no early end.

  Why a number has this value: its digits are taken into a 64-bit whole number as long as they
  fit, the others only move the decimal point, and that whole number, as a double, is then
  multiplied with or divided by a power of ten.
-/

namespace Lineage.Json

/-- Blanks between the parts of a JSON text. -/
def isBlank (c : Char) : Bool := c = ' ' || c = '\t' || c = '\n' || c = '\r'

/-- The text without the blanks it begins with. -/
def skipBlank (cs : List Char) : List Char := cs.dropWhile isBlank

/-- What follows the given letters. -/
def expectWord : List Char → List Char → Except Trouble (List Char)
  | [], cs => .ok cs
  | _ :: _, [] => .error (Fault.endInValue.troubleAt (here []))
  | w :: word, c :: cs =>
    if c = w then expectWord word cs else .error (Fault.wordMisspelt.troubleAt (peeked (c :: cs)))

/-! ## Numbers -/

/-- The digits of a number: before the point, behind it, and of the exponent with its sign. -/
structure NumberParts where
  whole : List Char
  fraction : Option (List Char)
  exponent : Option (Bool × List Char)

/-- The digits a text begins with, and what follows them. -/
def spanDigits (cs : List Char) : List Char × List Char := cs.span Char.isDigit

/-- The digits before the point.  A number does not begin with two digits the first of which is
zero. -/
def scanWhole (atEnd : Fault) (cs : List Char) : Except Trouble (List Char × List Char) :=
  match cs with
  | [] => .error (atEnd.troubleAt (here []))
  | c :: rest =>
    if c = '0' then
      if (spanDigits rest).1.isEmpty then .ok (['0'], rest)
      else .error (Fault.badNumber.troubleAt (peeked rest))
    else if c.isDigit then .ok (spanDigits cs)
    else .error (Fault.badNumber.troubleAt (peeked cs))

/-- The digits behind the point, if there is a point. -/
def scanFraction (atEnd : Fault) (cs : List Char) :
    Except Trouble (Option (List Char) × List Char) :=
  match cs with
  | '.' :: rest =>
    let (digits, after) := spanDigits rest
    if !digits.isEmpty then .ok (some digits, after)
    else if after.isEmpty then .error (atEnd.troubleAt (here []))
    else .error (Fault.badNumber.troubleAt (peeked after))
  | _ => .ok (none, cs)

/-- The sign of an exponent: whether it is not negative, and what follows. -/
def scanSign : List Char → Bool × List Char
  | '+' :: rest => (true, rest)
  | '-' :: rest => (false, rest)
  | cs => (true, cs)

/-- The exponent, if there is one. -/
def scanExponent (atEnd : Fault) (cs : List Char) :
    Except Trouble (Option (Bool × List Char) × List Char) :=
  match cs with
  | [] => .ok (none, [])
  | c :: rest =>
    if c = 'e' || c = 'E' then
      let (upward, body) := scanSign rest
      let (digits, after) := spanDigits body
      if !digits.isEmpty then .ok (some (upward, digits), after)
      else if body.isEmpty then .error (atEnd.troubleAt (here []))
      else .error (Fault.badNumber.troubleAt (peeked body))
    else .ok (none, cs)

/-- The parts of a number without its minus sign, and what follows it.  `atEnd` is the fault of a
number that the end of the text cuts short. -/
def scanNumber (atEnd : Fault) (cs : List Char) : Except Trouble (NumberParts × List Char) := do
  let (whole, cs) ← scanWhole atEnd cs
  let (fraction, cs) ← scanFraction atEnd cs
  let (exponent, cs) ← scanExponent atEnd cs
  return (⟨whole, fraction, exponent⟩, cs)

/-- The value of a decimal digit. -/
def digitValue (c : Char) : Nat := c.toNat - '0'.toNat

/-- Takes digits into a whole number as long as it stays below the bound; gives the number and
the digits left over. -/
def takeDigits (bound : Nat) (n : Nat) : List Char → Nat × List Char
  | [] => (n, [])
  | c :: rest =>
    let next := 10 * n + digitValue c
    if next < bound then takeDigits bound next rest else (n, c :: rest)

/-- Multiplies a double by a power of ten: by one multiplication or division while the power is
a double itself, beyond that in several divisions.  There is no result where it is too large. -/
def scaleByTen : Nat → Binary64 → Int → Option Binary64
  | 0, x, _ => some x
  | fuel + 1, x, k =>
    if k.natAbs ≤ 308 then
      let power := Binary64.ofDecimal false 1 k.natAbs
      if 0 ≤ k then
        let y := x.mul power
        if y.isInfinite then none else some y
      else some (x.div power)
    else if x.isZero then some x
    else if 0 ≤ k then none
    else scaleByTen fuel (x.div (Binary64.ofDecimal false 1 308)) (k + 308)

/-- A double with the sign of the number. -/
def signed (negative : Bool) (x : Binary64) : Number := .float (if negative then x.neg else x)

/-- The whole number times a power of ten. -/
def scaled (negative : Bool) (n : Nat) (k : Int) (stop : List Char) : Except Trouble Number :=
  match scaleByTen 4 (Binary64.ofNat n) k with
  | some x => .ok (signed negative x)
  | none => .error (Fault.numberTooLarge.troubleAt (here stop))

/-- A whole number that fits 64 bits.  A negative zero, and what lies below the least signed
number, is a double. -/
def wholeNumber (negative : Bool) (n : Nat) : Number :=
  if !negative then .unsigned (UInt64.ofNat n)
  else if 0 < n && n ≤ 2 ^ 63 then .negative (Int64.ofInt (-n))
  else signed true (Binary64.ofNat n)

/-- The number that the parts stand for; `stop` is what follows it in the text. -/
def NumberParts.number (p : NumberParts) (negative : Bool) (stop : List Char) :
    Except Trouble Number :=
  let (n, overflow) := takeDigits (2 ^ 64) 0 p.whole
  let (n, places) :=
    match p.fraction with
    | none => (n, 0)
    | some digits =>
      let (m, dropped) := takeDigits (2 ^ 64) n digits
      (m, digits.length - dropped.length)
  let point : Int := (overflow.length : Int) - places
  match p.exponent with
  | none =>
    if p.fraction.isNone && overflow.isEmpty then .ok (wholeNumber negative n)
    else scaled negative n point stop
  | some (upward, digits) =>
    match takeDigits (2 ^ 31) 0 digits with
    | (e, []) => scaled negative n (if upward then point + e else point - e) stop
    | (_, _ :: rest) =>
      if n ≠ 0 && upward then .error (Fault.numberTooLarge.troubleAt (here (rest ++ stop)))
      else .ok (signed negative .zero)

/-! ## Texts -/

/-- The value of four hexadecimal digits, and what follows them. -/
def hexFour (cs : List Char) : Except Trouble (Nat × List Char) :=
  let fault : Except Trouble (Nat × List Char) :=
    if byteLength cs < 4 then .error (Fault.endInText.troubleAt (here []))
    else .error (Fault.badEscape.troubleAt ⟨cs, 4⟩)
  match cs with
  | a :: b :: c :: d :: rest =>
    match Text.hexValue? a, Text.hexValue? b, Text.hexValue? c, Text.hexValue? d with
    | some a, some b, some c, some d => .ok (((a * 16 + b) * 16 + c) * 16 + d, rest)
    | _, _, _, _ => fault
  | _ => fault

/-- The character for a letter behind a backslash, other than `u`. -/
def shortEscape? (c : Char) : Option Char :=
  match c with
  | '"' => some '"'
  | '\\' => some '\\'
  | '/' => some '/'
  | 'b' => some (Char.ofNat 8)
  | 'f' => some (Char.ofNat 12)
  | 'n' => some '\n'
  | 'r' => some '\r'
  | 't' => some '\t'
  | _ => none

/-- The second half of a surrogate pair, whose first half has been read. -/
def lowSurrogate (high : Nat) (cs : List Char) : Except Trouble (Char × List Char) :=
  match cs with
  | [] => .error (Fault.endInText.troubleAt (here []))
  | ['\\'] => .error (Fault.endInText.troubleAt (here []))
  | '\\' :: 'u' :: rest => do
    let (low, rest) ← hexFour rest
    if 0xdc00 ≤ low && low ≤ 0xdfff then
      return (Char.ofNat ((high - 0xd800) * 0x400 + (low - 0xdc00) + 0x10000), rest)
    else .error (Fault.loneSurrogate.troubleAt (here rest))
  | '\\' :: rest => .error (Fault.surrogatePairCut.troubleAt (peeked rest))
  | _ => .error (Fault.surrogatePairCut.troubleAt (peeked cs))

/-- The character that an escape stands for; the text begins behind the backslash. -/
def readEscape (cs : List Char) : Except Trouble (Char × List Char) :=
  match cs with
  | [] => .error (Fault.endInText.troubleAt (here []))
  | 'u' :: rest => do
    let (unit, rest) ← hexFour rest
    if 0xdc00 ≤ unit && unit ≤ 0xdfff then .error (Fault.loneSurrogate.troubleAt (here rest))
    else if 0xd800 ≤ unit && unit ≤ 0xdbff then lowSurrogate unit rest
    else return (Char.ofNat unit, rest)
  | c :: rest =>
    match shortEscape? c with
    | some d => .ok (d, rest)
    | none => .error (Fault.badEscape.troubleAt (peeked cs))

/-- The characters of a text up to its closing quote, and what follows. -/
def readChars : Nat → List Char → Except Trouble (List Char × List Char)
  | 0, cs => .error (Fault.endInText.troubleAt (here cs))
  | fuel + 1, cs =>
    match cs with
    | [] => .error (Fault.endInText.troubleAt (here []))
    | c :: rest =>
      if c = '"' then .ok ([], rest)
      else if c = '\\' then do
        let (d, rest) ← readEscape rest
        let (ds, stop) ← readChars fuel rest
        return (d :: ds, stop)
      else if c.toNat < 32 then .error (Fault.controlCharacter.troubleAt (peeked cs))
      else do
        let (ds, stop) ← readChars fuel rest
        return (c :: ds, stop)

/-- Reads a text that begins behind its opening quote. -/
def readText (cs : List Char) : Except Trouble (List Char × List Char) :=
  readChars (cs.length + 1) cs

/-- What follows an escape; the text begins behind the backslash. -/
def skipEscape (cs : List Char) : Except Trouble (List Char) :=
  match cs with
  | [] => .error (Fault.endInText.troubleAt (here []))
  | 'u' :: rest => (hexFour rest).map Prod.snd
  | c :: rest =>
    match shortEscape? c with
    | some _ => .ok rest
    | none => .error (Fault.badEscape.troubleAt (peeked cs))

/-- What follows the closing quote of a text. -/
def skipChars : Nat → List Char → Except Trouble (List Char)
  | 0, cs => .error (Fault.endInText.troubleAt (here cs))
  | fuel + 1, cs =>
    match cs with
    | [] => .error (Fault.endInText.troubleAt (here []))
    | c :: rest =>
      if c = '"' then .ok rest
      else if c = '\\' then do
        let rest ← skipEscape rest
        skipChars fuel rest
      else if c.toNat < 32 then .error (Fault.controlCharacter.troubleAt (here cs))
      else skipChars fuel rest

/-- Skips a text that begins behind its opening quote. -/
def skipText (cs : List Char) : Except Trouble (List Char) := skipChars (cs.length + 1) cs

end Lineage.Json
