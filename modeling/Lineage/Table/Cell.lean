import Lineage.Decimal.Binary64
import Lineage.Text.Hex
/-
  Values in the cells of tables.

  Dates, times and durations are whole numbers of their unit; short floats are kept as doubles of
  the same value.  `Cell.compare?` orders the values of one type and knows that a missing value
  has no place in that order.  `Cell.code` writes a value as bytes from which it can be told
  where the value ends, so that different rows have different codes.
-/

namespace Lineage

/-- The value of a cell. -/
inductive Cell where
  | null
  | bool (b : Bool)
  | int (n : Int)
  | float (x : Binary64)
  | text (s : String)
  | bytes (bs : List UInt8)
  | list (items : List Cell)
deriving Repr, Inhabited

namespace Cell

def isNull : Cell → Bool
  | null => true
  | _ => false

/-- The order of an integer and a double: exact, with every word that is no number above all
numbers. -/
def compareIntFloat (n : Int) (x : Binary64) : Ordering :=
  if x.isNaN then .lt
  else if x.isInfinite then (if x.isNegative then .gt else .lt)
  else compare (n * 2 ^ 1074) x.units

/-- The order of two strings of bytes. -/
def compareBytes : List UInt8 → List UInt8 → Ordering
  | [], [] => .eq
  | [], _ :: _ => .lt
  | _ :: _, [] => .gt
  | a :: as, b :: bs => (compare a b).then (compareBytes as bs)

/-- The order of two values that can be compared.  Beside a number a truth value is one or
zero. -/
def compare? : Cell → Cell → Option Ordering
  | bool a, bool b => some (compare a.toNat b.toNat)
  | bool a, int b => some (compare (a.toNat : Int) b)
  | int a, bool b => some (compare a (b.toNat : Int))
  | bool a, float b => some (compareIntFloat a.toNat b)
  | float a, bool b => some (compareIntFloat b.toNat a).swap
  | int a, int b => some (compare a b)
  | float a, float b => some (a.totalCompare b)
  | int a, float b => some (compareIntFloat a b)
  | float a, int b => some (compareIntFloat b a).swap
  | text a, text b => some (compare a b)
  | bytes a, bytes b => some (compareBytes a b)
  | _, _ => none

/-- A number in eight bytes. -/
def word (n : Nat) : List UInt8 := Text.littleEndian 8 n

mutual

/-- A value as bytes.  Doubles that are equal as numbers have one code. -/
def code : Cell → List UInt8
  | null => [0]
  | bool b => [1, if b then 1 else 0]
  | int n => 2 :: Text.littleEndian 17 (n % 2 ^ 136).toNat
  | float x => 3 :: word x.canonical.bits.toNat
  | text s => let bs := Text.utf8 s; 4 :: word bs.length ++ bs
  | bytes bs => 5 :: word bs.length ++ bs
  | list items => 6 :: word items.length ++ codes items

/-- Values one behind the other. -/
def codes : List Cell → List UInt8
  | [] => []
  | c :: rest => code c ++ codes rest

end

end Cell
end Lineage
