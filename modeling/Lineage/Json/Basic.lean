import Lineage.Decimal.Binary64
/-
  JSON values.

  An object is the list of its members as they stand in the text: their order is kept, and so is
  a name that stands there twice.  A whole number is kept exactly as long as it fits 64 bits,
  with or without a sign; every other number is the nearest double.
-/

namespace Lineage

/-- A number of a JSON text. -/
inductive Json.Number where
  | unsigned (n : UInt64)
  /-- A whole number below zero. -/
  | negative (n : Int64)
  | float (x : Binary64)
deriving DecidableEq, Repr, Inhabited

/-- A JSON value. -/
inductive Json where
  | null
  | bool (b : Bool)
  | number (n : Json.Number)
  | text (s : String)
  | array (items : List Json)
  | object (members : List (String × Json))
deriving Repr, Inhabited

namespace Json

/-- A natural number below `2^64`. -/
def nat (n : Nat) : Json := .number (.unsigned (UInt64.ofNat n))

/-- An integer between `-2^63` and `2^64`. -/
def int (n : Int) : Json :=
  if 0 ≤ n then nat n.toNat else .number (.negative (Int64.ofInt n))

/-- The value, or `null` when there is none. -/
def ofOption {α : Type} (f : α → Json) : Option α → Json
  | none => .null
  | some a => f a

/-- The first member of an object with the given name.  No other value has members. -/
def member? (j : Json) (name : String) : Option Json :=
  match j with
  | .object members => members.lookup name
  | _ => none

/-- Puts a member in its place in a list of members ordered by name. -/
def insertByName (m : String × Json) : List (String × Json) → List (String × Json)
  | [] => [m]
  | n :: rest => if n.1 < m.1 then n :: insertByName m rest else m :: n :: rest

/-- The members ordered by name; members of one name keep their order. -/
def sortByName (members : List (String × Json)) : List (String × Json) :=
  members.foldr insertByName []

/-- An object whose members are ordered by name. -/
def dict (members : List (String × Json)) : Json := .object (sortByName members)

end Json
end Lineage
