/-
  The types of the columns of tables, and their names.

  There are truth values, numbers, texts, bytes, days, times of day, moments with a time zone or
  without one, spans of time, and nested types.  Categorical types, enumerations and types of
  foreign objects are left out.
-/

namespace Lineage

/-- Units of time. -/
inductive TimeUnit where
  | nanoseconds | microseconds | milliseconds
deriving DecidableEq, Repr

/-- The sign of a unit. -/
def TimeUnit.sign : TimeUnit → String
  | nanoseconds => "ns"
  | microseconds => "μs"
  | milliseconds => "ms"

/-- A character that may stand in the name of a time zone. -/
def TimeZone.hasCharacter (c : Char) : Bool :=
  c.isAlphanum || ['/', '_', '-', '+', ':'].contains c

/-- A time zone, by its name. -/
@[ext]
structure TimeZone where
  name : String
  spelled : name.toList.all TimeZone.hasCharacter = true
deriving DecidableEq, Repr

/-- The types of columns. -/
inductive Dtype where
  | bool
  | i8 | i16 | i32 | i64 | i128
  | u8 | u16 | u32 | u64 | u128
  | f16 | f32 | f64
  | str | binary | date | time | null
  | datetime (unit : TimeUnit) (zone : Option TimeZone)
  | duration (unit : TimeUnit)
  | list (item : Dtype)
  | array (item : Dtype) (width : Nat)
  | record (fields : List (String × Dtype))
  | decimal (precision scale : Nat)
deriving Repr, Inhabited

/-- A time zone as it stands behind a unit. -/
def zoneText : Option TimeZone → String
  | none => ""
  | some zone => ", " ++ zone.name

/-- The name of an array with the given widths, the outermost first; without widths it is what is
inside. -/
def arrayText (inside : String) : List Nat → String
  | [] => inside
  | [n] => "array[" ++ inside ++ s!", {n}]"
  | ns => "array[" ++ inside ++ ", (" ++ String.intercalate ", " (ns.map toString) ++ ")]"

/-- The name of what is inside of a type's arrays, and the widths of the arrays, the outermost
first.  Of a record only the number of its fields is named. -/
def Dtype.parts : Dtype → String × List Nat
  | bool => ("bool", [])
  | i8 => ("i8", [])
  | i16 => ("i16", [])
  | i32 => ("i32", [])
  | i64 => ("i64", [])
  | i128 => ("i128", [])
  | u8 => ("u8", [])
  | u16 => ("u16", [])
  | u32 => ("u32", [])
  | u64 => ("u64", [])
  | u128 => ("u128", [])
  | f16 => ("f16", [])
  | f32 => ("f32", [])
  | f64 => ("f64", [])
  | str => ("str", [])
  | binary => ("binary", [])
  | date => ("date", [])
  | time => ("time", [])
  | null => ("null", [])
  | datetime unit zone => ("datetime[" ++ unit.sign ++ zoneText zone ++ "]", [])
  | duration unit => ("duration[" ++ unit.sign ++ "]", [])
  | list item => ("list[" ++ arrayText item.parts.1 item.parts.2 ++ "]", [])
  | array item width => (item.parts.1, width :: item.parts.2)
  | record fields => (s!"struct[{fields.length}]", [])
  | decimal precision scale => (s!"decimal[{precision},{scale}]", [])

/-- The name of a type.  Arrays of arrays are named as one array of several widths. -/
def Dtype.text (d : Dtype) : String := arrayText d.parts.1 d.parts.2

/-- The names and types of the columns of a table, in order. -/
abbrev FrameSchema := List (String × Dtype)

end Lineage
