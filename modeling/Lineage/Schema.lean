import Lineage.Json.Decoder
/-
  Column specifications, as the tracking store keeps them.

  A schema is a list of columns, each with a type, a name and whether it has to be there.  It is
  written as a JSON array of objects and read back from it.
-/

namespace Lineage

/-- The types of columns that the tracking store knows. -/
inductive ColumnType where
  | boolean | integer | long | float | double | string | binary | datetime
deriving DecidableEq, Repr

namespace ColumnType

/-- All types with their names. -/
def named : List (String × ColumnType) :=
  [("boolean", boolean), ("integer", integer), ("long", long), ("float", float),
   ("double", double), ("string", string), ("binary", binary), ("datetime", datetime)]

/-- The name of a type. -/
def name : ColumnType → String
  | boolean => "boolean"
  | integer => "integer"
  | long => "long"
  | float => "float"
  | double => "double"
  | string => "string"
  | binary => "binary"
  | datetime => "datetime"

/-- A type in JSON. -/
def toJson (t : ColumnType) : Json := .text t.name

/-- Reads a type. -/
def decoder : Json.Decoder ColumnType :=
  Json.alternatives (named.map fun (name, t) => (name, .bare t))

end ColumnType

/-- The specification of a column. -/
structure ColumnSpec where
  type : ColumnType
  name : String
  required : Bool
deriving DecidableEq, Repr

namespace ColumnSpec

/-- The members of a specification in JSON, in the order they are written. -/
def members (c : ColumnSpec) : List (String × Json) :=
  [("type", c.type.toJson), ("name", .text c.name), ("required", .bool c.required)]

/-- A specification in JSON. -/
def toJson (c : ColumnSpec) : Json := .object c.members

/-- The members to read; a column has to be there unless it says otherwise. -/
def record : Json.Record ColumnSpec :=
  let type : Json.Field ColumnType := ⟨"type", ColumnType.decoder, none, none⟩
  let name : Json.Field String := ⟨"name", Json.Decoder.text, none, none⟩
  let required : Json.Field Bool := ⟨"required", Json.Decoder.bool, some true, some true⟩
  ((type.record.and name.record).and required.record).map fun ((t, n), r) => ⟨t, n, r⟩

/-- Reads a specification. -/
def decoder : Json.Decoder ColumnSpec := record.decoder "struct ColSpec"

end ColumnSpec

/-- The columns of a table. -/
structure Schema where
  columns : List ColumnSpec
deriving DecidableEq, Repr

namespace Schema

/-- The names of the columns, in order. -/
def names (s : Schema) : List String := s.columns.map (·.name)

/-- The place of the first column with a name. -/
def indexOf? (s : Schema) (name : String) : Option Nat := s.columns.findIdx? (·.name = name)

/-- A schema in JSON, the members of each column in the order of declaration. -/
def toJson (s : Schema) : Json := .array (s.columns.map ColumnSpec.toJson)

/-- A schema as a dictionary: the members of each column ordered by name. -/
def toDict (s : Schema) : Json := .array (s.columns.map fun c => .dict c.members)

/-- Reads a schema. -/
def decoder : Json.Decoder Schema := (Json.Decoder.list ColumnSpec.decoder).map Schema.mk

end Schema

/-- What is known about the size of a dataset. -/
structure Profile where
  /-- The number of rows, as far as it could be counted. -/
  approxCount : UInt64
deriving DecidableEq, Repr

namespace Profile

/-- A profile in JSON. -/
def toJson (p : Profile) : Json := .object [("approx_count", .number (.unsigned p.approxCount))]

/-- Reads a profile. -/
def decoder : Json.Decoder Profile :=
  let count : Json.Field UInt64 := ⟨"approx_count", Json.Decoder.natural, none, none⟩
  (count.record.map Profile.mk).decoder "struct DatasetProfile"

end Profile
end Lineage
