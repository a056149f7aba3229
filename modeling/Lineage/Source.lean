import Lineage.Json.Decoder
/-
  Where a dataset came from.

  A source names a table by its path, its name in the catalog or a query, or a table with
  versions by its path or name and possibly the version.  It has three texts: a short one in
  JSON for the tracking store (`toDict`), one in JSON that can be read back (`toJson`,
  `decoder`), and one for people (`display`).
-/

namespace Lineage

/-- A table that is named without a version. -/
inductive TableRef where
  | path (path : String)
  | tableName (name : String)
  | sql (query : String)
deriving DecidableEq, Repr

/-- The place of a table that has versions. -/
inductive VersionedLocation where
  | path (path : String)
  | tableName (name : String)
deriving DecidableEq, Repr

/-- A table that has versions; without a number it is the latest one. -/
structure VersionedTable where
  location : VersionedLocation
  version : Option UInt64
deriving DecidableEq, Repr

/-- The origin of a dataset. -/
inductive Source where
  | table (ref : TableRef)
  | versioned (table : VersionedTable)
deriving DecidableEq, Repr

namespace TableRef

/-- The kind of reference and what it refers to. -/
def entry : TableRef → String × String
  | path p => ("path", p)
  | tableName n => ("table_name", n)
  | sql q => ("sql", q)

/-- A reference in JSON. -/
def toJson (r : TableRef) : Json := .object [(r.entry.1, .text r.entry.2)]

/-- The members of the object that holds a reference. -/
def members (r : TableRef) : List (String × Json) := [("table", r.toJson)]

/-- The object that holds a reference, in JSON. -/
def recordJson (r : TableRef) : Json := .object r.members

/-- Reads a reference. -/
def decoder : Json.Decoder TableRef :=
  Json.alternatives
    [("path", .carrying (Json.Decoder.text.map path)),
     ("table_name", .carrying (Json.Decoder.text.map tableName)),
     ("sql", .carrying (Json.Decoder.text.map sql))]

/-- The object that holds a reference, to read. -/
def record : Json.Record TableRef :=
  let table : Json.Field TableRef := ⟨"table", decoder, none, none⟩
  table.record

/-- Reads the object that holds a reference. -/
def recordDecoder : Json.Decoder TableRef := record.decoder "struct TableSource"

/-- The description of a reference. -/
def describe : TableRef → String
  | path p => "Path(" ++ Text.quoted p ++ ")"
  | tableName n => "TableName(" ++ Text.quoted n ++ ")"
  | sql q => "Sql(" ++ Text.quoted q ++ ")"

end TableRef

namespace VersionedLocation

/-- The kind of place and its name. -/
def entry : VersionedLocation → String × String
  | path p => ("path", p)
  | tableName n => ("table_name", n)

/-- A place in JSON. -/
def toJson (l : VersionedLocation) : Json := .object [(l.entry.1, .text l.entry.2)]

/-- Reads a place. -/
def decoder : Json.Decoder VersionedLocation :=
  Json.alternatives
    [("path", .carrying (Json.Decoder.text.map path)),
     ("table_name", .carrying (Json.Decoder.text.map tableName))]

/-- The description of a place. -/
def describe : VersionedLocation → String
  | path p => "Path(" ++ Text.quoted p ++ ")"
  | tableName n => "TableName(" ++ Text.quoted n ++ ")"

end VersionedLocation

/-- A version in JSON. -/
def Source.versionJson (v : UInt64) : Json := .number (.unsigned v)

namespace VersionedTable

/-- The members of a table that has versions. -/
def members (t : VersionedTable) : List (String × Json) :=
  [("location", t.location.toJson), ("version", Json.ofOption Source.versionJson t.version)]

/-- A table that has versions, in JSON. -/
def toJson (t : VersionedTable) : Json := .object t.members

/-- The members to read; a version that is missing is none. -/
def record : Json.Record VersionedTable :=
  let location : Json.Field VersionedLocation :=
    ⟨"location", VersionedLocation.decoder, none, none⟩
  let version : Json.Field (Option UInt64) :=
    ⟨"version", Json.Decoder.natural.option, some none, none⟩
  (location.record.and version.record).map fun (l, v) => ⟨l, v⟩

/-- Reads a table that has versions. -/
def decoder : Json.Decoder VersionedTable := record.decoder "struct VersionedTableSource"

/-- The description of a table that has versions. -/
def describe (t : VersionedTable) : String :=
  "VersionedTableSource \x7b location: " ++ t.location.describe ++
    ", version: " ++ Text.optional toString t.version ++ " \x7d"

end VersionedTable

namespace Source

/-- What the tracking store calls the two kinds of sources. -/
def typeName : Source → String
  | table _ => "table"
  | versioned _ => "versioned_table"

/-- The short form: the place under its kind, and the version if there is one. -/
def toDict : Source → Json
  | table r => .dict [(r.entry.1, .text r.entry.2)]
  | versioned t =>
    .dict ((t.location.entry.1, .text t.location.entry.2) ::
      (t.version.toList.map fun v => ("version", versionJson v)))

/-- The members of a source: its kind, in front of the members of what is of that kind. -/
def members : Source → List (String × Json)
  | table r => ("kind", .text "table") :: r.members
  | versioned t => ("kind", .text "versioned") :: t.members

/-- The form that can be read back. -/
def toJson (s : Source) : Json := .object s.members

/-- Reads a source back. -/
def decoder (depth : Nat) (doc : Json.Doc) : Except Json.Trouble Source :=
  Json.tagged "internally tagged enum DatasetSource" "kind"
    [("table", TableRef.recordDecoder.map table),
     ("versioned", VersionedTable.decoder.map versioned)] depth doc

/-- Reads a source back from its text. -/
def read (text : String) : Except Json.Error Source :=
  Json.readWith (decoder Json.Doc.depthLimit) text

/-- The source, for people. -/
def display : Source → String
  | table (.path p) => s!"path '{p}'"
  | table (.tableName n) => s!"table '{n}'"
  | table (.sql q) => s!"query '{q}'"
  | versioned t =>
    let place :=
      match t.location with
      | .path p => s!"versioned path '{p}'"
      | .tableName n => s!"versioned table '{n}'"
    match t.version with
    | some v => place ++ s!" @ v{v}"
    | none => place

/-- The description of a source. -/
def describe : Source → String
  | table r => "Table(TableSource \x7b table: " ++ r.describe ++ " \x7d)"
  | versioned t => "Versioned(" ++ t.describe ++ ")"

end Source
end Lineage
