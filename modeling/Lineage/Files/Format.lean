import Lineage.Files.Path
/-
  Formats of files of tables, told by the extension of the path in small or capital letters.
-/

namespace Lineage

/-- The formats that can be read. -/
inductive FileFormat where
  | csv | json | ndjson | parquet
deriving DecidableEq, Repr

namespace FileFormat

/-- The name of a format. -/
def name : FileFormat → String
  | csv => "Csv"
  | json => "Json"
  | ndjson => "NdJson"
  | parquet => "Parquet"

/-- The format for an extension.  Only the letters `A` to `Z` are also read as small ones. -/
def ofExtension (ext : String) : Option FileFormat :=
  match String.ofList (ext.toList.map Char.toLower) with
  | "csv" => some csv
  | "json" => some json
  | "ndjson" | "jsonl" => some ndjson
  | "parquet" | "pq" => some parquet
  | _ => none

/-- The format for a path. -/
def ofPath (path : String) : Option FileFormat := (Files.extension? path).bind ofExtension

end FileFormat
end Lineage
