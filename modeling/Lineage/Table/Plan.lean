import Lineage.Digest
import Lineage.Files.Scan
import Lineage.Table.Demand
/-
  Plans of computations on tables, carried out when they are used.

  A plan starts from a table in memory or from files, and goes on in steps.  What it starts from
  has been looked at (`Origin.look`), so that its columns are known; rows come later.  The text of
  a plan and the columns of its result are told by that look, and so is its hash: that of the
  text, of the columns, and of the rows for a table in memory or the path for files.  So equal
  plans over equal tables have equal hashes, and the rows of files do not enter into them.  How a
  row is written for the hash is left open at first (`semanticHashBy`); it is written by its values
  (`semanticHash`).

  All columns are checked before any step is carried out, and the first step that cannot be
  carried out decides the failure.
-/

namespace Lineage

/-- What a plan starts from. -/
inductive Origin where
  | memory (t : Table)
  /-- Files, by the path that stands for them; they are looked at once for each number. -/
  | files (format : FileFormat) (path : String) (scan : Nat)

/-- A plan. -/
structure Plan where
  origin : Origin
  steps : List Step

/-! ## Origins -/

/-- What is known of a table in memory. -/
def Look.ofTable (t : Table) : Look := ⟨[], t.columns, t.height⟩

namespace Origin

/-- Looks at what a plan starts from. -/
def look (files : FileTree) : Origin → Except Failure Look
  | memory t => .ok (.ofTable t)
  | Origin.files format path _ => Files.look files format path

/-- The paths of files in the text of a plan: at most two of them. -/
def pathsText : List String → String
  | [] => "[]"
  | [p] => listText [p]
  | [p, q] => listText [p, q]
  | p :: rest => "[" ++ p ++ s!", ... {rest.length} other sources]"

/-- The text of an origin.  Of the columns of a table at most four are named. -/
def describe (seen : Look) : Origin → String
  | memory _ =>
    let names := seen.columns.map fun c => "\"" ++ c.1 ++ "\""
    let shown := if 4 < names.length then names.take 4 ++ ["..."] else names
    "DF " ++ listText shown ++ s!"; PROJECT */{names.length} COLUMNS"
  | Origin.files format _ _ =>
    let scanned (kind : String) : String :=
      kind ++ " SCAN " ++ pathsText seen.paths ++ s!"\nPROJECT */{seen.columns.length} COLUMNS"
    match format with
    | .parquet => scanned "Parquet" ++ s!"\nESTIMATED ROWS: {seen.rows}"
    | .ndjson => scanned "NDJson"
    | .csv => scanned "Csv"
    | .json => scanned "Json"

end Origin

namespace Plan

/-- The plan with a further step. -/
def andThen (p : Plan) (s : Step) : Plan := { p with steps := p.steps ++ [s] }

/-- A plan over a table in memory. -/
def ofTable (t : Table) : Plan := ⟨.memory t, []⟩

/-- The columns of the result. -/
def schema (seen : Look) (p : Plan) : Except Failure FrameSchema :=
  p.steps.foldlM Step.schema seen.columns

/-! ## Rows -/

/-- Carries out steps. -/
def runSteps (steps : List Step) (t : Table) : Except Failure Table := steps.foldlM Step.apply t

/-- The table of steps over files.  Steps that begin with counting rows take their number. -/
def runOverFiles (files : FileTree) (seen : Look) (format : FileFormat) (steps : List Step) :
    Except Failure Table := do
  let (d, trimmed) := Step.trimAll seen.columns steps
  match trimmed with
  | .select [⟨.rowCount, given⟩] :: rest =>
    let n ← Files.count files format seen
    runSteps rest ⟨[((Output.mk .rowCount given).name, .u32)], [[.int n]]⟩
  | steps =>
    let rows ← if d.rows then Files.read files format seen d.includes else pure []
    runSteps steps ⟨seen.columns, rows⟩

/-- The result. -/
def collect (files : FileTree) (seen : Look) (p : Plan) : Except Failure Table := do
  let _ ← p.schema seen
  match p.origin with
  | .memory t => runSteps p.steps t
  | .files format _ _ => runOverFiles files seen format p.steps

/-- The plan that counts the rows of the result. -/
def counting (p : Plan) : Plan := p.andThen (.select [⟨.rowCount, none⟩])

/-- The number that a plan for counting rows has come to. -/
def counted (t : Table) : Except Failure UInt64 :=
  match t.rows with
  | [[.int n]] => .ok (UInt64.ofNat n.toNat)
  | _ => .error (.internal (.stated "row count query returned a non-integer value"))

/-- The number of rows of the result. -/
def count (files : FileTree) (seen : Look) (p : Plan) : Except Failure UInt64 := do
  counted (← p.counting.collect files seen)

/-- The greatest number of rows that the engine can be asked for. -/
def rowBound : Nat := 2 ^ 32 - 1

/-- The first rows of the result. -/
def head (files : FileTree) (seen : Look) (p : Plan) (n : Nat) : Except Failure Table :=
  (p.andThen (.limit (min n rowBound))).collect files seen

/-! ## Texts and hashes -/

/-- The text of steps over a plan that has these columns and this text. -/
def describeSteps (columns : FrameSchema) (below : String) : List Step → Except Failure String
  | [] => .ok below
  | s :: rest => do describeSteps (← s.schema columns) (s.describe columns below) rest

/-- The text of a plan. -/
def describe (seen : Look) (p : Plan) : Except Failure String :=
  describeSteps seen.columns (p.origin.describe seen) p.steps

/-- The columns as bytes: names and types, each with a zero behind it. -/
def schemaBytes (columns : FrameSchema) : List UInt8 :=
  columns.flatMap fun c => Text.utf8 c.1 ++ 0 :: Text.utf8 c.2.text ++ [0]

/-- What a plan starts from, as bytes, if rows are written in this way: the height and the rows of a
table in memory, the path of files. -/
def originBytesBy (write : List Cell → List UInt8) : Origin → List UInt8
  | .memory t =>
    Text.littleEndian 8 t.height ++ (if t.columns.isEmpty then [] else t.rows.flatMap write)
  | .files _ path _ => Text.utf8 path ++ [0]

/-- The bytes that are hashed if rows are written in this way. -/
def hashedBytesBy (write : List Cell → List UInt8) (seen : Look) (p : Plan) :
    Except Failure (List UInt8) := do
  let text ← p.describe seen
  let columns ← p.schema seen
  return Text.utf8 text ++ schemaBytes columns ++ originBytesBy write p.origin

/-- The hash of a plan if rows are written in this way: the first eight bytes of the MD5 digest, the
lowest first. -/
def semanticHashBy (write : List Cell → List UInt8) (seen : Look) (p : Plan) :
    Except Failure Int64 := do
  let bytes ← p.hashedBytesBy write seen
  return (UInt64.ofNat (Text.ofLittleEndian ((Md5.digest bytes).take 8))).toInt64

/-- What a plan starts from, as bytes. -/
def originBytes (o : Origin) : List UInt8 := originBytesBy Cell.codes o

/-- The bytes that are hashed. -/
def hashedBytes (seen : Look) (p : Plan) : Except Failure (List UInt8) :=
  p.hashedBytesBy Cell.codes seen

/-- The hash of a plan. -/
def semanticHash (seen : Look) (p : Plan) : Except Failure Int64 := p.semanticHashBy Cell.codes seen

end Plan
end Lineage
