import Lineage.Files.Format
import Lineage.Files.Tree
import Lineage.Failure
/-
  Versions of tables that are kept in directories.

  The versions of a directory are told by the names of what is in it: `v`, a number, and
  `.parquet`.  The number may have a plus sign and zeros in front.  The file that is read for a
  version is the one that has the number as it is usually written.
-/

namespace Lineage.Snapshots

/-- The ending of the names. -/
def ending : List Char := ['.', 'p', 'a', 'r', 'q', 'u', 'e', 't']

/-- The number that digits spell, with a plus sign in front or not, if it is below `2^64`. -/
def number? (cs : List Char) : Option UInt64 :=
  let digits := if cs.head? = some '+' then cs.drop 1 else cs
  if digits.isEmpty || !digits.all Char.isDigit then none
  else
    let n := digits.foldl (fun n c => 10 * n + (c.toNat - '0'.toNat)) 0
    if n < 2 ^ 64 then some (UInt64.ofNat n) else none

/-- The version that the name of a file stands for. -/
def version? (name : String) : Option UInt64 :=
  let cs := name.toList
  match cs with
  | 'v' :: rest =>
    if ending.isSuffixOf rest then number? (rest.take (rest.length - ending.length)) else none
  | _ => none

/-- The path begins with a dot, or several in a row, and an empty component behind: such a
directory is not looked into. -/
def startsEmpty (path : String) : Bool :=
  let pieces := Files.splitSlashes path.toList
  pieces.head? == some ['.'] && (pieces.dropWhile (· == ['.'])).head? == some []

/-- The versions in a directory. -/
def versions (t : FileTree) (path : String) : List UInt64 :=
  match t.locate path with
  | .error _ => []
  | .ok key =>
    if !t.isDirectory key || startsEmpty path then []
    else (t.children key).filterMap fun entry => version? entry.1

/-- The greatest of some versions. -/
def greatest : List UInt64 → Option UInt64
  | [] => none
  | v :: rest =>
    match greatest rest with
    | none => some v
    | some w => some (if w < v then v else w)

/-- A directory has versions. -/
def isVersioned (t : FileTree) (path : String) : Bool := !(versions t path).isEmpty

/-- The latest version in a directory. -/
def latest (t : FileTree) (path : String) : Option UInt64 := greatest (versions t path)

/-- The path of the file of a version. -/
def filePath (path : String) (version : UInt64) : String :=
  let slash := if path.isEmpty || path.endsWith "/" then "" else "/"
  path ++ slash ++ "v" ++ toString version ++ ".parquet"

/-- What a path and a version stand for: the file of a version, or a file of some format. -/
inductive Target where
  | snapshot (version : UInt64)
  | file (format : FileFormat)
deriving DecidableEq, Repr

/-- What a path stands for, with or without a version. -/
def resolve (t : FileTree) (path : String) (version : Option UInt64) : Except Failure Target :=
  let known := versions t path
  match greatest known, version with
  | some newest, version =>
    let wanted := version.getD newest
    if known.contains wanted then .ok (.snapshot wanted)
    else .error (.versionNotFound path wanted)
  | none, some v => .error (.invalidParameter (.versionOfPlainPath v path))
  | none, none =>
    match FileFormat.ofPath path with
    | some format => .ok (.file format)
    | none => .error (.unsupportedFormat path)

end Lineage.Snapshots
