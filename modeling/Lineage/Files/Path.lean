/-
  Texts of paths.

  A path is cut at its slashes into components.  Empty components, and single dots behind the
  first component, do not count; so a slash or `/.` at the end changes nothing.
-/

namespace Lineage.Files

/-- The pieces of a text between slashes. -/
def splitSlashes (path : List Char) : List (List Char) := path.splitOn '/'

/-- The last component of a path that is a name: not the root, not a dot and not two dots. -/
def fileName? (path : String) : Option (List Char) :=
  let pieces := splitSlashes path.toList
  let last := pieces.reverse.dropWhile fun piece => piece.isEmpty || piece == ['.']
  match last with
  | [] => none
  | piece :: _ => if piece == ['.', '.'] then none else some piece

/-- Cuts a file name at its last dot, unless that is its first character: the stem and the
extension. -/
def splitExtension (name : List Char) : List Char × Option (List Char) :=
  let tail := (name.reverse.takeWhile (· ≠ '.')).reverse
  let stem := (name.take (name.length - tail.length)).dropLast
  if stem.isEmpty then (name, none) else (stem, some tail)

/-- The extension of the last component of a path. -/
def extension? (path : String) : Option String := do
  let name ← fileName? path
  let ext ← (splitExtension name).2
  return String.ofList ext

end Lineage.Files
