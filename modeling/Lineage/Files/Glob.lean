import Lineage.Files.Tree
/-
  Patterns for paths.

  In a component of a pattern a star stands for any characters, a question mark for one, and a
  list in brackets for one of those it lists (or, behind an exclamation mark, for one of the
  others).  A component of two stars stands for any directories, or none, one inside the other.
  A path in which none of `*`, `?` and `[` occurs is no pattern.

  A pattern leads to files by paths as one would write them, so two paths may lead to one file.
-/

namespace Lineage.Files

/-! ## Components -/

/-- A piece of a component. -/
inductive Piece where
  | char (c : Char)
  | one
  | many
  /-- One character of the ranges, or one that is in none of them. -/
  | among (negated : Bool) (ranges : List (Char × Char))
deriving DecidableEq, Repr

/-- A component of a pattern: a name, pieces of a name, or any directories. -/
inductive Component where
  | name (s : String)
  | pieces (ps : List Piece)
  | directories
deriving DecidableEq, Repr

/-- The ranges listed in brackets. -/
def rangesOf : List Char → List (Char × Char)
  | a :: '-' :: b :: rest => (a, b) :: rangesOf rest
  | a :: rest => (a, a) :: rangesOf rest
  | [] => []

/-- Cuts at the bracket that closes a list; the first character is in the list even if it is a
bracket. -/
def cutBracket (cs : List Char) : Option (List Char × List Char) :=
  match cs with
  | [] => none
  | c :: rest =>
    let inside := rest.takeWhile (· ≠ ']')
    match rest.drop inside.length with
    | [] => none
    | _ :: after => some (c :: inside, after)

/-- The pieces of a component; there are none if a bracket is not closed or stars stand in a
row. -/
def piecesOf : Nat → List Char → Option (List Piece)
  | 0, _ => some []
  | _, [] => some []
  | fuel + 1, c :: rest =>
    if c = '*' then
      if rest.head? = some '*' then none else (piecesOf fuel rest).map (.many :: ·)
    else if c = '?' then (piecesOf fuel rest).map (.one :: ·)
    else if c = '[' then do
      let negated := rest.head? = some '!'
      let (inside, after) ← cutBracket (if negated then rest.drop 1 else rest)
      return .among negated (rangesOf inside) :: (← piecesOf fuel after)
    else (piecesOf fuel rest).map (.char c :: ·)

/-- A text has a character that stands for others. -/
def hasSigns (cs : List Char) : Bool := cs.any fun c => c = '*' || c = '?' || c = '['

/-- A component from its text. -/
def componentOf (cs : List Char) : Option Component :=
  if cs == ['*', '*'] then some .directories
  else if hasSigns cs then (piecesOf cs.length cs).map .pieces
  else some (.name (String.ofList cs))

/-- A piece stands for a character. -/
def Piece.admits (p : Piece) (c : Char) : Bool :=
  match p with
  | .char d => c = d
  | .one | .many => true
  | .among negated ranges => negated != ranges.any fun (a, b) => a ≤ c && c ≤ b

/-- A list or one of the lists behind it has a property. -/
def anyRest (p : List Char → Bool) : List Char → Bool
  | [] => p []
  | c :: cs => p (c :: cs) || anyRest p cs

/-- The pieces stand for a name. -/
def matchesName : List Piece → List Char → Bool
  | [], cs => cs.isEmpty
  | .many :: ps, cs => anyRest (matchesName ps) cs
  | _ :: _, [] => false
  | p :: ps, c :: cs => p.admits c && matchesName ps cs

/-- A component stands for the name of an entry. -/
def Component.admits (c : Component) (entry : String) : Bool :=
  match c with
  | name s => s = entry
  | pieces ps => matchesName ps entry.toList
  | directories => true

/-! ## Paths -/

/-- The path of the working directory. -/
def here : String := "."

/-- The path of the root. -/
def root : String := "/"

/-- A path with a piece behind it.  In front of a piece of the working directory stands nothing. -/
def joined (path piece : String) : String :=
  if path = here then piece
  else if path.endsWith "/" then path ++ piece
  else path ++ "/" ++ piece

/-- The paths of the entries in the directory that a path leads to. -/
def entriesAt (t : FileTree) (path : String) : List (String × String) :=
  match t.locate path with
  | .ok key =>
    if t.isDirectory key then (t.children key).map fun e => (e.1, joined path e.1) else []
  | .error _ => []

/-- The paths of a directory and of all directories in it. -/
def directoriesAt (t : FileTree) (path : String) : List String :=
  match t.locate path with
  | .ok key =>
    let inner := t.entries.filterMap fun (k, entry) =>
      match entry with
      | .directory =>
        if key.isPrefixOf k && k != key then
          some ((k.drop key.length).foldl joined path) else none
      | .file _ => none
    path :: inner
  | .error _ => []

/-- The dots that a component beginning with a dot stands for. -/
def dotsOf : Component → List String
  | .pieces (.char '.' :: ps) => [".", ".."].filter fun s => matchesName (.char '.' :: ps) s.toList
  | _ => []

/-- The paths that a component leads to from a path on. -/
def stepInto (t : FileTree) (path : String) (c : Component) : List String :=
  match c with
  | .name s =>
    let next := joined path s
    match t.open? next with
    | .ok _ => if (s = "." || s = "..") && !t.hasDirectory path then [] else [next]
    | .error _ => []
  | .pieces _ =>
    let dots := (dotsOf c).filter fun _ => t.hasDirectory path
    (entriesAt t path).filterMap (fun e => if c.admits e.1 then some e.2 else none) ++
      dots.map (joined path)
  | .directories => directoriesAt t path

/-- The paths that components lead to from a path on.  Behind directories of any number stands the
name of an entry, never dots. -/
def expand (t : FileTree) : List Component → String → List String
  | [], path => [path]
  | .directories :: .directories :: rest, path => expand t (.directories :: rest) path
  | .directories :: c :: rest, path =>
    ((directoriesAt t path).flatMap fun d =>
      (entriesAt t d).filterMap fun e => if c.admits e.1 then some e.2 else none).flatMap
        (expand t rest)
  | c :: rest, path => (stepInto t path c).flatMap (expand t rest)

/-- A path that is a pattern. -/
def isPattern (path : String) : Bool := hasSigns path.toList

/-- The paths of the files that a pattern stands for, in order; none if it is no pattern. -/
def glob? (t : FileTree) (path : String) : Option (List String) := do
  let components ← (splitSlashes path.toList).mapM componentOf
  -- What stands in front of the first slash of a path from the root is no component.
  let found := if path.startsWith "/" then expand t (components.drop 1) root
    else expand t components here
  let paths := found.filter fun p =>
    match t.open? p with
    | .ok (.file _) => true
    | _ => false
  return paths.mergeSort fun a b => a ≤ b

end Lineage.Files
