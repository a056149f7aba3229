import Lineage.Files.Path
import Lineage.Table.Basic
/-
  A tree of directories and files, and the paths that lead into it.

  The tree is the list of all its entries under the names that lead to them from the root; the root
  itself is always a directory.  One directory is the working directory.  `FileTree.locate` follows
  a path from the root if it begins with a slash, and from the working directory otherwise: dots
  stay where they are, two dots go up, or stay at the root, and whatever has something behind it
  must be a directory.  So no relative path leads anywhere once the working directory is gone.
  Names and paths of too many bytes lead nowhere either.

  There are no symbolic links, and everything may be read and written.
-/

namespace Lineage

/-- What a file holds: text, or a table in the binary format of such files. -/
inductive FileContent where
  | text (s : String)
  | table (t : Table)
deriving Inhabited

/-- A thing in a tree. -/
inductive FileEntry where
  | directory
  | file (content : FileContent)
deriving Inhabited

/-- The names that lead from the root to an entry. -/
abbrev FileKey := List String

/-- A tree of directories and files. -/
structure FileTree where
  entries : List (FileKey × FileEntry)
  /-- The names that lead to the working directory. -/
  base : FileKey
deriving Inhabited

/-- Why a path leads nowhere. -/
inductive PathFault where
  | missing
  | notDirectory
  /-- The path, or a name in it, has too many bytes. -/
  | tooLong
  /-- A character that no name has stands in it. -/
  | zeroCharacter
deriving DecidableEq, Repr

/-- The wording of a path that leads nowhere. -/
def PathFault.message : PathFault → String
  | missing => "No such file or directory (os error 2)"
  | notDirectory => "Not a directory (os error 20)"
  | tooLong => "File name too long (os error 36)"
  | zeroCharacter => "file name contained an unexpected NUL byte"

namespace FileTree

/-- The tree with nothing in it; its root is the working directory. -/
def empty : FileTree := ⟨[], []⟩

/-- The entry under some names. -/
def get? (t : FileTree) (key : FileKey) : Option FileEntry :=
  if key.isEmpty then some .directory else t.entries.lookup key

/-- The names lead to a directory. -/
def isDirectory (t : FileTree) (key : FileKey) : Bool :=
  match t.get? key with
  | some .directory => true
  | _ => false

/-! ## Paths -/

/-- Something follows behind these names, so they must lead to a directory. -/
def passThrough (t : FileTree) (key : FileKey) : Except PathFault Unit :=
  match t.get? key with
  | some .directory => .ok ()
  | some (.file _) => .error .notDirectory
  | none => .error .missing

/-- The most bytes that a name may have. -/
def longestName : Nat := 255

/-- The most bytes that a path may have. -/
def longestPath : Nat := 4095

/-- One piece of a path, from the place reached so far. -/
def follow (t : FileTree) (key : FileKey) (piece : List Char) : Except PathFault FileKey := do
  t.passThrough key
  if piece.isEmpty || piece == ['.'] then return key
  else if piece == ['.', '.'] then return key.dropLast
  else if longestName < (String.ofList piece).utf8ByteSize then .error .tooLong
  else return key ++ [String.ofList piece]

/-- Where a path begins: at the root, or in the working directory. -/
def start (t : FileTree) (path : String) : FileKey := if path.startsWith "/" then [] else t.base

/-- The names that a path stands for. -/
def locate (t : FileTree) (path : String) : Except PathFault FileKey :=
  if path.toList.contains '\x00' then .error .zeroCharacter
  else if longestPath < path.utf8ByteSize then .error .tooLong
  else if path.isEmpty then .error .missing
  else (Files.splitSlashes path.toList).foldlM t.follow (t.start path)

/-- A path leads to a directory. -/
def hasDirectory (t : FileTree) (path : String) : Bool :=
  match t.locate path with
  | .ok key => t.isDirectory key
  | .error _ => false

/-- The entry that a path leads to. -/
def open? (t : FileTree) (path : String) : Except PathFault FileEntry := do
  let key ← t.locate path
  match t.get? key with
  | some entry => return entry
  | none => .error .missing

/-- The names in a directory with their entries. -/
def children (t : FileTree) (key : FileKey) : List (String × FileEntry) :=
  t.entries.filterMap fun (k, entry) =>
    match k.getLast? with
    | some name => if k.dropLast = key then some (name, entry) else none
    | none => none

/-! ## Changes -/

/-- Puts an entry in its place, instead of one that may be there. -/
def put (t : FileTree) (key : FileKey) (entry : FileEntry) : FileTree :=
  { t with entries := t.entries.filter (fun e => e.1 != key) ++ [(key, entry)] }

/-- Makes the directories on the way to some names, and the last one. -/
def makeDirectories (t : FileTree) (key : FileKey) : FileTree :=
  let stages := (List.range key.length).map fun i => key.take (i + 1)
  stages.foldl (fun t k => if (t.get? k).isSome then t else t.put k .directory) t

/-- Makes a directory and those above it, and goes there. -/
def enter (t : FileTree) (key : FileKey) : FileTree := { t.makeDirectories key with base := key }

/-- One piece of a path as it is written, whatever is there. -/
def followPlain (key : FileKey) (piece : List Char) : FileKey :=
  if piece.isEmpty || piece == ['.'] then key
  else if piece == ['.', '.'] then key.dropLast
  else key ++ [String.ofList piece]

/-- The names of a path as it is written. -/
def plainKey (t : FileTree) (path : String) : FileKey :=
  (Files.splitSlashes path.toList).foldl followPlain (t.start path)

/-- Makes a directory and those above it. -/
def makeDirectory (t : FileTree) (path : String) : FileTree := t.makeDirectories (t.plainKey path)

/-- Writes a file, and makes the directories above it. -/
def write (t : FileTree) (path : String) (content : FileContent) : FileTree :=
  let key := t.plainKey path
  (t.makeDirectories key.dropLast).put key (.file content)

/-- Removes a file, or a directory with all it holds. -/
def remove (t : FileTree) (path : String) : FileTree :=
  let key := t.plainKey path
  { t with entries := t.entries.filter fun e => !(key.isPrefixOf e.1) }

/-- Appends to the text of a file, which is made if its directory is there.  Where that cannot be
done nothing happens. -/
def append (t : FileTree) (path : String) (text : String) : FileTree :=
  match t.locate path with
  | .error _ => t
  | .ok key =>
    match t.get? key with
    | some (.file (.text old)) => t.put key (.file (.text (old ++ text)))
    | some (.file (.table _)) => t
    | some .directory => t
    | none => if t.isDirectory key.dropLast then t.put key (.file (.text text)) else t

/-- The text of a file. -/
def text? (t : FileTree) (path : String) : Option String :=
  match t.open? path with
  | .ok (.file (.text s)) => some s
  | _ => none

end FileTree
end Lineage
