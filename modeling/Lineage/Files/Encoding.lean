/-
  Texts of files.

  A text may begin with a mark that only tells how its characters are encoded.
-/

namespace Lineage.Files

/-- The characters of a text without the mark of its encoding. -/
def charsOf (text : String) : List Char :=
  match text.toList with
  | '\ufeff' :: rest => rest
  | cs => cs

end Lineage.Files
