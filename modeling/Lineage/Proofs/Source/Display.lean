import Lineage.Proofs.Decimal.Digits
import Lineage.Proofs.Text.Bytes
import Lineage.Source
/-
  Sources as they are shown to people.

  What is shown for a source are a word for the kind of place, the name of the place between quotes,
  and behind them the version if there is one.  The name is shown as it is: it can hold quotes, and
  end in what looks like a version.

  The source can be told from it all the same (`display_eq_iff`).  No word holds a quote, so the
  first quote ends the word.  No version holds one, so the last quote ends the name, however many
  there are in it: what a name imitates stands in front of that quote.
-/

namespace Lineage.Source

open Decimal (not_mem_toDigits toDigits_injective)

/-- The word for the kind of place. -/
def word : Source → String
  | table (.path _) => "path "
  | table (.tableName _) => "table "
  | table (.sql _) => "query "
  | versioned ⟨.path _, _⟩ => "versioned path "
  | versioned ⟨.tableName _, _⟩ => "versioned table "

/-- The name of the place, or the query. -/
def placeName : Source → String
  | table r => r.entry.2
  | versioned t => t.location.entry.2

/-- The version, if there is one. -/
def version? : Source → Option UInt64
  | table _ => none
  | versioned t => t.version

/-- The source with a word, a name and a version; a version is left out where none is shown. -/
def ofParts? (word name : String) (version : Option UInt64) : Option Source :=
  match word with
  | "path " => some (table (.path name))
  | "table " => some (table (.tableName name))
  | "query " => some (table (.sql name))
  | "versioned path " => some (versioned ⟨.path name, version⟩)
  | "versioned table " => some (versioned ⟨.tableName name, version⟩)
  | _ => none

/-- The word, the name and the version make up the source. -/
theorem ofParts?_parts (s : Source) : ofParts? s.word s.placeName s.version? = some s := by
  rcases s with ⟨p | n | q⟩ | ⟨p | n, v⟩ <;> rfl

theorem quote_not_mem_word (s : Source) : '\'' ∉ s.word.toList := by
  have hwords : ∀ w ∈ ["path ", "table ", "query ", "versioned path ", "versioned table "],
      '\'' ∉ w.toList := by decide
  refine hwords s.word ?_
  rcases s with ⟨p | n | q⟩ | ⟨p | n, v⟩ <;> simp only [word, List.mem_cons, true_or, or_true]

/-! ## Versions -/

/-- What is shown for a version. -/
def versionText : Option UInt64 → List Char
  | none => []
  | some v => ' ' :: '@' :: ' ' :: 'v' :: Nat.toDigits 10 v.toNat

theorem quote_not_mem_versionText (v : Option UInt64) : '\'' ∉ versionText v := by
  cases v with
  | none => exact List.not_mem_nil
  | some v =>
    have hdigits : '\'' ∉ Nat.toDigits 10 v.toNat := not_mem_toDigits (by decide) v.toNat
    simp only [versionText, List.mem_cons, hdigits, or_false]
    decide

theorem versionText_injective {v w : Option UInt64} (h : versionText v = versionText w) : v = w := by
  cases v with
  | none =>
    cases w with
    | none => rfl
    | some w => cases h
  | some v =>
    cases w with
    | none => cases h
    | some w =>
      simp only [versionText, List.cons.injEq, true_and] at h
      rw [UInt64.toNat_inj.mp (toDigits_injective h)]

/-! ## Sources -/

/-- What is shown for a source are a word, a name between quotes, and a version. -/
theorem toList_display (s : Source) : s.display.toList =
    s.word.toList ++ '\'' :: (s.placeName.toList ++ '\'' :: versionText s.version?) := by
  have hdigits : ∀ v : UInt64, (toString v).toList = Nat.toDigits 10 v.toNat :=
    fun _ => Nat.toList_repr
  have htext : ∀ t : String, toString t = t := fun _ => rfl
  rcases s with ⟨p | n | q⟩ | ⟨p | n, none | v⟩ <;>
    simp [display, word, placeName, TableRef.entry, VersionedLocation.entry, version?, versionText,
      hdigits, htext]

/-- **Sources that are shown alike are the same**, whatever their names and versions are. -/
theorem display_eq_iff (s t : Source) : s.display = t.display ↔ s = t := by
  refine ⟨fun h => ?_, fun h => congrArg display h⟩
  have hlists := congrArg String.toList h
  rw [toList_display, toList_display] at hlists
  obtain ⟨hword, hbehind⟩ := Text.split_at (quote_not_mem_word s) (quote_not_mem_word t) hlists
  obtain ⟨hname, hversion⟩ := Text.split_at_last (quote_not_mem_versionText s.version?)
    (quote_not_mem_versionText t.version?) hbehind
  have hsame : ofParts? s.word s.placeName s.version? = ofParts? t.word t.placeName t.version? := by
    rw [String.toList_inj.mp hword, String.toList_inj.mp hname, versionText_injective hversion]
  rw [ofParts?_parts, ofParts?_parts] at hsame
  exact Option.some.inj hsame

/-- A name that ends in what looks like a version is not taken for one. -/
example : (versioned ⟨.path "a' @ v1", none⟩).display = "versioned path 'a' @ v1'" ∧
    (versioned ⟨.path "a", some 1⟩).display = "versioned path 'a' @ v1" := by decide

end Lineage.Source
