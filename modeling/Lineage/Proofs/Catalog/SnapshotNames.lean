import Lineage.Catalog.Snapshots
import Lineage.Proofs.Decimal.Digits
/-
  Names of snapshots and the versions they stand for.

  There are two ways between names and versions, and they are written independently of each other:
    * `version?`    reads a name: `v`, a number, `.parquet`;
    * `usualName`   writes the name of the file that is read for a version.
  Reading what was written gives the version back (`version?_usualName`).  Writing what was read
  gives the name back only if the number in it is spelled as it is usually written, with no plus
  sign and no zeros in front (`eq_usualName_iff`): reading takes `v007.parquet` and `v+7.parquet`
  for version 7 as well, and writing never makes such names.

  The digits carry the proof.  Writing a number digit by digit, the highest first, is undone by
  reading it; and digits that do not begin with a zero are written again as they are
  (`Decimal.toDigits_ofDigitChars`).
-/

namespace Lineage.Snapshots

open Decimal (toDigits_ofDigitChars head_toDigits isDigit_toDigits)

/-! ## Digits -/

/-- Digits as a number is usually written: a single zero, or no zero in front. -/
def IsUsual (digits : List Char) : Prop := digits = ['0'] ∨ digits.head? ≠ some '0'

/-- What is written for a number is as usual. -/
theorem isUsual_toDigits (n : Nat) : IsUsual (Nat.toDigits 10 n) := by
  rcases Nat.eq_zero_or_pos n with rfl | hpos
  · exact .inl rfl
  · exact .inr (head_toDigits hpos)

/-! ## Numbers in names -/

/-- Digits do not begin with a plus sign. -/
theorem head_ne_plus {digits : List Char} (h : digits.all Char.isDigit = true) :
    digits.head? ≠ some '+' := by
  intro hhead
  have hplus : Char.isDigit '+' = true := List.all_eq_true.mp h _ (List.mem_of_head? hhead)
  exact absurd hplus (by decide)

/-- The digits of a version are read as that version. -/
theorem number?_toDigits (v : UInt64) : number? (Nat.toDigits 10 v.toNat) = some v := by
  have hdigits := isDigit_toDigits v.toNat
  have hplus := head_ne_plus hdigits
  have hvalue : (Nat.toDigits 10 v.toNat).foldl (fun n c => 10 * n + (c.toNat - '0'.toNat)) 0 =
      v.toNat := Nat.ofDigitChars_ten_toDigits
  have hempty : (Nat.toDigits 10 v.toNat).isEmpty = false :=
    List.isEmpty_eq_false_iff.mpr Nat.toDigits_ne_nil
  simp only [number?, if_neg hplus, hempty, hdigits, Bool.not_true, Bool.or_self,
    Bool.false_eq_true, if_false, hvalue]
  rw [if_pos v.toNat_lt, UInt64.ofNat_toNat]

/-- Digits without a plus sign that are read as a version spell its number. -/
theorem digits_of_number? {cs : List Char} {v : UInt64} (h : number? cs = some v)
    (hplus : cs.head? ≠ some '+') :
    cs ≠ [] ∧ cs.all Char.isDigit = true ∧ Nat.ofDigitChars 10 cs 0 = v.toNat := by
  simp only [number?, if_neg hplus] at h
  split at h
  · cases h
  · rename_i hdigits
    simp only [Bool.or_eq_true, not_or, Bool.not_eq_true, Bool.not_eq_false'] at hdigits
    split at h
    · rename_i hlt
      refine ⟨List.isEmpty_eq_false_iff.mp hdigits.1, hdigits.2, ?_⟩
      have hv := congrArg UInt64.toNat (Option.some.inj h)
      rw [UInt64.toNat_ofNat_of_lt' hlt] at hv
      exact hv
    · cases h

/-- A name stands for a version if it is `v`, a spelling of the number, and the ending. -/
theorem version?_eq_some_iff {name : String} {v : UInt64} :
    version? name = some v ↔
      ∃ cs, name.toList = 'v' :: (cs ++ ending) ∧ number? cs = some v := by
  have htake : ∀ cs : List Char,
      (cs ++ ending).take ((cs ++ ending).length - ending.length) = cs := by
    intro cs
    rw [List.length_append, Nat.add_sub_cancel, List.take_left]
  constructor
  · intro h
    unfold version? at h
    dsimp only at h
    split at h
    · rename_i rest hname
      split at h
      · rename_i hsuffix
        obtain ⟨cs, rfl⟩ := List.isSuffixOf_iff_suffix.mp hsuffix
        rw [htake] at h
        exact ⟨cs, hname, h⟩
      · cases h
    · cases h
  · rintro ⟨cs, hname, hnumber⟩
    have hsuffix : ending.isSuffixOf (cs ++ ending) = true :=
      List.isSuffixOf_iff_suffix.mpr (List.suffix_append cs ending)
    simp only [version?, hname, hsuffix, if_true, htake, hnumber]

/-! ## The usual names -/

/-- The name of the file that is read for a version. -/
def usualName (v : UInt64) : String := "v" ++ toString v ++ ".parquet"

theorem usualName_toList (v : UInt64) :
    (usualName v).toList = 'v' :: (Nat.toDigits 10 v.toNat ++ ending) := by
  have hdigits : (toString v).toList = Nat.toDigits 10 v.toNat := Nat.toList_repr
  have hv : "v".toList = ['v'] := rfl
  have hending : ".parquet".toList = ending := rfl
  rw [usualName, String.toList_append, String.toList_append, hdigits, hv, hending]
  rfl

/-- The number in a name has neither a plus sign nor zeros in front. -/
def IsUsualName (name : String) : Prop :=
  ∃ digits, name.toList = 'v' :: (digits ++ ending) ∧ digits.head? ≠ some '+' ∧ IsUsual digits

/-- **The file that is read for a version has a name that stands for it.** -/
theorem version?_usualName (v : UInt64) : version? (usualName v) = some v :=
  version?_eq_some_iff.mpr ⟨_, usualName_toList v, number?_toDigits v⟩

/-- **Of all names that stand for a version, the one that is read is the one spelled as usual.** -/
theorem eq_usualName_iff {name : String} {v : UInt64} (h : version? name = some v) :
    name = usualName v ↔ IsUsualName name := by
  constructor
  · rintro rfl
    refine ⟨_, usualName_toList v, ?_, isUsual_toDigits v.toNat⟩
    exact head_ne_plus (isDigit_toDigits v.toNat)
  · rintro ⟨digits, hname, hplus, husual⟩
    obtain ⟨cs, hcs, hnumber⟩ := version?_eq_some_iff.mp h
    obtain rfl : digits = cs :=
      List.append_cancel_right (List.cons.inj (hname.symm.trans hcs)).2
    obtain ⟨hne, hdigits, hvalue⟩ := digits_of_number? hnumber hplus
    have hwritten := toDigits_ofDigitChars hne hdigits husual
    rw [hvalue] at hwritten
    rw [← String.toList_inj, hname, usualName_toList, hwritten]

end Lineage.Snapshots
