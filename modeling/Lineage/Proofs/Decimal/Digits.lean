/-
  Decimal digits of natural numbers.

  What is written for a number consists of digits, the first of which is a zero only if the number
  is zero.  Digits behind a positive number are written again as they are, by induction on them, and
  so are all digits without a needless zero in front (`toDigits_ofDigitChars`).
-/

namespace Lineage.Decimal

/-- A digit is written for its own value. -/
theorem digitChar_of_isDigit {c : Char} (h : c.isDigit = true) :
    (c.toNat - '0'.toNat).digitChar = c ∧ c.toNat - '0'.toNat < 10 := by
  obtain ⟨hlow, hhigh⟩ := Char.isDigit_iff_toNat.mp h
  have hzero : '0'.toNat = 48 := rfl
  have hnine : '9'.toNat = 57 := rfl
  have hlt : c.toNat - '0'.toNat < 10 := by omega
  refine ⟨?_, hlt⟩
  rw [← Char.toNat_inj, Nat.toNat_digitChar_of_lt_ten hlt]
  omega

/-- Digits behind a positive number are written as they are. -/
theorem toDigits_append {n : Nat} (hn : 0 < n) :
    ∀ {digits : List Char}, digits.all Char.isDigit = true →
      Nat.toDigits 10 (Nat.ofDigitChars 10 digits n) = Nat.toDigits 10 n ++ digits
  | [], _ => by rw [Nat.ofDigitChars_nil, List.append_nil]
  | c :: digits, h => by
    obtain ⟨hc, hdigits⟩ := Bool.and_eq_true_iff.mp (List.all_cons ▸ h)
    obtain ⟨hchar, hlt⟩ := digitChar_of_isDigit hc
    have hpos : 0 < 10 * n + (c.toNat - '0'.toNat) := by omega
    rw [Nat.ofDigitChars_cons, toDigits_append hpos hdigits,
      ← Nat.toDigits_append_toDigits (by omega) hn hlt, Nat.toDigits_of_lt_base hlt, hchar,
      List.append_assoc, List.singleton_append]

/-- Digits are what is written for their number, if no needless zero is in front. -/
theorem toDigits_ofDigitChars {digits : List Char} (hne : digits ≠ [])
    (h : digits.all Char.isDigit = true) (hfirst : digits = ['0'] ∨ digits.head? ≠ some '0') :
    Nat.toDigits 10 (Nat.ofDigitChars 10 digits 0) = digits := by
  rcases hfirst with rfl | hhead
  · rfl
  cases digits with
  | nil => exact absurd rfl hne
  | cons c digits =>
    obtain ⟨hc, hdigits⟩ := Bool.and_eq_true_iff.mp (List.all_cons ▸ h)
    obtain ⟨hchar, hlt⟩ := digitChar_of_isDigit hc
    -- The first digit is not the zero, so it is worth something.
    have hpos : 0 < c.toNat - '0'.toNat := by
      rcases Nat.eq_zero_or_pos (c.toNat - '0'.toNat) with hzero | hpos
      · rw [hzero] at hchar
        exact absurd (congrArg some hchar.symm) hhead
      · exact hpos
    rw [Nat.ofDigitChars_cons, Nat.mul_zero, Nat.zero_add, toDigits_append hpos hdigits,
      Nat.toDigits_of_lt_base hlt, hchar, List.singleton_append]

/-- What is written for a positive number has no zero in front. -/
theorem head_toDigits {n : Nat} (hn : 0 < n) : (Nat.toDigits 10 n).head? ≠ some '0' := by
  induction n using Nat.strongRecOn with
  | ind n ih =>
    rcases Nat.lt_or_ge n 10 with hlt | hge
    · rw [Nat.toDigits_of_lt_base hlt]
      intro hhead
      have hzero : n = 0 := Nat.digitChar_eq_zero.mp (Option.some.inj hhead)
      omega
    · -- The digits of the quotient by ten stand in front, and there are some.
      intro hhead
      obtain ⟨c, rest, hdigits⟩ :=
        List.exists_cons_of_ne_nil (Nat.toDigits_ne_nil (b := 10) (n := n / 10))
      rw [Nat.toDigits_of_base_le (by omega) hge, hdigits] at hhead
      refine ih (n / 10) (by omega) (by omega) ?_
      rw [hdigits]
      exact hhead

theorem isDigit_toDigits (n : Nat) : (Nat.toDigits 10 n).all Char.isDigit = true := by
  rw [List.all_eq_true]
  intro c hc
  exact Nat.isDigit_of_mem_toDigits (by omega) (by omega) hc

theorem not_mem_toDigits {c : Char} (h : c.isDigit = false) (n : Nat) : c ∉ Nat.toDigits 10 n := by
  intro hc
  have hdigit := List.all_eq_true.mp (isDigit_toDigits n) c hc
  exact absurd hdigit (h.symm ▸ Bool.false_ne_true)

/-- Different numbers are written differently. -/
theorem toDigits_injective {n m : Nat} (h : Nat.toDigits 10 n = Nat.toDigits 10 m) : n = m := by
  have hn : Nat.ofDigitChars 10 (Nat.toDigits 10 n) 0 = n := Nat.ofDigitChars_ten_toDigits
  rw [h, Nat.ofDigitChars_ten_toDigits] at hn
  exact hn.symm

theorem toList_toString (n : Nat) : (toString n).toList = Nat.toDigits 10 n := by
  rw [Nat.toString_eq_ofList_toDigits, String.toList_ofList]

end Lineage.Decimal
