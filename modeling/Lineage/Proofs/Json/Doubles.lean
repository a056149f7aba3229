import Lineage.Json.Printer
import Lineage.Proofs.Decimal.Scaling
import Lineage.Proofs.Json.Scalars
/-
  Doubles that are printed and read again.

  A finite double is printed by its shortest decimal, and what is read of the text is that decimal
  again, digit for digit (`spelt_unsigned`): at most 18 digits and a small power of ten, so none is
  cut off.  The reader then makes a double of the digits and scales it by the power of ten, in
  doubles: it rounds up to three times.  `reread` is what comes of that.  It need not be the double
  that was printed; it is if the digits and the power of ten are doubles themselves, because then
  only the last step rounds (`reread_eq`).
-/

namespace Lineage.Json

open Binary64 (isNaN_of_isFinite isInfinite_of_isFinite)
open Decimal (Numeral Layout shortest digitChars zeros)

/-- All digits of a number below `2^64` are taken: those in front, and then those behind the
point. -/
theorem takeDigits_parts {whole digits : List Char} {n : Nat}
    (hvalue : Nat.ofDigitChars 10 (whole ++ digits) 0 = n) (hlt : n < 2 ^ 64) :
    ∃ m, takeDigits (2 ^ 64) 0 whole = (m, []) ∧ takeDigits (2 ^ 64) m digits = (n, []) := by
  rw [Nat.ofDigitChars_append] at hvalue
  have hfront : Nat.ofDigitChars 10 whole 0 < 2 ^ 64 := by
    refine Nat.lt_of_le_of_lt (le_ofDigitChars digits _) ?_
    rwa [hvalue]
  refine ⟨_, takeDigits_of_lt hfront, ?_⟩
  rw [← hvalue]
  exact takeDigits_of_lt (hvalue ▸ hlt)

theorem number_of_fraction {whole digits : List Char} {n : Nat}
    (hvalue : Nat.ofDigitChars 10 (whole ++ digits) 0 = n) (hlt : n < 2 ^ 64) (negative : Bool)
    (stop : List Char) : NumberParts.number ⟨whole, some digits, none⟩ negative stop =
      scaled negative n (-(digits.length : ℤ)) stop := by
  obtain ⟨m, hwhole, hdigits⟩ := takeDigits_parts hvalue hlt
  simp only [NumberParts.number, hwhole, hdigits, Option.isNone_some, Bool.false_and,
    Bool.false_eq_true, if_false, List.length_nil, Nat.sub_zero, Nat.cast_zero, zero_sub]

theorem number_of_exponent {whole digits : List Char} {fraction : Option (List Char)} {n : Nat}
    (hvalue : Nat.ofDigitChars 10 (whole ++ fraction.getD []) 0 = n) (hlt : n < 2 ^ 64)
    (hexponent : Nat.ofDigitChars 10 digits 0 < 2 ^ 31) (upward negative : Bool) (stop : List Char) :
    NumberParts.number ⟨whole, fraction, some (upward, digits)⟩ negative stop =
      scaled negative n
        (if upward then -((fraction.getD []).length : ℤ) + Nat.ofDigitChars 10 digits 0
          else -((fraction.getD []).length : ℤ) - Nat.ofDigitChars 10 digits 0) stop := by
  obtain ⟨m, hwhole, hdigits⟩ := takeDigits_parts hvalue hlt
  have htake := takeDigits_of_lt hexponent
  cases fraction with
  | none =>
    obtain rfl : m = n := (Prod.mk.inj hdigits).1
    simp only [NumberParts.number, hwhole, htake, Option.getD_none, List.length_nil, Nat.cast_zero,
      neg_zero, sub_zero]
  | some ds =>
    have hdigits' : takeDigits (2 ^ 64) m ds = (n, []) := hdigits
    simp only [NumberParts.number, hwhole, hdigits', htake, Option.getD_some, List.length_nil,
      Nat.sub_zero, Nat.cast_zero, zero_sub]

/-! ## What is written for a decimal -/

/-- The exponent of the first digit, by which the layout is chosen. -/
def firstPower (d : Numeral) : ℤ := d.exponent + (digitChars d.digits).length - 1

/-- The decimal as it stands in exchanged text: a whole number that is written without an exponent has
a zero behind its point. -/
def withPoint (d : Numeral) : Numeral :=
  if 0 ≤ d.exponent ∧ Layout.exchange.positional (firstPower d) = true then
    ⟨d.digits * 10 ^ (d.exponent.toNat + 1), -1⟩
  else d

theorem value_withPoint (d : Numeral) : (withPoint d).value = d.value := by
  unfold withPoint
  split_ifs with h
  · rw [Numeral.value_of_nonneg h.1, Numeral.value, Nat.pow_succ]
    push_cast
    rw [zpow_neg, zpow_one]
    field_simp
  · rfl

theorem all_zeros (k : Nat) : (zeros k).all Char.isDigit = true := by
  rw [List.all_eq_true]
  intro c hc
  rw [List.eq_of_mem_replicate hc]
  rfl

/-- Zeros behind a number multiply it. -/
theorem ofDigitChars_zeros (k : Nat) : ∀ n, Nat.ofDigitChars 10 (zeros k) n = n * 10 ^ k := by
  induction k with
  | zero => exact fun n => (Nat.mul_one n).symm
  | succ k ih =>
    intro n
    show Nat.ofDigitChars 10 ('0' :: zeros k) n = _
    have hzero : '0'.toNat - '0'.toNat = 0 := rfl
    rw [Nat.ofDigitChars_cons, ih, hzero, Nat.add_zero, Nat.pow_succ]
    ring

theorem toDigits_zeros {n : Nat} (hn : 0 < n) (k : Nat) :
    Nat.toDigits 10 (n * 10 ^ k) = Nat.toDigits 10 n ++ zeros k := by
  rw [← ofDigitChars_zeros, Decimal.toDigits_append hn (all_zeros k)]

/-- The text is that of parts which make this decimal of it. -/
def Spelt (text : List Char) (d : Numeral) : Prop :=
  ∃ p : NumberParts, p.Fits ∧ text = p.print ∧
    ∀ negative stop, p.number negative stop = scaled negative d.digits d.exponent stop

/-- A whole number has a point and a zero behind it. -/
theorem spelt_whole {n : Nat} (hlt : 10 * n < 2 ^ 64) :
    Spelt (Nat.toDigits 10 n ++ ['.', '0']) ⟨10 * n, -1⟩ := by
  have hzero : ∀ digits, some ['0'] = some digits → Digits digits := by
    intro digits h
    obtain rfl := Option.some.inj h
    exact ⟨List.cons_ne_nil _ _, rfl⟩
  have hvalue : Nat.ofDigitChars 10 (Nat.toDigits 10 n ++ ['0']) 0 = 10 * n := by
    rw [Nat.ofDigitChars_append, Nat.ofDigitChars_ten_toDigits]
    rfl
  refine ⟨⟨Nat.toDigits 10 n, some ['0'], none⟩, ⟨isLead_toDigits n, hzero, ?_⟩, rfl, ?_⟩
  · exact fun _ _ h => by cases h
  · exact number_of_fraction hvalue hlt

/-- The digits of a number, and zeros in front of them if there are not more digits than places. -/
def padded (n places : Nat) : List Char :=
  zeros (places + 1 - (Nat.toDigits 10 n).length) ++ Nat.toDigits 10 n

theorem all_padded (n places : Nat) : (padded n places).all Char.isDigit = true := by
  rw [padded, List.all_append, all_zeros, Decimal.isDigit_toDigits]
  rfl

theorem value_padded (n places : Nat) : Nat.ofDigitChars 10 (padded n places) 0 = n := by
  rw [padded, Nat.ofDigitChars_append, ofDigitChars_zeros, Nat.zero_mul,
    Nat.ofDigitChars_ten_toDigits]

theorem lt_length_padded (n places : Nat) : places < (padded n places).length := by
  rw [padded, List.length_append, zeros, List.length_replicate]
  omega

/-- In front of the places stands no needless zero. -/
theorem isLead_padded {n : Nat} (hn : 0 < n) (places : Nat) :
    IsLead ((padded n places).take ((padded n places).length - places)) := by
  have hlength := lt_length_padded n places
  refine ⟨?_, ?_, ?_⟩
  · rw [← List.length_pos_iff, List.length_take]
    omega
  · rw [List.all_eq_true]
    intro c hc
    exact List.all_eq_true.mp (all_padded n places) c (List.mem_of_mem_take hc)
  · rcases Nat.lt_or_ge places (Nat.toDigits 10 n).length with hmore | hless
    · -- There are digits in front of the point.
      have hnone : places + 1 - (Nat.toDigits 10 n).length = 0 := by omega
      have hdigits : padded n places = Nat.toDigits 10 n := by
        rw [padded, hnone]
        rfl
      have hhead := List.head?_take (l := padded n places) (i := (padded n places).length - places)
      rw [if_neg (by omega)] at hhead
      rw [hhead, hdigits]
      exact .inr (Decimal.head_toDigits hn)
    · -- There is a zero.
      obtain ⟨k, hk⟩ : ∃ k, places + 1 - (Nat.toDigits 10 n).length = k + 1 :=
        ⟨places - (Nat.toDigits 10 n).length, by omega⟩
      have hone : (padded n places).length - places = 1 := by
        rw [padded, List.length_append, zeros, List.length_replicate]
        omega
      rw [hone, padded, hk]
      exact .inl rfl

/-- A decimal with places behind the point has as many digits there. -/
theorem spelt_places {n places : Nat} (hn : 0 < n) (hlt : n < 2 ^ 64) (hplaces : 0 < places) :
    Spelt (Decimal.positionalText true ⟨n, -(places : ℤ)⟩) ⟨n, -(places : ℤ)⟩ := by
  have hneg : ¬ 0 ≤ -(places : ℤ) := by omega
  have hcount : (- -(places : ℤ)).toNat = places := by omega
  have hlength := lt_length_padded n places
  have hsplit := List.take_append_drop ((padded n places).length - places) (padded n places)
  have hbehind : ((padded n places).drop ((padded n places).length - places)).length = places := by
    rw [List.length_drop]
    omega
  have hvalue := value_padded n places
  rw [← hsplit] at hvalue
  refine ⟨⟨_, some ((padded n places).drop ((padded n places).length - places)), none⟩,
    ⟨isLead_padded hn places, ?_, ?_⟩, ?_, ?_⟩
  · intro digits h
    obtain rfl := Option.some.inj h
    refine ⟨List.ne_nil_of_length_pos (by omega), ?_⟩
    rw [List.all_eq_true]
    intro c hc
    exact List.all_eq_true.mp (all_padded n places) c (List.mem_of_mem_drop hc)
  · exact fun _ _ h => by cases h
  · show _ = _ ++ ('.' :: _ ++ [])
    rw [List.append_nil]
    simp only [Decimal.positionalText, digitChars, if_neg hneg, hcount]
    rfl
  · intro negative stop
    rw [number_of_fraction hvalue hlt, hbehind]

/-- The parts of a decimal with an exponent, of which the first digit stands in front of the
point. -/
def scientificParts (c : Char) (tail : List Char) (k : ℤ) : NumberParts :=
  ⟨[c], if tail.isEmpty then none else some tail, some (decide (0 ≤ k), Nat.toDigits 10 k.natAbs)⟩

theorem fits_scientificParts {c : Char} {tail : List Char} (hall : (c :: tail).all Char.isDigit = true)
    (hhead : c ≠ '0') (k : ℤ) : (scientificParts c tail k).Fits := by
  obtain ⟨hc, htail⟩ := Bool.and_eq_true_iff.mp (List.all_cons ▸ hall)
  refine ⟨⟨List.cons_ne_nil _ _, ?_, .inr fun h => hhead (Option.some.inj h)⟩, ?_, ?_⟩
  · show (c :: []).all Char.isDigit = true
    rw [List.all_cons, hc]
    rfl
  · intro digits h
    show Digits digits
    simp only [scientificParts] at h
    split_ifs at h with hempty
    obtain rfl := Option.some.inj h
    exact ⟨fun hnil => hempty (hnil ▸ rfl), htail⟩
  · intro upward digits h
    obtain ⟨-, rfl⟩ := Prod.mk.inj (Option.some.inj h)
    exact digits_toDigits k.natAbs

theorem print_scientificParts {d : Numeral} {c : Char} {tail : List Char}
    (hdigits : Nat.toDigits 10 d.digits = c :: tail) : Decimal.scientificText true d =
      (scientificParts c tail (d.exponent + tail.length)).print := by
  obtain ⟨k, hk⟩ : ∃ k : ℤ, d.exponent + (tail.length : ℤ) = k := ⟨_, rfl⟩
  have hfraction : fractionText (if tail.isEmpty then none else some tail) =
      if tail.isEmpty then [] else '.' :: tail := by
    cases tail <;> rfl
  have hsign : (if k < 0 then ['-'] else ['+']) = [if decide (0 ≤ k) then '+' else '-'] := by
    by_cases hneg : k < 0
    · rw [if_pos hneg, decide_eq_false (by omega)]
      rfl
    · rw [if_neg hneg, decide_eq_true (by omega)]
      rfl
  have htake : (c :: tail).take 1 = [c] := rfl
  have hdrop : (c :: tail).drop 1 = tail := rfl
  have hcount : (c :: tail).length - 1 = tail.length := rfl
  simp only [Decimal.scientificText, digitChars, hdigits, hcount, hk, htake, hdrop, if_true, hsign,
    scientificParts, NumberParts.print, hfraction, exponentText, List.append_assoc, List.cons_append,
    List.nil_append]

/-- A decimal with an exponent has one digit in front of the point. -/
theorem spelt_exponent {d : Numeral} (hn : 0 < d.digits) (hlt : d.digits < 2 ^ 64)
    (hexponent : d.exponent.natAbs + (Nat.toDigits 10 d.digits).length < 2 ^ 31) :
    Spelt (Decimal.scientificText true d) d := by
  have hall := Decimal.isDigit_toDigits d.digits
  have hhead := Decimal.head_toDigits hn
  have hvalue : Nat.ofDigitChars 10 (Nat.toDigits 10 d.digits) 0 = d.digits :=
    Nat.ofDigitChars_ten_toDigits
  obtain ⟨c, tail, hdigits⟩ :=
    List.exists_cons_of_ne_nil (Nat.toDigits_ne_nil (b := 10) (n := d.digits))
  have htext := print_scientificParts hdigits
  rw [hdigits] at hall hhead hvalue
  rw [hdigits, List.length_cons] at hexponent
  refine ⟨_, fits_scientificParts hall (fun hc => hhead (congrArg some hc)) _, htext, ?_⟩
  intro negative stop
  obtain ⟨k, hk⟩ : ∃ k : ℤ, d.exponent + (tail.length : ℤ) = k := ⟨_, rfl⟩
  have htail : (if tail.isEmpty then none else some tail).getD [] = tail := by
    cases tail <;> rfl
  have hdigits' : Nat.ofDigitChars 10 ([c] ++ (if tail.isEmpty then none else some tail).getD []) 0 =
      d.digits := by
    rw [htail]
    exact hvalue
  have hpower : Nat.ofDigitChars 10 (Nat.toDigits 10 k.natAbs) 0 = k.natAbs :=
    Nat.ofDigitChars_ten_toDigits
  rw [hk, scientificParts, number_of_exponent hdigits' hlt (by omega), htail, hpower]
  congr 1
  by_cases hup : 0 ≤ k
  · rw [if_pos (decide_eq_true hup)]
    omega
  · rw [decide_eq_false hup, if_neg Bool.false_ne_true]
    omega

section Exchanged

variable {d : Numeral}

theorem unsigned_of_positional (h : Layout.exchange.positional (firstPower d) = true) :
    Layout.exchange.unsigned d = Decimal.positionalText true d := by
  have hchosen : (d.digits = 0 || Layout.exchange.positional (firstPower d)) = true := by
    rw [h, Bool.or_true]
  exact if_pos hchosen

theorem unsigned_of_scientific (hn : 0 < d.digits)
    (h : ¬ Layout.exchange.positional (firstPower d) = true) :
    Layout.exchange.unsigned d = Decimal.scientificText true d := by
  have hchosen : ¬ (d.digits = 0 || Layout.exchange.positional (firstPower d)) = true := by
    rw [Bool.or_eq_true, decide_eq_true_eq, not_or]
    exact ⟨hn.ne', h⟩
  exact if_neg hchosen

/-- A whole number that is written without an exponent has sixteen digits at most. -/
theorem whole_lt (h : Layout.exchange.positional (firstPower d) = true) (hwhole : 0 ≤ d.exponent) :
    d.digits * 10 ^ d.exponent.toNat < 10 ^ 16 := by
  have hlength : (Nat.toDigits 10 d.digits).length + d.exponent.toNat ≤ 16 := by
    obtain ⟨-, hfirst⟩ := Bool.and_eq_true_iff.mp h
    have hlt : d.exponent + (Nat.toDigits 10 d.digits).length - 1 < 16 := of_decide_eq_true hfirst
    omega
  have hdigits : d.digits < 10 ^ (Nat.toDigits 10 d.digits).length :=
    (Nat.length_toDigits_le_iff (by decide) Nat.length_toDigits_pos).mp (Nat.le_refl _)
  calc d.digits * 10 ^ d.exponent.toNat
      < 10 ^ (Nat.toDigits 10 d.digits).length * 10 ^ d.exponent.toNat :=
        Nat.mul_lt_mul_of_pos_right hdigits (Nat.pow_pos (by decide))
    _ = 10 ^ ((Nat.toDigits 10 d.digits).length + d.exponent.toNat) := (Nat.pow_add ..).symm
    _ ≤ 10 ^ 16 := Nat.pow_le_pow_right (by decide) hlength

theorem positionalText_of_nonneg (h : d = ⟨0, 0⟩ ∨ 0 < d.digits) (hwhole : 0 ≤ d.exponent) :
    Decimal.positionalText true d =
      Nat.toDigits 10 (d.digits * 10 ^ d.exponent.toNat) ++ ['.', '0'] := by
  have hdigits : digitChars d.digits ++ zeros d.exponent.toNat =
      Nat.toDigits 10 (d.digits * 10 ^ d.exponent.toNat) := by
    rcases h with rfl | hpos
    · rfl
    · exact (toDigits_zeros hpos _).symm
  rw [Decimal.positionalText, if_pos hwhole, hdigits]
  rfl

/-- **The text of a decimal in exchanged text is read as that decimal.** -/
theorem spelt_unsigned (h : d = ⟨0, 0⟩ ∨ 0 < d.digits) (hmost : d.digits ≤ 10 ^ 17)
    (hexponent : d.exponent.natAbs ≤ 400) : Spelt (Layout.exchange.unsigned d) (withPoint d) := by
  by_cases hpositional : Layout.exchange.positional (firstPower d) = true
  · rw [unsigned_of_positional hpositional]
    by_cases hwhole : 0 ≤ d.exponent
    · have hpoint : withPoint d = ⟨10 * (d.digits * 10 ^ d.exponent.toNat), -1⟩ := by
        rw [withPoint, if_pos ⟨hwhole, hpositional⟩, Nat.pow_succ]
        congr 1
        ring
      have hsmall := whole_lt hpositional hwhole
      rw [hpoint, positionalText_of_nonneg h hwhole]
      exact spelt_whole (by omega)
    · have hpos : 0 < d.digits := by
        rcases h with rfl | hpos
        · exact absurd (Int.le_refl 0) hwhole
        · exact hpos
      have hpoint : withPoint d = d := by rw [withPoint, if_neg fun h => hwhole h.1]
      have hplaces : d = ⟨d.digits, -((-d.exponent).toNat : ℤ)⟩ := by
        obtain ⟨n, e⟩ := d
        congr 1
        dsimp only at hwhole ⊢
        omega
      rw [hpoint, hplaces]
      exact spelt_places hpos (by omega) (by omega)
  · have hpos : 0 < d.digits := by
      rcases h with rfl | hpos
      · exact absurd rfl hpositional
      · exact hpos
    have hpoint : withPoint d = d := by rw [withPoint, if_neg fun h => hpositional h.2]
    have hlength : (Nat.toDigits 10 d.digits).length ≤ 18 :=
      (Nat.length_toDigits_le_iff (by decide) (by decide)).mpr (by omega)
    rw [hpoint, unsigned_of_scientific hpos hpositional]
    exact spelt_exponent hpos (by omega) (by omega)

end Exchanged

/-! ## Doubles -/

/-- The decimal that is written for a double. -/
def decimal (x : Binary64) : Numeral := shortest Layout.exchange.tie x

/-- What is read of the decimal that is written for a double: its digits, rounded, and scaled by the
power of ten, which is rounded too. -/
def reread (x : Binary64) : Binary64 :=
  let d := withPoint (decimal x)
  let y := (scaleByTen 4 (.ofNat d.digits) d.exponent).getD (.infinity false)
  if x.isNegative then y.neg else y

section Doubles

variable {x : Binary64}

theorem decimal_of_isZero (h : x.isZero = true) : decimal x = ⟨0, 0⟩ := by
  rw [decimal, shortest, if_pos h]

/-- What is printed for a finite double is its decimal, behind a sign. -/
theorem print_float (hfinite : x.isFinite = true) :
    (Number.float x).print =
      (if x.isNegative then ['-'] else []) ++ Layout.exchange.unsigned (decimal x) := by
  simp only [Number.print, hfinite, if_true, Layout.text, isNaN_of_isFinite hfinite,
    isInfinite_of_isFinite hfinite, Bool.false_eq_true, if_false, String.toList_ofList]
  rfl

/-- **The decimal of a finite double is one that it is the nearest double to.** -/
theorem contains_decimal (x : Binary64) :
    (Decimal.roundingInterval x).Contains (decimal x).value := by
  cases hzero : x.isZero with
  | false => exact (Decimal.shortest_spec hzero _).1
  | true =>
    have hmagnitude : x.magnitude = 0 := beq_iff_eq.mp hzero
    have hparts := x.magnitude_eq
    have hsignificand : x.significand = 0 := by omega
    have hvalue : (⟨0, 0⟩ : Numeral).value = 0 := by simp only [Numeral.value, Nat.cast_zero, zero_mul]
    have hlow : (Decimal.roundingInterval x).low = 0 := by
      simp only [Decimal.roundingInterval, hsignificand]
      omega
    have hclosed : (Decimal.roundingInterval x).closed = true := by
      simp only [Decimal.roundingInterval, hsignificand]
      rfl
    rw [decimal_of_isZero hzero, hvalue]
    refine ⟨?_, ?_, fun _ => hclosed, fun _ => hclosed⟩
    · rw [hlow, Nat.cast_zero, zero_div]
    · exact div_nonneg (Nat.cast_nonneg _) (Nat.cast_nonneg _)

/-- A finite double has a decimal of seventeen digits at most, with a small exponent. -/
theorem decimal_bounds (hfinite : x.isFinite = true) :
    (decimal x = ⟨0, 0⟩ ∨ 0 < (decimal x).digits) ∧ (decimal x).digits ≤ 10 ^ 17 ∧
      (decimal x).exponent.natAbs ≤ 400 := by
  cases hzero : x.isZero with
  | true =>
    rw [decimal_of_isZero hzero]
    exact ⟨.inl rfl, by decide, by decide⟩
  | false =>
    obtain ⟨-, hpos, hmost⟩ := Decimal.shortest_spec hzero Layout.exchange.tie
    obtain ⟨hlow, hhigh⟩ := Decimal.shortest_exponent hfinite hzero
    exact ⟨.inr hpos, hmost, by unfold decimal; omega⟩

/-- **No finite double is too large to be read back.** -/
theorem scaleByTen_decimal (hfinite : x.isFinite = true) :
    ∃ y, scaleByTen 4 (.ofNat (withPoint (decimal x)).digits) (withPoint (decimal x)).exponent = some y := by
  rw [← Option.ne_none_iff_exists']
  by_cases hneg : (withPoint (decimal x)).exponent < 0
  · exact scaleByTen_ne_none_of_neg 4 _ hneg
  · -- A power of ten that is positive is written as an exponent.
    have hpoint : withPoint (decimal x) = decimal x := by
      unfold withPoint at hneg ⊢
      split_ifs at hneg ⊢
      · exact absurd (show (-1 : ℤ) < 0 by decide) hneg
      · rfl
    rw [hpoint] at hneg ⊢
    obtain ⟨hcases, hmost, -⟩ := decimal_bounds hfinite
    obtain ⟨k, hk⟩ := Int.eq_ofNat_of_zero_le (not_lt.mp hneg)
    have hproduct : (decimal x).digits * 10 ^ k ≤ Decimal.greatestValue ∧ k ≤ 308 := by
      cases hzero : x.isZero with
      | true =>
        rw [decimal_of_isZero hzero] at hk ⊢
        dsimp only at hk ⊢
        exact ⟨by rw [Nat.zero_mul]; exact Nat.zero_le _, by omega⟩
      | false =>
        have hle : (decimal x).value ≤ Decimal.greatestValue :=
          Decimal.shortest_le_greatest hfinite hzero
        have hexponent : (decimal x).exponent ≤ 308 := (Decimal.shortest_exponent hfinite hzero).2
        rw [Numeral.value_of_nonneg (not_lt.mp hneg), Nat.cast_le, hk, Int.toNat_natCast] at hle
        exact ⟨hle, by omega⟩
    have hfiniteProduct := Binary64.isFinite_mul_power hmost hproduct.2 hproduct.1
    have hnotInfinite : ((Binary64.ofNat (decimal x).digits).mul (Binary64.power k)).isInfinite =
        false := beq_eq_false_iff_ne.mpr (Nat.ne_of_lt hfiniteProduct)
    rw [hk, scaleByTen_of_nonneg 3 hproduct.2, hnotInfinite, if_neg Bool.false_ne_true]
    exact Option.some_ne_none _

/-- **What is read of the text of a finite double.** -/
theorem number_of_decimal (hfinite : x.isFinite = true) {p : NumberParts}
    (h : ∀ negative stop, p.number negative stop =
      scaled negative (withPoint (decimal x)).digits (withPoint (decimal x)).exponent stop)
    (stop : List Char) : p.number x.isNegative stop = .ok (.float (reread x)) := by
  obtain ⟨y, hy⟩ := scaleByTen_decimal hfinite
  simp only [h, scaled, hy, signed, reread, Option.getD_some]

/-- **A double whose digits and power of ten are doubles is read back as it was.** -/
theorem reread_eq (hfinite : x.isFinite = true) (hdigits : (withPoint (decimal x)).digits ≤ 2 ^ 53)
    (hexponent : (withPoint (decimal x)).exponent.natAbs ≤ 22) : reread x = x := by
  have hcontains : (Decimal.roundingInterval x).Contains
      ((withPoint (decimal x)).digits * (10 : ℚ) ^ (withPoint (decimal x)).exponent) := by
    have hvalue := value_withPoint (decimal x)
    rw [Numeral.value] at hvalue
    rw [hvalue]
    exact contains_decimal x
  have hself := x.ofMagnitude_self
  have hy := scaleByTen_exact 3 hdigits hexponent hfinite hcontains
  simp only [reread, hy, Option.getD_some]
  cases hsign : x.isNegative with
  | false =>
    rw [hsign] at hself
    exact hself
  | true =>
    rw [hsign] at hself
    rw [if_pos rfl, Binary64.neg, Binary64.isNegative_ofMagnitude false x.magnitude_lt,
      Binary64.magnitude_ofMagnitude false x.magnitude_lt]
    exact hself

/-- **A double near a decimal of few digits is read back as it was**: the digits that are written for
it are few as well. -/
theorem reread_of_contains (hfinite : x.isFinite = true) {n places : Nat} (hn : n ≤ 3 * 10 ^ 14)
    (hplaces : places ≤ 21)
    (h : (Decimal.roundingInterval x).Contains (n * (10 : ℚ) ^ (-(places : ℤ)))) : reread x = x := by
  obtain ⟨hdigits, hexponent⟩ : (withPoint (decimal x)).digits ≤ 2 ^ 53 ∧
      (withPoint (decimal x)).exponent.natAbs ≤ 22 := by
    cases hzero : x.isZero with
    | true =>
      rw [decimal_of_isZero hzero]
      decide
    | false =>
      obtain ⟨hplace, hfew⟩ : -((places : ℤ) + 1) ≤ (decimal x).exponent ∧
          (decimal x).digits * 10 ^ ((decimal x).exponent + 1).toNat ≤ 30 * n :=
        Decimal.shortest_few hzero Layout.exchange.tie h
      obtain ⟨-, hpos, -⟩ := Decimal.shortest_spec hzero Layout.exchange.tie
      have hpower : 0 < 10 ^ ((decimal x).exponent + 1).toNat := Nat.pow_pos (by decide)
      unfold withPoint
      split_ifs with hwhole
      · have hnext : (decimal x).exponent.toNat + 1 = ((decimal x).exponent + 1).toNat := by omega
        have hmost : (decimal x).digits * 10 ^ ((decimal x).exponent.toNat + 1) ≤ 2 ^ 53 := by
          rw [hnext]
          omega
        have hone : (-1 : ℤ).natAbs ≤ 22 := by decide
        exact ⟨hmost, hone⟩
      · have hdigits : (decimal x).digits ≤ 30 * n :=
          (Nat.le_mul_of_pos_right _ hpower).trans hfew
        have hlarge : 10 ^ ((decimal x).exponent + 1).toNat < 10 ^ 16 := by
          have hle := (Nat.le_mul_of_pos_left _ hpos).trans hfew
          omega
        have hexponent := (Nat.pow_lt_pow_iff_right (by decide)).mp hlarge
        exact ⟨by omega, by omega⟩
  exact reread_eq hfinite hdigits hexponent

/-- **So is the double nearest to such a decimal.** -/
theorem reread_ofRatio (negative : Bool) {n places : Nat} (hn : n ≤ 3 * 10 ^ 14)
    (hplaces : places ≤ 21) :
    (Binary64.ofRatio negative n (10 ^ places)).isFinite = true ∧
      reread (.ofRatio negative n (10 ^ places)) = .ofRatio negative n (10 ^ places) := by
  have hden : 0 < 10 ^ places := Nat.pow_pos (by decide)
  have hmagnitude := Binary64.magnitude_ofRatio negative n (10 ^ places)
  have hfinite : (Binary64.ofRatio negative n (10 ^ places)).isFinite = true := by
    have hmost : n ≤ 10 ^ 308 := hn.trans (by decide +kernel)
    have hnat := Binary64.isFinite_iff.mp (Binary64.isFinite_ofNat hmost)
    rw [Binary64.ofNat, Binary64.magnitude_ofRatio] at hnat
    rw [Binary64.isFinite_iff, hmagnitude]
    refine Nat.lt_of_le_of_lt (Binary64.magnitudeOfRatio_mono hden Nat.one_pos ?_) hnat
    exact Nat.mul_le_mul_left n hden
  have hcontains := (Decimal.contains_iff_magnitudeOfRatio hfinite hden).mpr hmagnitude.symm
  have hgrid : (n : ℚ) / (10 ^ places : Nat) = n * 10 ^ (-(places : ℤ)) := by
    rw [zpow_neg, zpow_natCast, ← div_eq_mul_inv, Nat.cast_pow, Nat.cast_ofNat]
  exact ⟨hfinite, reread_of_contains hfinite hn hplaces (hgrid ▸ hcontains)⟩

end Doubles

end Lineage.Json
