import Lineage.Json.Scalar
import Lineage.Proofs.Decimal.Shortest
/-
  Multiplying and dividing by powers of ten.

  Products and quotients of words are the exact ones, rounded (`mul_eq`, `div_eq`).  Up to `10^22`
  the powers of ten are words themselves, so a whole number of 53 binary digits is scaled by them
  with one rounding only (`scaleByTen_exact`).  Whatever else is scaled may be rounded more often;
  but seventeen digits that are not above the greatest word, scaled, stay finite
  (`isFinite_mul_power`).
-/

namespace Lineage

open Decimal (roundingInterval greatestValue)

namespace Binary64

variable {x y : Binary64}

theorem isFinite_iff : x.isFinite = true ↔ x.magnitude < infiniteMagnitude := decide_eq_true_iff

theorem isNaN_of_isFinite (h : x.isFinite = true) : x.isNaN = false := by
  have hlt := isFinite_iff.mp h
  exact decide_eq_false (by omega)

theorem isInfinite_of_isFinite (h : x.isFinite = true) : x.isInfinite = false := by
  have hlt := isFinite_iff.mp h
  exact beq_eq_false_iff_ne.mpr (by omega)

/-- The product of finite words is the exact one, rounded. -/
theorem mul_eq (hx : x.isFinite = true) (hy : y.isFinite = true) :
    x.mul y = ofRatio (x.isNegative != y.isNegative) (x.ratio.1 * y.ratio.1)
      (x.ratio.2 * y.ratio.2) := by
  simp only [mul, isNaN_of_isFinite hx, isNaN_of_isFinite hy, isInfinite_of_isFinite hx,
    isInfinite_of_isFinite hy, Bool.or_self, Bool.false_eq_true, if_false]

/-- So is the quotient, but by zero. -/
theorem div_eq (hx : x.isFinite = true) (hy : y.isFinite = true) (hzero : y.isZero = false) :
    x.div y = ofRatio (x.isNegative != y.isNegative) (x.ratio.1 * y.ratio.2)
      (x.ratio.2 * y.ratio.1) := by
  simp only [div, isNaN_of_isFinite hx, isNaN_of_isFinite hy, isInfinite_of_isFinite hx,
    isInfinite_of_isFinite hy, hzero, Bool.or_self, Bool.false_eq_true, if_false]

/-! ## Whole numbers and powers of ten -/

theorem magnitude_ofNat_mono {n m : Nat} (h : n ≤ m) : (ofNat n).magnitude ≤ (ofNat m).magnitude := by
  rw [ofNat, ofNat, magnitude_ofRatio, magnitude_ofRatio]
  exact magnitudeOfRatio_mono Nat.one_pos Nat.one_pos (Nat.mul_le_mul_right 1 h)

/-- A power of ten. -/
def power (k : Nat) : Binary64 := ofDecimal false 1 k

theorem power_eq (k : Nat) : power k = ofNat (10 ^ k) := by
  show ofRatio false (1 * 10 ^ k) 1 = ofRatio false (10 ^ k) 1
  rw [Nat.one_mul]

theorem isNegative_ofNat (n : Nat) : (ofNat n).isNegative = false := isNegative_ofRatio false n 1

theorem isNegative_power (k : Nat) : (power k).isNegative = false := by
  rw [power_eq, isNegative_ofNat]

theorem isFinite_ofNat {n : Nat} (h : n ≤ 10 ^ 308) : (ofNat n).isFinite = true := by
  have hgreatest : (ofNat (10 ^ 308)).magnitude < infiniteMagnitude := by decide +kernel
  exact isFinite_iff.mpr (Nat.lt_of_le_of_lt (magnitude_ofNat_mono h) hgreatest)

theorem isFinite_power {k : Nat} (h : k ≤ 308) : (power k).isFinite = true := by
  have hpow : ∀ j, k ≤ j → 10 ^ k ≤ 10 ^ j := fun _ hj => Nat.pow_le_pow_right (by decide) hj
  rw [power_eq]
  exact isFinite_ofNat (hpow 308 h)

theorem isZero_power (k : Nat) : (power k).isZero = false := by
  have hone : (ofNat 1).magnitude ≠ 0 := by decide +kernel
  have hle := magnitude_ofNat_mono (n := 1) (m := 10 ^ k) (Nat.pow_pos (by decide))
  rw [power_eq]
  exact beq_eq_false_iff_ne.mpr (by omega)

/-- Up to `10^22` powers of ten are words. -/
theorem ratio_power {k : Nat} (h : k ≤ 22) : (power k).ratio = (10 ^ k * 2 ^ 1074, 2 ^ 1074) := by
  have hall : ∀ k : Fin 23, (power k).ratio = (10 ^ k.val * 2 ^ 1074, 2 ^ 1074) := by decide +kernel
  exact hall ⟨k, by omega⟩

/-- All values are counted in the same unit. -/
theorem exists_unit : ∃ u, 0 < u ∧ ∀ x : Binary64, x.ratio.2 = u :=
  ⟨2 ^ 1074, Nat.two_pow_pos 1074, fun x => by simp only [ratio]⟩

/-- Greater factors have greater products. -/
theorem magnitude_mul_mono {n m j k : Nat} (hn : n ≤ m) (hm : m ≤ 10 ^ 308) (hj : j ≤ k)
    (hk : k ≤ 308) : ((ofNat n).mul (power j)).magnitude ≤ ((ofNat m).mul (power k)).magnitude := by
  rw [mul_eq (isFinite_ofNat (hn.trans hm)) (isFinite_power (hj.trans hk)),
    mul_eq (isFinite_ofNat hm) (isFinite_power hk), magnitude_ofRatio, magnitude_ofRatio]
  have hdigits := ratio_mono (magnitude_ofNat_mono hn)
  have hpower : (power j).ratio.1 ≤ (power k).ratio.1 := by
    rw [power_eq, power_eq]
    exact ratio_mono (magnitude_ofNat_mono (Nat.pow_le_pow_right (by decide) hj))
  obtain ⟨u, hu, hunits⟩ := exists_unit
  simp only [hunits]
  refine magnitudeOfRatio_mono (Nat.mul_pos hu hu) (Nat.mul_pos hu hu) ?_
  exact Nat.mul_le_mul_right _ (Nat.mul_le_mul hdigits hpower)

/-- **Seventeen digits times a power of ten do not become infinite**, if they are not above the
greatest word. -/
theorem isFinite_mul_power {n k : Nat} (hn : n ≤ 10 ^ 17) (hk : k ≤ 308)
    (h : n * 10 ^ k ≤ greatestValue) : ((ofNat n).mul (power k)).magnitude < infiniteMagnitude := by
  -- Up to `10^290` it is enough that there are seventeen digits; above, each power has its bound.
  have hall : ∀ j : Fin 19, ((ofNat (min (10 ^ 17) (greatestValue / 10 ^ (290 + j.val)))).mul
      (power (290 + j))).magnitude < infiniteMagnitude := by decide +kernel
  have hmost : 10 ^ 17 ≤ 10 ^ 308 := by decide +kernel
  obtain ⟨j, hj, hle⟩ : ∃ j : Fin 19, k ≤ 290 + j.val ∧
      n ≤ greatestValue / 10 ^ (290 + j.val) := by
    rcases Nat.lt_or_ge k 290 with hsmall | hlarge
    · have hroom : 10 ^ 17 ≤ greatestValue / 10 ^ (290 + (0 : Fin 19).val) := by decide +kernel
      exact ⟨0, by omega, hn.trans hroom⟩
    · refine ⟨⟨k - 290, by omega⟩, by dsimp only; omega, ?_⟩
      have hk : 290 + (k - 290) = k := by omega
      dsimp only
      rw [hk]
      exact (Nat.le_div_iff_mul_le (Nat.pow_pos (by decide))).mpr h
  refine Nat.lt_of_le_of_lt ?_ (hall j)
  exact magnitude_mul_mono (Nat.le_min.mpr ⟨hn, hle⟩) ((Nat.min_le_left _ _).trans hmost) hj
    (by omega)

end Binary64

/-! ## Scaling -/

namespace Json

open Binary64

variable {x : Binary64} {n : Nat} {k : ℤ}

theorem scaleByTen_of_nonneg {k : Nat} (fuel : Nat) (hk : k ≤ 308) :
    scaleByTen (fuel + 1) x k =
      if (x.mul (power k)).isInfinite then none else some (x.mul (power k)) := by
  rw [scaleByTen, Int.natAbs_natCast, if_pos hk, if_pos (Int.natCast_nonneg k)]
  rfl

theorem scaleByTen_of_neg {k : Nat} (fuel : Nat) (hpos : 0 < k) (hk : k ≤ 308) :
    scaleByTen (fuel + 1) x (-(k : ℤ)) = some (x.div (power k)) := by
  rw [scaleByTen, Int.natAbs_neg, Int.natAbs_natCast, if_pos hk, if_neg (by omega)]
  rfl

/-- What is scaled down has a result. -/
theorem scaleByTen_ne_none_of_neg : ∀ (fuel : Nat) (x : Binary64) {k : ℤ}, k < 0 →
    scaleByTen fuel x k ≠ none
  | 0, x, k, _ => Option.some_ne_none x
  | fuel + 1, x, k, hk => by
    have hneg : ¬ 0 ≤ k := by omega
    rw [scaleByTen]
    by_cases hnear : k.natAbs ≤ 308
    · rw [if_pos hnear, if_neg hneg]
      exact Option.some_ne_none _
    · rw [if_neg hnear, if_neg hneg]
      split_ifs
      · exact Option.some_ne_none _
      · exact scaleByTen_ne_none_of_neg fuel _ (by omega)

/-- **Scaling a whole number of 53 binary digits by up to `10^22` is exact, rounded once**: it gives
the word in whose interval the number is. -/
theorem scaleByTen_exact (fuel : Nat) (hn : n ≤ 2 ^ 53) (hk : k.natAbs ≤ 22)
    (hfinite : x.isFinite = true) (h : (roundingInterval x).Contains (n * (10 : ℚ) ^ k)) :
    scaleByTen (fuel + 1) (ofNat n) k = some (ofMagnitude false x.magnitude) := by
  have hfiniteNat : (ofNat n).isFinite = true := isFinite_ofNat (hn.trans (by decide +kernel))
  have hnat := ratio_ofNat hn
  have hmagnitude : x.magnitude ≠ infiniteMagnitude := Nat.ne_of_lt (isFinite_iff.mp hfinite)
  -- The product, or quotient, is the exact one.
  have hrounds : ∀ num den : Nat, 0 < den → (num : ℚ) / den = n * (10 : ℚ) ^ k →
      ofRatio false num den = ofMagnitude false x.magnitude := by
    intro num den hden hvalue
    rw [ofRatio, (Decimal.contains_iff_magnitudeOfRatio hfinite hden).mp (hvalue ▸ h)]
  obtain ⟨u, hu, hunits⟩ : ∃ u, 0 < u ∧ u = 2 ^ 1074 := ⟨_, Nat.two_pow_pos 1074, rfl⟩
  have hu' : (u : ℚ) ≠ 0 := by exact_mod_cast hu.ne'
  rw [← hunits] at hnat
  rcases lt_or_ge k 0 with hsign | hsign
  · obtain ⟨j, rfl⟩ : ∃ j : Nat, k = -(j : ℤ) := ⟨k.natAbs, by omega⟩
    have hpower := ratio_power (k := j) (by omega)
    rw [← hunits] at hpower
    have hten : 0 < 10 ^ j := Nat.pow_pos (by decide)
    rw [scaleByTen_of_neg fuel (by omega) (by omega),
      div_eq hfiniteNat (isFinite_power (by omega)) (isZero_power j), isNegative_ofNat,
      isNegative_power, hnat, hpower]
    refine congrArg some (hrounds _ _ (Nat.mul_pos hu (Nat.mul_pos hten hu)) ?_)
    push_cast
    rw [zpow_neg, zpow_natCast]
    field_simp
  · obtain ⟨j, rfl⟩ := Int.eq_ofNat_of_zero_le hsign
    have hpower := ratio_power (k := j) (by omega)
    rw [← hunits] at hpower
    have hproduct : (ofNat n).mul (power j) = ofMagnitude false x.magnitude := by
      rw [mul_eq hfiniteNat (isFinite_power (by omega)), isNegative_ofNat, isNegative_power, hnat,
        hpower]
      refine hrounds _ _ (Nat.mul_pos hu hu) ?_
      push_cast
      rw [zpow_natCast]
      field_simp
    have hnotInfinite : (ofMagnitude false x.magnitude).isInfinite = false := by
      rw [isInfinite, magnitude_ofMagnitude false x.magnitude_lt]
      exact beq_eq_false_iff_ne.mpr hmagnitude
    rw [scaleByTen_of_nonneg fuel (by omega), hproduct, hnotInfinite, if_neg Bool.false_ne_true]

end Json
end Lineage
