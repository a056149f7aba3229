import Lineage.Decimal.Layout
import Lineage.Proofs.Decimal.Rounding
import Mathlib.Algebra.Order.Field.Power
import Mathlib.Data.Rat.Cast.Order
import Mathlib.Tactic.FieldSimp
import Mathlib.Tactic.Linarith
import Mathlib.Tactic.NormNum
/-
  The shortest decimal of a word stands for the word.

  Every word has an interval of the reals that are rounded to it (`contains_iff_magnitudeOfRatio`),
  and what is written for a word is a decimal in it (`shortest_spec`), with no more places than it
  takes (`le_shortest_exponent`).  So nothing but rounding can be lost on the way back.

  Two things carry this.  A candidate of the search is in the interval, being one of the two points
  of a grid next to the value (`candidate_spec`).  And there is a candidate among those of seventeen
  digits at the latest: a step of that grid is `10^-16` of the value at most, an interval is at least
  four quarters of the last place wide, or three at the least significand, and no significand has
  more than 53 binary digits (`candidate_seventeen`).
-/

namespace Lineage.Decimal

open Binary64 (IsWord UpTo DownTo)

/-! ## Decimals and intervals -/

/-- The number that a decimal stands for. -/
def Numeral.value (d : Numeral) : ℚ := d.digits * (10 : ℚ) ^ d.exponent

theorem Numeral.value_of_nonneg {d : Numeral} (h : 0 ≤ d.exponent) :
    d.value = (d.digits * 10 ^ d.exponent.toNat : Nat) := by
  obtain ⟨n, hn⟩ := Int.eq_ofNat_of_zero_le h
  rw [Numeral.value, hn, Int.toNat_natCast, zpow_natCast]
  push_cast
  rfl

/-- A number lies in an interval; an end does if the interval is closed. -/
structure Interval.Contains (i : Interval) (q : ℚ) : Prop where
  low_le : (i.low : ℚ) / i.den ≤ q
  le_high : q ≤ i.high / i.den
  closed_of_low : (i.low : ℚ) / i.den = q → i.closed = true
  closed_of_high : q = i.high / i.den → i.closed = true

theorem ten_zpow_pos (k : ℤ) : (0 : ℚ) < (10 : ℚ) ^ k := zpow_pos (by norm_num) k

namespace Interval

variable {i : Interval} {num scale : Nat}

/-- Over the denominators of both, membership is a comparison of whole numbers. -/
theorem contains_div_iff (hden : 0 < i.den) {den : Nat} (hpos : 0 < den) :
    i.Contains ((num : ℚ) / den) ↔ i.low * den ≤ num * i.den ∧ num * i.den ≤ i.high * den ∧
      (i.low * den = num * i.den → i.closed = true) ∧
      (num * i.den = i.high * den → i.closed = true) := by
  have hden' : (0 : ℚ) < i.den := by exact_mod_cast hden
  have hpos' : (0 : ℚ) < den := by exact_mod_cast hpos
  have hlowLe : (i.low : ℚ) / i.den ≤ num / den ↔ i.low * den ≤ num * i.den := by
    rw [div_le_div_iff₀ hden' hpos']
    exact_mod_cast Iff.rfl
  have hleHigh : (num : ℚ) / den ≤ i.high / i.den ↔ num * i.den ≤ i.high * den := by
    rw [div_le_div_iff₀ hpos' hden']
    exact_mod_cast Iff.rfl
  have hlowEq : (i.low : ℚ) / i.den = num / den ↔ i.low * den = num * i.den := by
    rw [div_eq_div_iff hden'.ne' hpos'.ne']
    exact_mod_cast Iff.rfl
  have heqHigh : (num : ℚ) / den = i.high / i.den ↔ num * i.den = i.high * den := by
    rw [div_eq_div_iff hpos'.ne' hden'.ne']
    exact_mod_cast Iff.rfl
  constructor
  · rintro ⟨hle, hle', hlow, hhigh⟩
    exact ⟨hlowLe.mp hle, hleHigh.mp hle', fun h => hlow (hlowEq.mpr h),
      fun h => hhigh (heqHigh.mpr h)⟩
  · rintro ⟨hle, hle', hlow, hhigh⟩
    exact ⟨hlowLe.mpr hle, hleHigh.mpr hle', fun h => hlow (hlowEq.mp h),
      fun h => hhigh (heqHigh.mp h)⟩

theorem holds_iff (hden : 0 < i.den) (hscale : 0 < scale) :
    i.holds num scale = true ↔ i.Contains ((num : ℚ) / (i.den * scale : Nat)) := by
  have hle : ∀ a b : Nat, a * (i.den * scale) ≤ b * i.den ↔ a * scale ≤ b := by
    intro a b
    rw [Nat.mul_left_comm, Nat.mul_comm b]
    exact Nat.mul_le_mul_left_iff hden
  have hge : ∀ a b : Nat, b * i.den ≤ a * (i.den * scale) ↔ b ≤ a * scale := by
    intro a b
    rw [Nat.mul_left_comm, Nat.mul_comm b]
    exact Nat.mul_le_mul_left_iff hden
  have heq : ∀ a b : Nat, a * (i.den * scale) = b * i.den ↔ a * scale = b := by
    intro a b
    rw [Nat.mul_left_comm, Nat.mul_comm b]
    exact Nat.mul_right_inj hden.ne'
  rw [contains_div_iff hden (Nat.mul_pos hden hscale), hle, hge, heq, eq_comm (a := num * i.den),
    heq, holds]
  cases i.closed with
  | true =>
    simp only [if_true, Bool.and_eq_true, decide_eq_true_eq, implies_true, and_true]
  | false =>
    simp only [Bool.false_eq_true, if_false, Bool.and_eq_true, decide_eq_true_eq, imp_false]
    omega

/-- An interval has no gaps. -/
theorem Contains.between {a b q : ℚ} (ha : i.Contains a) (hb : i.Contains b) (hle : a ≤ q)
    (hle' : q ≤ b) : i.Contains q where
  low_le := ha.low_le.trans hle
  le_high := hle'.trans hb.le_high
  closed_of_low h := ha.closed_of_low (le_antisymm ha.low_le (hle.trans h.ge))
  closed_of_high h := hb.closed_of_high (le_antisymm hb.le_high (h.ge.trans hle'))

/-- The step of the grid `10^e`, as a numerator. -/
def gridStep (i : Interval) (e : ℤ) : Nat := if 0 ≤ e then i.den * 10 ^ e.toNat else i.den

/-- The denominator for that step, next to that of the interval. -/
def gridScale (e : ℤ) : Nat := if 0 ≤ e then 1 else 10 ^ (-e).toNat

theorem gridScale_pos (e : ℤ) : 0 < gridScale e := by
  unfold gridScale
  split_ifs
  · exact Nat.one_pos
  · exact Nat.pow_pos (by decide)

theorem gridStep_pos (hden : 0 < i.den) (e : ℤ) : 0 < i.gridStep e := by
  unfold gridStep
  split_ifs
  · exact Nat.mul_pos hden (Nat.pow_pos (by decide))
  · exact hden

/-- So many steps are that decimal. -/
theorem grid_eq (hden : 0 < i.den) (e : ℤ) (k : Nat) :
    ((k * i.gridStep e : Nat) : ℚ) / (i.den * gridScale e : Nat) = k * 10 ^ e := by
  have hpos : (i.den : ℚ) ≠ 0 := by exact_mod_cast hden.ne'
  unfold gridStep gridScale
  split_ifs with he
  · obtain ⟨n, rfl⟩ := Int.eq_ofNat_of_zero_le he
    push_cast
    rw [Int.toNat_natCast, zpow_natCast]
    field_simp
  · obtain ⟨n, rfl⟩ : ∃ n : Nat, e = -(n : ℤ) := ⟨(-e).toNat, by omega⟩
    rw [neg_neg, Int.toNat_natCast, zpow_neg, zpow_natCast]
    push_cast
    field_simp

theorem holds_grid (hden : 0 < i.den) (e : ℤ) (k : Nat) :
    i.holds (k * i.gridStep e) (gridScale e) = true ↔ i.Contains (k * (10 : ℚ) ^ e) := by
  rw [holds_iff hden (gridScale_pos e), grid_eq hden]

/-- The decimals of the grid `10^e` next to the value: one below or at it, and the next one. -/
structure Around (i : Interval) (e : ℤ) (below : Nat) : Prop where
  le : (below : ℚ) * 10 ^ e ≤ i.value / i.den
  lt : (i.value : ℚ) / i.den < (below + 1 : Nat) * (10 : ℚ) ^ e

theorem around_div (hden : 0 < i.den) (e : ℤ) :
    i.Around e (i.value * gridScale e / i.gridStep e) := by
  have hscale := gridScale_pos e
  have hscale' : (gridScale e : ℚ) ≠ 0 := by exact_mod_cast hscale.ne'
  have hpos : (0 : ℚ) < (i.den * gridScale e : Nat) := by exact_mod_cast Nat.mul_pos hden hscale
  have hvalue : (i.value : ℚ) / i.den =
      ((i.value * gridScale e : Nat) : ℚ) / (i.den * gridScale e : Nat) := by
    push_cast
    rw [mul_div_mul_right _ _ hscale']
  have hbelow := Nat.div_mul_le_self (i.value * gridScale e) (i.gridStep e)
  have habove : i.value * gridScale e <
      (i.value * gridScale e / i.gridStep e + 1) * i.gridStep e :=
    (Nat.div_lt_iff_lt_mul (gridStep_pos hden e)).mp (Nat.lt_succ_self _)
  constructor
  · rw [hvalue, ← grid_eq hden, div_le_div_iff_of_pos_right hpos]
    exact_mod_cast hbelow
  · rw [hvalue, ← grid_eq hden, div_lt_div_iff_of_pos_right hpos]
    exact_mod_cast habove

/-- A candidate is one of the two decimals of the grid next to the value, and in the interval.  There
is one if one of the two is. -/
theorem candidate_spec (hden : 0 < i.den) (tieUp : Nat → Bool) (e : ℤ) :
    ∃ below, i.Around e below ∧
      (∀ d, i.candidate tieUp e = some d →
        d.exponent = e ∧ (d.digits = below ∨ d.digits = below + 1) ∧ i.Contains d.value) ∧
      (i.candidate tieUp e = none →
        ¬ i.Contains (below * (10 : ℚ) ^ e) ∧ ¬ i.Contains ((below + 1 : Nat) * (10 : ℚ) ^ e)) := by
  have haround := i.around_div hden e
  obtain ⟨upper, hcandidate⟩ : ∃ upper, i.candidate tieUp e =
      let below := i.value * gridScale e / i.gridStep e
      if i.holds (below * i.gridStep e) (gridScale e) &&
          (!i.holds ((below + 1) * i.gridStep e) (gridScale e) || !upper) then some ⟨below, e⟩
      else if i.holds ((below + 1) * i.gridStep e) (gridScale e) then some ⟨below + 1, e⟩
      else none := ⟨_, rfl⟩
  generalize i.value * gridScale e / i.gridStep e = below at *
  refine ⟨below, haround, ?_, ?_⟩
  · intro d hd
    rw [hcandidate] at hd
    dsimp only at hd
    split_ifs at hd with hlow hhigh
    · obtain rfl := Option.some.inj hd
      exact ⟨rfl, .inl rfl, (holds_grid hden e below).mp (Bool.and_eq_true_iff.mp hlow).1⟩
    · obtain rfl := Option.some.inj hd
      exact ⟨rfl, .inr rfl, (holds_grid hden e (below + 1)).mp hhigh⟩
  · intro hnone
    rw [hcandidate] at hnone
    dsimp only at hnone
    rw [← holds_grid hden, ← holds_grid hden]
    split_ifs at hnone with hlow hhigh
    rw [Bool.not_eq_true] at hhigh
    simp only [hhigh, Bool.not_false, Bool.true_or, Bool.and_true] at hlow
    exact ⟨hlow, hhigh ▸ Bool.false_ne_true⟩

/-- Where a decimal of the grid is in the interval, so is one of the two next to the value. -/
theorem candidate_ne_none (hden : 0 < i.den) (hself : i.Contains (i.value / i.den))
    (tieUp : Nat → Bool) {n : Nat} {e : ℤ} (h : i.Contains (n * (10 : ℚ) ^ e)) :
    i.candidate tieUp e ≠ none := by
  intro hnone
  obtain ⟨below, haround, -, hmiss⟩ := i.candidate_spec hden tieUp e
  obtain ⟨hlowMiss, hhighMiss⟩ := hmiss hnone
  have hgrid : ∀ {j k : Nat}, j ≤ k → (j : ℚ) * 10 ^ e ≤ k * 10 ^ e := fun hle =>
    mul_le_mul_of_nonneg_right (by exact_mod_cast hle) (ten_zpow_pos e).le
  rcases Nat.lt_or_ge below n with hmore | hless
  · exact hhighMiss (hself.between h haround.lt.le (hgrid hmore))
  · exact hlowMiss (h.between hself (hgrid hless) haround.le)

end Interval

/-! ## Powers of ten -/

theorem exists_digitCount {n : Nat} (h : 0 < n) :
    ∃ d, digitCount n = d + 1 ∧ 10 ^ d ≤ n ∧ n < 10 ^ (d + 1) := by
  have hlength : ∀ k, 0 < k → ((Nat.toDigits 10 n).length ≤ k ↔ n < 10 ^ k) := fun k hk =>
    Nat.length_toDigits_le_iff (by decide) hk
  have hpos : 0 < (Nat.toDigits 10 n).length := Nat.length_toDigits_pos
  refine ⟨(Nat.toDigits 10 n).length - 1, ?_, ?_, ?_⟩
  · rw [digitCount, if_neg (Nat.ne_of_gt h)]
    omega
  · by_contra hlt
    rcases Nat.eq_zero_or_pos ((Nat.toDigits 10 n).length - 1) with hone | hmore
    · rw [hone] at hlt
      omega
    · have hless := (hlength _ hmore).mpr (by omega)
      omega
  · rw [Nat.sub_add_cancel hpos]
    exact (hlength _ hpos).mp (Nat.le_refl _)

/-- The power of ten below a quotient is that. -/
theorem powerBelow_spec {num den : Nat} (hnum : 0 < num) (hden : 0 < den) :
    (10 : ℚ) ^ powerBelow num den ≤ num / den ∧
      (num : ℚ) / den < (10 : ℚ) ^ (powerBelow num den + 1) := by
  have hnum' : (0 : ℚ) < num := by exact_mod_cast hnum
  have hden' : (0 : ℚ) < den := by exact_mod_cast hden
  rw [le_div_iff₀ hden', div_lt_iff₀ hden']
  unfold powerBelow
  split_ifs with hle
  · obtain ⟨d, hd, hlow, hhigh⟩ := exists_digitCount (Nat.div_pos hle hden)
    have hlow' : 10 ^ d * den ≤ num := (Nat.le_div_iff_mul_le hden).mp hlow
    have hhigh' : num < 10 ^ (d + 1) * den := (Nat.div_lt_iff_lt_mul hden).mp hhigh
    have hpower : ((digitCount (num / den) : Nat) : ℤ) - 1 = (d : ℤ) := by
      rw [hd]
      push_cast
      ring
    rw [hpower]
    exact ⟨by exact_mod_cast hlow', by exact_mod_cast hhigh'⟩
  · obtain ⟨d, hd, hlow, hhigh⟩ := exists_digitCount (Nat.div_pos (Nat.le_of_not_le hle) hnum)
    have hlow' : 10 ^ d * num ≤ den := (Nat.le_div_iff_mul_le hnum).mp hlow
    have hhigh' : den < 10 ^ (d + 1) * num := (Nat.div_lt_iff_lt_mul hnum).mp hhigh
    -- Powers with exponents below zero, on the other side.
    have hback : ∀ (n : Nat) (a b : ℚ), (10 : ℚ) ^ (-(n : ℤ)) * a ≤ b ↔ a ≤ (10 ^ n : ℚ) * b := by
      intro n a b
      rw [zpow_neg, zpow_natCast, inv_mul_le_iff₀ (by positivity)]
    have hback' : ∀ (n : Nat) (a b : ℚ), a < (10 : ℚ) ^ (-(n : ℤ)) * b ↔ (10 ^ n : ℚ) * a < b := by
      intro n a b
      rw [zpow_neg, zpow_natCast, lt_inv_mul_iff₀ (by positivity)]
    simp only [hd, Nat.add_sub_cancel]
    split_ifs with hpower
    · have hexact : den = 10 ^ d * num := by rw [← hpower, Nat.mul_comm]
      have hpow : -(((d + 1 : Nat) : ℤ) - 1) = -(d : ℤ) := by push_cast; ring
      rw [hpow, zpow_add_one₀ (by norm_num), mul_assoc, hback, hback']
      refine ⟨by exact_mod_cast hexact.le, ?_⟩
      have htimes : 10 ^ d * num < 10 * den := by omega
      exact_mod_cast htimes
    · have hless : 10 ^ d * num < den := by
        refine Nat.lt_of_le_of_ne hlow' fun heq => hpower ?_
        rw [Nat.mul_comm, heq]
      have hpow : -((d + 1 : Nat) : ℤ) + 1 = -(d : ℤ) := by push_cast; ring
      rw [hpow, hback, hback']
      exact ⟨by exact_mod_cast hhigh'.le, by exact_mod_cast hless⟩

/-! ## The interval of a word -/

section Words

variable {x : Binary64}

theorem significand_pos (h : x.isZero = false) : 0 < x.significand := by
  have hword := x.isWord_parts
  have hmagnitude := x.magnitude_eq
  rw [Binary64.isZero, beq_eq_false_iff_ne] at h
  by_contra hnone
  have hscale : ¬ 0 < x.scale := fun hs => by
    have hfull := hword.full hs
    omega
  omega

/-- A quarter of the last place of a word. -/
def quarter (x : Binary64) : ℚ := 2 ^ x.scale / (roundingInterval x).den

theorem den_eq (x : Binary64) : (roundingInterval x).den = 4 * 2 ^ 1074 := by
  simp only [roundingInterval]

theorem den_pos (x : Binary64) : 0 < (roundingInterval x).den := by
  rw [den_eq]
  have hpow := Nat.two_pow_pos 1074
  omega

theorem quarter_pos (x : Binary64) : 0 < quarter x := by
  have hden : (0 : ℚ) < (roundingInterval x).den := by exact_mod_cast den_pos x
  exact div_pos (by positivity) hden

theorem value_eq_quarters (x : Binary64) :
    ((roundingInterval x).value : ℚ) / (roundingInterval x).den =
      4 * x.significand * quarter x := by
  have hvalue : (roundingInterval x).value = 4 * x.significand * 2 ^ x.scale := rfl
  rw [hvalue, quarter]
  push_cast
  ring

theorem high_eq_quarters (x : Binary64) :
    ((roundingInterval x).high : ℚ) / (roundingInterval x).den =
      (4 * x.significand + 2) * quarter x := by
  have hhigh : (roundingInterval x).high = 4 * x.significand * 2 ^ x.scale + 2 * 2 ^ x.scale := rfl
  rw [hhigh, quarter]
  push_cast
  ring

/-- The lower end is as far from the value as the upper one, or half as far. -/
theorem low_eq_quarters (h : 0 < x.significand) :
    ∃ w : ℚ, ((roundingInterval x).low : ℚ) / (roundingInterval x).den =
      (4 * x.significand - w) * quarter x ∧ ((x.significand = 2 ^ 52 ∧ w = 1) ∨ w = 2) := by
  have hle : 2 * 2 ^ x.scale ≤ 4 * x.significand * 2 ^ x.scale :=
    Nat.mul_le_mul_right _ (by omega)
  by_cases hleast : x.significand = 2 ^ 52 ∧ 0 < x.scale
  · have hlow : (roundingInterval x).low = 4 * x.significand * 2 ^ x.scale - 2 ^ x.scale := by
      simp only [roundingInterval, if_pos hleast]
    refine ⟨1, ?_, .inl ⟨hleast.1, rfl⟩⟩
    rw [hlow, quarter, Nat.cast_sub (by omega)]
    push_cast
    ring
  · have hlow : (roundingInterval x).low = 4 * x.significand * 2 ^ x.scale - 2 * 2 ^ x.scale := by
      simp only [roundingInterval, if_neg hleast]
    refine ⟨2, ?_, .inr rfl⟩
    rw [hlow, quarter, Nat.cast_sub hle]
    push_cast
    ring

theorem mul_den (x : Binary64) (num : Nat) :
    num * (roundingInterval x).den = 4 * (num * 2 ^ 1074) := by
  rw [den_eq]
  generalize 2 ^ 1074 = c
  ring

theorem high_mul (x : Binary64) (den : Nat) : (roundingInterval x).high * den =
    2 * ((2 * x.significand + 1) * (den * 2 ^ x.scale)) := by
  show (4 * x.significand * 2 ^ x.scale + 2 * 2 ^ x.scale) * den = _
  ring

theorem low_mul (x : Binary64) (den : Nat) : (roundingInterval x).low * den =
    4 * (x.significand * (den * 2 ^ x.scale)) -
      (if x.significand = 2 ^ 52 ∧ 0 < x.scale then 1 else 2) * (den * 2 ^ x.scale) := by
  have hvalue : 4 * x.significand * 2 ^ x.scale * den =
      4 * (x.significand * (den * 2 ^ x.scale)) := by ring
  simp only [roundingInterval]
  split_ifs
  · rw [Nat.sub_mul, hvalue, Nat.one_mul, Nat.mul_comm (2 ^ x.scale)]
  · rw [Nat.sub_mul, hvalue, Nat.mul_assoc 2, Nat.mul_comm (2 ^ x.scale)]

/-- A quotient is in the interval of a word just when it reaches neither beyond the midpoint above
the word nor beyond the one below it. -/
theorem contains_iff {num den : Nat} (hden : 0 < den) :
    (roundingInterval x).Contains ((num : ℚ) / den) ↔
      UpTo num den x.significand x.scale ∧ DownTo num den x.significand x.scale := by
  have hclosed : (roundingInterval x).closed = true ↔ x.significand % 2 = 0 := decide_eq_true_iff
  have hplace : 0 < den * 2 ^ x.scale := Nat.mul_pos hden (Nat.two_pow_pos x.scale)
  have hone : x.significand ≠ 0 → den * 2 ^ x.scale ≤ x.significand * (den * 2 ^ x.scale) :=
    fun hne => Nat.le_mul_of_pos_left _ (Nat.pos_of_ne_zero hne)
  have hfour : 4 * x.significand * (den * 2 ^ x.scale) =
      4 * (x.significand * (den * 2 ^ x.scale)) := Nat.mul_assoc ..
  obtain ⟨a, ha⟩ : ∃ a, num * 2 ^ 1074 = a := ⟨_, rfl⟩
  rw [Interval.contains_div_iff (den_pos x) hden, mul_den, high_mul, low_mul, hclosed, ha]
  constructor
  · rintro ⟨hle, hle', hlow, hhigh⟩
    refine ⟨⟨?_, fun heq => ?_⟩, ⟨?_, fun heq => ?_⟩⟩
    · rw [ha]
      omega
    · rw [ha] at heq
      exact hhigh (by omega)
    · rw [ha]
      omega
    · rw [ha] at heq
      by_cases hleast : x.significand = 2 ^ 52 ∧ 0 < x.scale
      · rw [hleast.1]
      · rw [if_neg hleast] at hlow
        exact hlow (by omega)
  · rintro ⟨⟨hle, hup⟩, ⟨hle', hdown⟩⟩
    rw [ha] at hle hup hle' hdown
    refine ⟨by omega, by omega, fun heq => ?_, fun heq => hup (by omega)⟩
    by_cases hleast : x.significand = 2 ^ 52 ∧ 0 < x.scale
    · rw [hleast.1]
    · rw [if_neg hleast] at heq
      by_cases hzero : x.significand = 0
      · rw [hzero]
      · have hmore := hone hzero
        exact hdown (by omega)

/-- **What lies in the interval of a word is just what is rounded to the word.** -/
theorem contains_iff_magnitudeOfRatio {num den : Nat} (hfinite : x.isFinite = true)
    (hden : 0 < den) : (roundingInterval x).Contains ((num : ℚ) / den) ↔
      Binary64.magnitudeOfRatio num den = x.magnitude := by
  have hless : x.magnitude < Binary64.infiniteMagnitude := of_decide_eq_true hfinite
  have hmagnitude := x.magnitude_eq
  rw [contains_iff hden]
  constructor
  · rintro ⟨hup, hdown⟩
    rw [Binary64.magnitudeOfRatio_eq hden x.isWord_parts (by omega) hup hdown, hmagnitude]
  · intro hrounds
    obtain ⟨m, s, hword, hparts, hup, hdown⟩ :=
      Binary64.exists_parts hden (hrounds.symm ▸ hless)
    obtain ⟨hm, hs⟩ := Binary64.parts_of_magnitude hword (hrounds.symm.trans hparts)
    rw [hm, hs]
    exact ⟨hup, hdown⟩

/-- A word lies in its own interval. -/
theorem contains_value (h : 0 < x.significand) :
    (roundingInterval x).Contains ((roundingInterval x).value / (roundingInterval x).den) := by
  obtain ⟨w, hlow, hw⟩ := low_eq_quarters h
  have hquarter := quarter_pos x
  have hwidth : 0 < w := by rcases hw with ⟨-, rfl⟩ | rfl <;> norm_num
  have hbelow : ((roundingInterval x).low : ℚ) / (roundingInterval x).den <
      (roundingInterval x).value / (roundingInterval x).den := by
    rw [hlow, value_eq_quarters]
    exact mul_lt_mul_of_pos_right (by linarith) hquarter
  have habove : ((roundingInterval x).value : ℚ) / (roundingInterval x).den <
      (roundingInterval x).high / (roundingInterval x).den := by
    rw [high_eq_quarters, value_eq_quarters]
    exact mul_lt_mul_of_pos_right (by linarith) hquarter
  exact ⟨hbelow.le, habove.le, fun h => absurd h hbelow.ne, fun h => absurd h habove.ne⟩

/-- What is rounded to one word is of one size. -/
theorem le_three_mul (h : 0 < x.significand) {a b : ℚ} (ha : (roundingInterval x).Contains a)
    (hb : (roundingInterval x).Contains b) : b ≤ 3 * a := by
  obtain ⟨w, hlow, hw⟩ := low_eq_quarters h
  have hone : (1 : ℚ) ≤ x.significand := by exact_mod_cast h
  have hends : (4 * x.significand + 2 : ℚ) ≤ 3 * (4 * x.significand - w) := by
    rcases hw with ⟨-, rfl⟩ | rfl <;> linarith
  calc b ≤ (4 * x.significand + 2) * quarter x := high_eq_quarters x ▸ hb.le_high
    _ ≤ 3 * (4 * x.significand - w) * quarter x :=
      mul_le_mul_of_nonneg_right hends (quarter_pos x).le
    _ = 3 * ((4 * x.significand - w) * quarter x) := mul_assoc ..
    _ ≤ 3 * a := mul_le_mul_of_nonneg_left (hlow ▸ ha.low_le) (by norm_num)

/-- The power of ten below a word. -/
def topPower (x : Binary64) : ℤ := powerBelow (roundingInterval x).value (roundingInterval x).den

theorem topPower_spec (h : 0 < x.significand) :
    (10 : ℚ) ^ topPower x ≤ (roundingInterval x).value / (roundingInterval x).den ∧
      ((roundingInterval x).value : ℚ) / (roundingInterval x).den < (10 : ℚ) ^ (topPower x + 1) := by
  have hvalue : 0 < (roundingInterval x).value :=
    Nat.mul_pos (Nat.mul_pos (by decide) h) (Nat.two_pow_pos x.scale)
  exact powerBelow_spec hvalue (den_pos x)

/-- **Seventeen digits are enough**: the interval of a word is wider than a step of that grid. -/
theorem candidate_seventeen (h : 0 < x.significand) (tieUp : Nat → Bool) :
    (roundingInterval x).candidate tieUp (topPower x - 16) ≠ none := by
  intro hnone
  obtain ⟨below, haround, -, hmiss⟩ :=
    (roundingInterval x).candidate_spec (den_pos x) tieUp (topPower x - 16)
  obtain ⟨hlowMiss, hhighMiss⟩ := hmiss hnone
  obtain ⟨w, hlow, hw⟩ := low_eq_quarters h
  have hquarter := quarter_pos x
  have hself := contains_value h
  have hstep : (10 : ℚ) ^ (topPower x - 16) * 10 ^ 16 =  10 ^ topPower x := by
    rw [zpow_sub₀ (by norm_num)]
    norm_num
  -- What is missed lies beyond the ends.
  have hlowEnd : (below : ℚ) * 10 ^ (topPower x - 16) ≤ (4 * x.significand - w) * quarter x := by
    by_contra hlt
    rw [not_le, ← hlow] at hlt
    exact hlowMiss ⟨hlt.le, haround.le.trans hself.le_high, fun h => absurd h hlt.ne,
      fun h => hself.closed_of_high (le_antisymm hself.le_high (h ▸ haround.le))⟩
  have hhighEnd : (4 * x.significand + 2) * quarter x ≤
      ((below + 1 : Nat) : ℚ) * 10 ^ (topPower x - 16) := by
    by_contra hlt
    rw [not_le, ← high_eq_quarters] at hlt
    exact hhighMiss ⟨hself.low_le.trans haround.lt.le, hlt.le,
      fun h => hself.closed_of_low (le_antisymm hself.low_le (h ▸ haround.lt.le)),
      fun h => absurd h hlt.ne⟩
  have hwide : (2 + w) * quarter x ≤ 10 ^ (topPower x - 16) := by
    push_cast at hhighEnd
    linarith
  have hsmall : (10 : ℚ) ^ (topPower x - 16) * 10 ^ 16 ≤ 4 * x.significand * quarter x := by
    rw [hstep, ← value_eq_quarters]
    exact (topPower_spec h).1
  have hdigits : (2 + w) * 10 ^ 16 ≤ 4 * x.significand := by
    refine le_of_mul_le_mul_right ?_ hquarter
    calc (2 + w) * 10 ^ 16 * quarter x = (2 + w) * quarter x * 10 ^ 16 := by ring
      _ ≤ 10 ^ (topPower x - 16) * 10 ^ 16 := by linarith
      _ ≤ _ := hsmall
  rcases hw with ⟨hleast, rfl⟩ | rfl
  · rw [hleast] at hdigits
    norm_num at hdigits
  · have hlt : (x.significand : ℚ) < (2 ^ 53 : Nat) := by exact_mod_cast x.isWord_parts.lt
    push_cast at hlt
    linarith

/-- The search ends with the first candidate. -/
theorem search_spec {i : Interval} {tieUp : Nat → Bool} {top : ℤ}
    (hlast : i.candidate tieUp (top - 16) ≠ none) : ∀ {fuel count : Nat}, count + fuel = 18 →
      1 ≤ count → count ≤ 17 → ∃ n : Nat, 1 ≤ n ∧ n ≤ 17 ∧
        i.candidate tieUp (top - (n : ℤ) + 1) = some (search i tieUp top count fuel) ∧
        ∀ k : Nat, count ≤ k → i.candidate tieUp (top - (k : ℤ) + 1) ≠ none → n ≤ k
  | 0, count, hsum, _, hle => absurd hsum (by omega)
  | fuel + 1, count, hsum, hpos, hle => by
    cases hcandidate : i.candidate tieUp (top - (count : ℤ) + 1) with
    | some d => exact ⟨count, hpos, hle, by rw [hcandidate, search, hcandidate], fun _ hk _ => hk⟩
    | none =>
      have hmore : count ≠ 17 := by
        rintro rfl
        refine hlast ?_
        rw [← hcandidate]
        congr 1
        push_cast
        ring
      obtain ⟨n, hn, hmost, hsearch, hfirst⟩ :=
        search_spec hlast (show count + 1 + fuel = 18 by omega) (by omega) (by omega)
      refine ⟨n, hn, hmost, by rw [search, hcandidate]; exact hsearch, fun k hk hsome => ?_⟩
      refine hfirst k (Nat.lt_of_le_of_ne hk ?_) hsome
      rintro rfl
      exact hsome hcandidate

/-- Zeros at the end are dropped without changing the number. -/
theorem trim_spec : ∀ (fuel : Nat) (d : Numeral), (trim fuel d).value = d.value ∧
    (trim fuel d).digits ≤ d.digits ∧ (0 < d.digits → 0 < (trim fuel d).digits) ∧
      d.exponent ≤ (trim fuel d).exponent
  | 0, d => ⟨rfl, Nat.le_refl _, id, le_rfl⟩
  | fuel + 1, d => by
    rw [trim]
    split_ifs with hzero
    · obtain ⟨hvalue, hle, hpos, hexponent⟩ := trim_spec fuel ⟨d.digits / 10, d.exponent + 1⟩
      obtain ⟨k, hk⟩ : ∃ k, d.digits = 10 * k := ⟨d.digits / 10, by omega⟩
      refine ⟨hvalue.trans ?_, ?_, ?_, (Int.lt_of_add_one_le hexponent).le⟩
      · simp only [Numeral.value, hk]
        rw [zpow_add_one₀ (by norm_num), Nat.mul_div_cancel_left k (by decide)]
        push_cast
        ring
      · exact hle.trans (Nat.div_le_self _ _)
      · exact fun _ => hpos (by dsimp only; omega)
    · exact ⟨rfl, Nat.le_refl _, id, le_rfl⟩

theorem shortest_eq (h : x.isZero = false) (tieUp : Nat → Bool) : shortest tieUp x =
    trim 400 (search (roundingInterval x) tieUp (topPower x) 1 17) := by
  simp only [shortest, h, Bool.false_eq_true, if_false, topPower]

/-- **The shortest decimal of a word is in its interval**, and has seventeen digits at most. -/
theorem shortest_spec (h : x.isZero = false) (tieUp : Nat → Bool) :
    (roundingInterval x).Contains (shortest tieUp x).value ∧ 0 < (shortest tieUp x).digits ∧
      (shortest tieUp x).digits ≤ 10 ^ 17 := by
  have hpos := significand_pos h
  have hfuel : 1 + 17 = 18 := rfl
  obtain ⟨n, hn, hmost, hsearch, -⟩ :=
    search_spec (candidate_seventeen hpos tieUp) hfuel (Nat.le_refl 1) (by decide)
  obtain ⟨below, haround, hsome, -⟩ :=
    (roundingInterval x).candidate_spec (den_pos x) tieUp (topPower x - (n : ℤ) + 1)
  obtain ⟨-, hdigits, hcontains⟩ := hsome _ hsearch
  obtain ⟨hlow, hhigh⟩ := topPower_spec hpos
  obtain ⟨hvalue, hle, hkeeps, -⟩ :=
    trim_spec 400 (search (roundingInterval x) tieUp (topPower x) 1 17)
  -- On the grid of `n` digits there are `n` digits in front of the value.
  have hgrid : (0 : ℚ) < 10 ^ (topPower x - (n : ℤ) + 1) := ten_zpow_pos _
  have hscaled : ∀ (k : Nat) (t : ℤ), (k : ℤ) + (topPower x - (n : ℤ) + 1) = t →
      (10 : ℚ) ^ k * 10 ^ (topPower x - (n : ℤ) + 1) = 10 ^ t := by
    rintro k t rfl
    rw [← zpow_natCast, ← zpow_add₀ (by norm_num)]
  have hmore : below < 10 ^ n := by
    have hlt : (below : ℚ) * 10 ^ (topPower x - (n : ℤ) + 1) <
        10 ^ n * 10 ^ (topPower x - (n : ℤ) + 1) := by
      rw [hscaled n (topPower x + 1) (by ring)]
      exact haround.le.trans_lt hhigh
    exact_mod_cast lt_of_mul_lt_mul_right hlt hgrid.le
  have hsome : 10 ^ (n - 1) < below + 1 := by
    have hlt : (10 : ℚ) ^ (n - 1) * 10 ^ (topPower x - (n : ℤ) + 1) <
        (below + 1 : Nat) * 10 ^ (topPower x - (n : ℤ) + 1) := by
      rw [hscaled (n - 1) (topPower x) (by omega)]
      exact hlow.trans_lt haround.lt
    exact_mod_cast lt_of_mul_lt_mul_right hlt hgrid.le
  have hone : 0 < 10 ^ (n - 1) := Nat.pow_pos (by decide)
  have hpow : 10 ^ n ≤ 10 ^ 17 := Nat.pow_le_pow_right (by decide) hmost
  rw [shortest_eq h]
  refine ⟨hvalue ▸ hcontains, hkeeps ?_, hle.trans ?_⟩
  · rcases hdigits with hd | hd <;> omega
  · rcases hdigits with hd | hd <;> omega

/-- **It has no more places behind the point** than any decimal of the interval that has a digit
where the word has its first one. -/
theorem le_shortest_exponent (h : x.isZero = false) (tieUp : Nat → Bool) {n : Nat} {e : ℤ}
    (hcontains : (roundingInterval x).Contains (n * (10 : ℚ) ^ e)) :
    min e (topPower x) ≤ (shortest tieUp x).exponent := by
  have hpos := significand_pos h
  have hfuel : 1 + 17 = 18 := rfl
  obtain ⟨k, hk, -, hsearch, hfirst⟩ :=
    search_spec (candidate_seventeen hpos tieUp) hfuel (Nat.le_refl 1) (by decide)
  obtain ⟨_, -, hsome, -⟩ :=
    (roundingInterval x).candidate_spec (den_pos x) tieUp (topPower x - (k : ℤ) + 1)
  obtain ⟨hexponent, -, -⟩ := hsome _ hsearch
  obtain ⟨-, -, -, hgrows⟩ :=
    trim_spec 400 (search (roundingInterval x) tieUp (topPower x) 1 17)
  rw [shortest_eq h]
  -- The decimal is one of this grid as well.
  obtain ⟨grid, hgrid⟩ : ∃ grid, min e (topPower x) = grid := ⟨_, rfl⟩
  obtain ⟨j, hj⟩ : ∃ j : Nat, e = j + grid := ⟨(e - grid).toNat, by omega⟩
  have hscaled : ((n * 10 ^ j : Nat) : ℚ) * 10 ^ grid = n * 10 ^ e := by
    rw [hj, zpow_add₀ (by norm_num), zpow_natCast]
    push_cast
    ring
  have hthere : (roundingInterval x).candidate tieUp grid ≠ none :=
    Interval.candidate_ne_none (den_pos x) (contains_value hpos) tieUp (hscaled ▸ hcontains)
  obtain ⟨count, hcount⟩ : ∃ count : Nat, topPower x - (count : ℤ) + 1 = grid :=
    ⟨(topPower x - grid + 1).toNat, by omega⟩
  have hle := hfirst count (by omega) (hcount ▸ hthere)
  omega

/-- A word near a decimal is not much smaller than the last place of the decimal. -/
theorem lt_topPower_of_contains (h : 0 < x.significand) {n places : Nat}
    (hcontains : (roundingInterval x).Contains (n * (10 : ℚ) ^ (-(places : ℤ)))) :
    -(places : ℤ) < topPower x + 2 := by
  have hten : (1 : ℚ) < 10 := by norm_num
  have hself := contains_value h
  have hbelow := le_three_mul h hcontains hself
  have habove := le_three_mul h hself hcontains
  obtain ⟨hlow, hhigh⟩ := topPower_spec h
  have hsome : (1 : ℚ) ≤ n := by
    rcases Nat.eq_zero_or_pos n with rfl | hsome
    · rw [Nat.cast_zero, zero_mul, mul_zero] at hbelow
      exact absurd (hlow.trans hbelow) (not_le.mpr (ten_zpow_pos _))
    · exact_mod_cast hsome
  have hless : (10 : ℚ) ^ (-(places : ℤ)) < 10 ^ (1 + (topPower x + 1)) := by
    calc (10 : ℚ) ^ (-(places : ℤ)) ≤ n * 10 ^ (-(places : ℤ)) :=
          le_mul_of_one_le_left (ten_zpow_pos _).le hsome
      _ < 10 * 10 ^ (topPower x + 1) := by
        linarith only [habove, hhigh, ten_zpow_pos (topPower x + 1)]
      _ = 10 ^ (1 + (topPower x + 1)) := (zpow_one_add₀ (by norm_num) _).symm
  have hpower := (zpow_lt_zpow_iff_right₀ hten).mp hless
  omega

/-- **Near a decimal of few digits it has few digits**: one place more behind the point at most, and
digits that are no greater than ten times as many ask for. -/
theorem shortest_few (h : x.isZero = false) (tieUp : Nat → Bool) {n places : Nat}
    (hcontains : (roundingInterval x).Contains (n * (10 : ℚ) ^ (-(places : ℤ)))) :
    -((places : ℤ) + 1) ≤ (shortest tieUp x).exponent ∧
      (shortest tieUp x).digits * 10 ^ ((shortest tieUp x).exponent + 1).toNat ≤ 30 * n := by
  have hpos := significand_pos h
  obtain ⟨hshortest, -, -⟩ := shortest_spec h tieUp
  have hvalue := le_three_mul hpos hcontains hshortest
  have hfirst := le_shortest_exponent h tieUp hcontains
  have htop := lt_topPower_of_contains hpos hcontains
  generalize shortest tieUp x = d at *
  have hmost : -((places : ℤ) + 1) ≤ d.exponent := by omega
  refine ⟨hmost, ?_⟩
  obtain ⟨k, hk⟩ : ∃ k, (d.exponent + 1).toNat = k := ⟨_, rfl⟩
  have hfew : ((d.digits * 10 ^ k : Nat) : ℚ) ≤ (30 * n : Nat) := by
    have hsplit : ∀ e : ℤ, (10 : ℚ) ^ e * 10 ^ ((k : ℤ) - d.exponent) =
        10 ^ (e + (k - d.exponent)) := fun e => (zpow_add₀ (by norm_num) _ _).symm
    have hgrid : (d.exponent + ((k : ℤ) - d.exponent)) = k := by ring
    have hpower : (10 : ℚ) ^ (-(places : ℤ) + (k - d.exponent)) ≤ 10 ^ (1 : ℤ) :=
      zpow_le_zpow_right₀ (by norm_num) (by omega)
    calc ((d.digits * 10 ^ k : Nat) : ℚ) = d.value * 10 ^ ((k : ℤ) - d.exponent) := by
          rw [Numeral.value, mul_assoc, hsplit, hgrid, zpow_natCast]
          push_cast
          rfl
      _ ≤ 3 * (n * 10 ^ (-(places : ℤ))) * 10 ^ ((k : ℤ) - d.exponent) :=
        mul_le_mul_of_nonneg_right hvalue (ten_zpow_pos _).le
      _ = 3 * n * 10 ^ (-(places : ℤ) + (k - d.exponent)) := by
        rw [← hsplit]
        ring
      _ ≤ 3 * n * 10 ^ (1 : ℤ) :=
        mul_le_mul_of_nonneg_left hpower (mul_nonneg (by norm_num) (Nat.cast_nonneg n))
      _ = (30 * n : Nat) := by
        push_cast
        ring
  rw [hk]
  exact_mod_cast hfew

/-- The upper end of an interval is not above the next word. -/
theorem high_le_value {y : Binary64} (h : x.magnitude < y.magnitude) :
    (roundingInterval x).high ≤ (roundingInterval y).value := by
  have hx := x.isWord_parts
  have hy := y.isWord_parts
  have hlt := hx.lt
  have hlt' := hy.lt
  rw [x.magnitude_eq, y.magnitude_eq] at h
  show 4 * x.significand * 2 ^ x.scale + 2 * 2 ^ x.scale ≤ 4 * y.significand * 2 ^ y.scale
  rw [← Nat.add_mul]
  rcases Nat.lt_trichotomy x.scale y.scale with hless | heq | hmore
  · obtain ⟨k, hk⟩ : ∃ k, y.scale = x.scale + 1 + k := ⟨y.scale - (x.scale + 1), by omega⟩
    have hfull := hy.full (Nat.zero_lt_of_lt hless)
    calc (4 * x.significand + 2) * 2 ^ x.scale ≤ 4 * 2 ^ 52 * 2 * 2 ^ x.scale :=
          Nat.mul_le_mul_right _ (by omega)
      _ ≤ 4 * 2 ^ 52 * 2 * 2 ^ x.scale * 2 ^ k := Nat.le_mul_of_pos_right _ (Nat.two_pow_pos k)
      _ = 4 * 2 ^ 52 * 2 ^ y.scale := by rw [hk]; ring
      _ ≤ 4 * y.significand * 2 ^ y.scale := Nat.mul_le_mul_right _ (by omega)
  · rw [heq] at h ⊢
    exact Nat.mul_le_mul_right _ (by omega)
  · have hfull := hx.full (Nat.zero_lt_of_lt hmore)
    omega

end Words

/-! ## How large and how small -/

/-- The greatest finite word of a sign. -/
def greatest (negative : Bool) : Binary64 :=
  .ofMagnitude negative (Binary64.infiniteMagnitude - 1)

theorem magnitude_greatest (negative : Bool) :
    (greatest negative).magnitude = Binary64.infiniteMagnitude - 1 :=
  Binary64.magnitude_ofMagnitude negative (by decide)

/-- Its value. -/
def greatestValue : Nat := (2 ^ 53 - 1) * 2 ^ 971

theorem value_greatest (negative : Bool) :
    ((roundingInterval (greatest negative)).value : ℚ) /
      (roundingInterval (greatest negative)).den = greatestValue := by
  have hword : IsWord (2 ^ 53 - 1) 2045 := ⟨by decide, fun _ => by decide⟩
  obtain ⟨hm, hs⟩ := Binary64.parts_of_magnitude hword (magnitude_greatest negative)
  have hpow : ∀ j k, 4 * (2 ^ 53 - 1) * 2 ^ (j + k) = (2 ^ 53 - 1) * 2 ^ j * (4 * 2 ^ k) :=
    fun j k => by ring
  obtain ⟨j, hj, hgreatest⟩ : ∃ j, j + 1074 = 2045 ∧ greatestValue = (2 ^ 53 - 1) * 2 ^ j :=
    ⟨971, rfl, rfl⟩
  have hvalue : (roundingInterval (greatest negative)).value =
      greatestValue * (roundingInterval (greatest negative)).den := by
    rw [den_eq, hgreatest, ← hpow j 1074, hj]
    simp only [roundingInterval, hm, hs]
  have hpos : (0 : ℚ) < (roundingInterval (greatest negative)).den := by exact_mod_cast den_pos _
  rw [hvalue, Nat.cast_mul, mul_div_cancel_right₀ _ hpos.ne']

/-- **What is written for a finite word is not above the greatest one.** -/
theorem shortest_le_greatest {x : Binary64} (hfinite : x.isFinite = true) (hzero : x.isZero = false) :
    (shortest Layout.exchange.tie x).value ≤ greatestValue := by
  have hless : x.magnitude < Binary64.infiniteMagnitude := of_decide_eq_true hfinite
  rcases Nat.lt_or_eq_of_le (Nat.le_sub_one_of_lt hless) with hlt | heq
  · have hhigh := high_le_value ((magnitude_greatest false).symm ▸ hlt)
    obtain ⟨hcontains, -, -⟩ := shortest_spec hzero Layout.exchange.tie
    have hden : (roundingInterval (greatest false)).den = (roundingInterval x).den := by
      rw [den_eq, den_eq]
    rw [← value_greatest false, hden]
    refine hcontains.le_high.trans ?_
    exact div_le_div_of_nonneg_right (Nat.cast_le.mpr hhigh) (Nat.cast_nonneg _)
  · -- For the greatest one itself, what is written is a little less than its value.
    have hx : x = greatest x.isNegative := by
      rw [greatest, ← heq, Binary64.ofMagnitude_self]
    have hdigits : ∀ negative, shortest Layout.exchange.tie (greatest negative) =
        ⟨17976931348623157, 292⟩ := by decide +kernel
    obtain ⟨d, hd, hexponent, hle⟩ : ∃ d : Numeral, d = ⟨17976931348623157, 292⟩ ∧
        0 ≤ d.exponent ∧ d.digits * 10 ^ d.exponent.toNat ≤ greatestValue :=
      ⟨_, rfl, by decide, by decide +kernel⟩
    rw [hx, hdigits, ← hd, Numeral.value_of_nonneg hexponent]
    exact Nat.cast_le.mpr hle

/-- The exponents that are written are not large. -/
theorem shortest_exponent {x : Binary64} (hfinite : x.isFinite = true) (hzero : x.isZero = false) :
    -400 ≤ (shortest Layout.exchange.tie x).exponent ∧
      (shortest Layout.exchange.tie x).exponent ≤ 308 := by
  obtain ⟨hcontains, hpos, hmost⟩ := shortest_spec hzero Layout.exchange.tie
  have hgreat := shortest_le_greatest hfinite hzero
  obtain ⟨w, hlow, hw⟩ := low_eq_quarters (significand_pos hzero)
  have hten : (1 : ℚ) < 10 := by norm_num
  generalize shortest Layout.exchange.tie x = d at *
  constructor
  · -- The lower end of every interval is half of the least word at least.
    obtain ⟨k, hk, hden⟩ : ∃ k : Nat, k = 325 ∧ (roundingInterval x).den < 10 ^ k := by
      refine ⟨325, rfl, ?_⟩
      rw [den_eq]
      decide +kernel
    have hden' : ((roundingInterval x).den : ℚ) < 10 ^ k := by exact_mod_cast hden
    have hdenPos : (0 : ℚ) < (roundingInterval x).den := by exact_mod_cast den_pos x
    have hplace : 1 / ((roundingInterval x).den : ℚ) ≤ quarter x :=
      div_le_div_of_nonneg_right (one_le_pow₀ (by norm_num)) hdenPos.le
    have hquarters : (1 : ℚ) ≤ 4 * x.significand - w := by
      have hone : (1 : ℚ) ≤ x.significand := by exact_mod_cast significand_pos hzero
      rcases hw with ⟨-, rfl⟩ | rfl <;> linarith
    have hleast : (10 : ℚ) ^ (-(k : ℤ)) < 10 ^ (17 + d.exponent) := by
      calc (10 : ℚ) ^ (-(k : ℤ)) = 1 / 10 ^ k := by rw [zpow_neg, zpow_natCast, one_div]
        _ < 1 / (roundingInterval x).den := div_lt_div_of_pos_left one_pos hdenPos hden'
        _ ≤ quarter x := hplace
        _ ≤ (4 * x.significand - w) * quarter x := le_mul_of_one_le_left (quarter_pos x).le hquarters
        _ ≤ d.value := hlow ▸ hcontains.low_le
        _ ≤ 10 ^ 17 * 10 ^ d.exponent :=
          mul_le_mul_of_nonneg_right (by exact_mod_cast hmost) (ten_zpow_pos _).le
        _ = 10 ^ (17 + d.exponent) := by
          rw [zpow_add₀ (by norm_num)]
          norm_num
    have hlt := (zpow_lt_zpow_iff_right₀ hten).mp hleast
    omega
  · have hone : (1 : ℚ) ≤ d.digits := by exact_mod_cast hpos
    obtain ⟨k, hk, hlimit⟩ : ∃ k : Nat, k = 309 ∧ greatestValue < 10 ^ k :=
      ⟨309, rfl, by decide +kernel⟩
    have hlimit' : (greatestValue : ℚ) < (10 : ℚ) ^ (k : ℤ) := by
      rw [zpow_natCast]
      exact_mod_cast hlimit
    have hle : (10 : ℚ) ^ d.exponent ≤ greatestValue := by
      refine le_trans ?_ hgreat
      exact le_mul_of_one_le_left (ten_zpow_pos _).le hone
    have hlt := (zpow_lt_zpow_iff_right₀ hten).mp (hle.trans_lt hlimit')
    omega

end Lineage.Decimal
