import Lineage.Decimal.Shortest
import Mathlib.Tactic.Ring
/-
  Rounding to words is right.

  The reals that are rounded to a word lie between the midpoints to its two neighbours, and the
  midpoints themselves are rounded to the word whose significand is even.  Here it is shown of
  `magnitudeOfRatio`, which scales a quotient to 53 binary digits and rounds it to a whole number:
  a quotient between these midpoints is rounded to that word (`magnitudeOfRatio_eq`), and every
  quotient lies between those of the word it is rounded to (`exists_parts`).

  A word is `m · 2^s` least words.  A quotient up to its upper midpoint (`UpTo`) is scaled down by
  `s` at most; where it is scaled down less, at most `2^53` is left, which is the least significand
  of the next scale.  A quotient down to its lower midpoint (`DownTo`) is scaled down by `s` at
  least, but for the least word of a scale, whose lower neighbour is on the scale below.
-/

namespace Lineage.Binary64

/-! ## Rounding to whole numbers -/

/-- `k` is a whole number nearest to `num / den`, and the even one where two are as near. -/
structure Nearest (num den k : Nat) : Prop where
  le_top : 2 * num ≤ (2 * k + 1) * den
  bottom_le : 2 * k * den ≤ 2 * num + den
  even_of_top : 2 * num = (2 * k + 1) * den → k % 2 = 0
  even_of_bottom : 2 * k * den = 2 * num + den → k % 2 = 0

section WholeNumbers

variable {num den k r : Nat}

theorem roundHalfEven_nearest (num : Nat) (hden : 0 < den) :
    Nearest num den (roundHalfEven num den) := by
  obtain ⟨q, hq⟩ : ∃ q, num / den = q := ⟨_, rfl⟩
  obtain ⟨r, hr⟩ : ∃ r, num % den = r := ⟨_, rfl⟩
  have hnum : num = den * q + r := by rw [← hq, ← hr, Nat.div_add_mod]
  have hlt : r < den := hr ▸ Nat.mod_lt num hden
  have htop : ∀ k, (2 * k + 1) * den = 2 * (den * k) + den := fun k => by ring
  have hbottom : ∀ k, 2 * k * den = 2 * (den * k) := fun k => by ring
  have hnext : den * (q + 1) = den * q + den := Nat.mul_succ den q
  unfold roundHalfEven
  simp only [hq, hr]
  split_ifs with hless hmore
  · constructor <;> simp only [htop, hbottom] <;> omega
  · constructor <;> simp only [htop, hbottom, hnext] <;> omega
  · -- Half way between two: the remainder of `q` by two makes it even.
    rcases Nat.mod_two_eq_zero_or_one q with h | h <;> rw [h]
    · constructor <;> simp only [Nat.add_zero, htop, hbottom] <;> omega
    · constructor <;> simp only [htop, hbottom, hnext] <;> omega

/-- What is nearest is not above a whole number that reaches up to the quotient. -/
theorem Nearest.le_of_le_top (h : Nearest num den r) (hden : 0 < den)
    (htop : 2 * num ≤ (2 * k + 1) * den) (heven : 2 * num = (2 * k + 1) * den → k % 2 = 0) :
    r ≤ k := by
  by_contra hlt
  have hmul : (2 * k + 2) * den ≤ 2 * r * den := Nat.mul_le_mul_right den (by omega)
  have hexpand : (2 * k + 2) * den = (2 * k + 1) * den + den := by ring
  have hbottom := h.bottom_le
  -- Both bounds are met, so both numbers are even and one apart.
  have hr : 2 * r * den = (2 * k + 2) * den := by omega
  have heq : 2 * r = 2 * k + 2 := Nat.eq_of_mul_eq_mul_right hden hr
  have hodd := h.even_of_bottom (by omega)
  have hk := heven (by omega)
  omega

/-- Nor is it below one that reaches down to the quotient. -/
theorem Nearest.ge_of_bottom_le (h : Nearest num den r) (hden : 0 < den)
    (hbottom : 2 * k * den ≤ 2 * num + den) (heven : 2 * k * den = 2 * num + den → k % 2 = 0) :
    k ≤ r := by
  by_contra hlt
  have hmul : (2 * r + 2) * den ≤ 2 * k * den := Nat.mul_le_mul_right den (by omega)
  have hexpand : (2 * r + 2) * den = (2 * r + 1) * den + den := by ring
  have htop := h.le_top
  have hk : 2 * k * den = (2 * r + 2) * den := by omega
  have heq : 2 * k = 2 * r + 2 := Nat.eq_of_mul_eq_mul_right hden hk
  have hodd := h.even_of_top (by omega)
  have hk := heven (by omega)
  omega

end WholeNumbers

/-! ## The parts of words -/

/-- A word has the value of `m · 2^s` least words, and these are its parts. -/
structure IsWord (m s : Nat) : Prop where
  lt : m < 2 ^ 53
  full : 0 < s → 2 ^ 52 ≤ m

theorem isWord_parts (x : Binary64) : IsWord x.significand x.scale := by
  have hmod := Nat.mod_lt x.magnitude (Nat.two_pow_pos 52)
  unfold significand scale
  constructor
  · dsimp only
    split_ifs <;> omega
  · intro hscale
    dsimp only
    rw [if_neg (by omega)]
    exact Nat.le_add_left _ _

theorem magnitude_eq (x : Binary64) : x.magnitude = x.scale * 2 ^ 52 + x.significand := by
  have hparts := Nat.div_add_mod x.magnitude (2 ^ 52)
  unfold significand scale
  dsimp only
  split_ifs with hfield <;> omega

/-- Words of one magnitude have the same parts. -/
theorem parts_of_magnitude {x : Binary64} {m s : Nat} (h : IsWord m s)
    (hx : x.magnitude = s * 2 ^ 52 + m) : x.significand = m ∧ x.scale = s := by
  have hword := x.isWord_parts
  have hmagnitude := x.magnitude_eq
  have hlt := h.lt
  have hlt' := hword.lt
  have hscale : x.scale = s := by
    rcases Nat.lt_trichotomy x.scale s with hless | heq | hmore
    · have hfull := h.full (by omega)
      omega
    · exact heq
    · have hfull := hword.full (by omega)
      omega
  refine ⟨?_, hscale⟩
  rw [hscale] at hmagnitude
  omega

theorem magnitude_lt (x : Binary64) : x.magnitude < 2 ^ 63 :=
  Nat.mod_lt _ (Nat.two_pow_pos 63)

theorem toNat_ofMagnitude (negative : Bool) {n : Nat} (h : n < 2 ^ 63) :
    (ofMagnitude negative n).bits.toNat = n + if negative then 2 ^ 63 else 0 := by
  refine UInt64.toNat_ofNat_of_lt' ?_
  show _ < 2 ^ 64
  split_ifs <;> omega

theorem magnitude_ofMagnitude (negative : Bool) {n : Nat} (h : n < 2 ^ 63) :
    (ofMagnitude negative n).magnitude = n := by
  rw [magnitude, toNat_ofMagnitude negative h]
  split_ifs <;> omega

theorem isNegative_ofMagnitude (negative : Bool) {n : Nat} (h : n < 2 ^ 63) :
    (ofMagnitude negative n).isNegative = negative := by
  rw [isNegative, toNat_ofMagnitude negative h]
  cases negative
  · exact decide_eq_false (by simpa using h)
  · exact decide_eq_true (by simp)

/-- A word is its sign and its magnitude. -/
theorem ofMagnitude_self (x : Binary64) : ofMagnitude x.isNegative x.magnitude = x := by
  have hlt : x.bits.toNat < 2 ^ 64 := x.bits.toNat_lt
  have hbits : (ofMagnitude x.isNegative x.magnitude).bits = x.bits := by
    rw [← UInt64.toNat_inj, toNat_ofMagnitude _ x.magnitude_lt, magnitude, isNegative]
    simp only [decide_eq_true_eq]
    split_ifs <;> omega
  cases x
  exact congrArg mk hbits

theorem infiniteMagnitude_lt : infiniteMagnitude < 2 ^ 63 := by decide

theorem magnitudeOfRatio_lt (num den : Nat) : magnitudeOfRatio num den < 2 ^ 63 :=
  Nat.lt_of_le_of_lt (Nat.min_le_right _ _) infiniteMagnitude_lt

theorem magnitude_ofRatio (negative : Bool) (num den : Nat) :
    (ofRatio negative num den).magnitude = magnitudeOfRatio num den :=
  magnitude_ofMagnitude negative (magnitudeOfRatio_lt num den)

theorem isNegative_ofRatio (negative : Bool) (num den : Nat) :
    (ofRatio negative num den).isNegative = negative :=
  isNegative_ofMagnitude negative (magnitudeOfRatio_lt num den)

/-! ## Rounding to words -/

section Words

variable {num den m s : Nat}

/-- Scaled down, the quotient is below `2^53`. -/
theorem lt_of_shift (num : Nat) (hden : 0 < den) :
    num * 2 ^ 1074 < 2 ^ (53 + shift num den) * den := by
  have hlog : (num * 2 ^ 1074 / den).log2 + 1 ≤ 53 + shift num den := by
    unfold shift
    omega
  have hpow := Nat.pow_le_pow_right (show 0 < 2 by decide) hlog
  exact (Nat.div_lt_iff_lt_mul hden).mp (Nat.lt_of_lt_of_le Nat.lt_log2_self hpow)

/-- Where it is scaled down at all, it is not below `2^52`. -/
theorem le_of_shift (hden : 0 < den) (h : 0 < shift num den) :
    2 ^ (52 + shift num den) * den ≤ num * 2 ^ 1074 := by
  have hlog : 52 + shift num den ≤ (num * 2 ^ 1074 / den).log2 := by
    unfold shift at h ⊢
    omega
  have hne : num * 2 ^ 1074 / den ≠ 0 := by
    intro hzero
    rw [shift, hzero] at h
    exact absurd h (by decide)
  exact (Nat.le_div_iff_mul_le hden).mp ((Nat.le_log2 hne).mp hlog)

/-- What `num * 2 ^ 1074 / den` is scaled down by, and what it is then rounded to. -/
structure Scaled (num den e r : Nat) : Prop where
  below : num * 2 ^ 1074 < 2 ^ 53 * (den * 2 ^ e)
  above : 0 < e → 2 ^ 52 * (den * 2 ^ e) ≤ num * 2 ^ 1074
  nearest : Nearest (num * 2 ^ 1074) (den * 2 ^ e) r

theorem exists_scaled (num : Nat) (hden : 0 < den) : ∃ e r, Scaled num den e r ∧
    magnitudeOfRatio num den = min (e * 2 ^ 52 + r) infiniteMagnitude := by
  have hpos : 0 < den * 2 ^ shift num den := Nat.mul_pos hden (Nat.two_pow_pos _)
  have hexpand : ∀ k, 2 ^ (k + shift num den) * den = 2 ^ k * (den * 2 ^ shift num den) :=
    fun k => by ring
  refine ⟨shift num den, _, ⟨?_, ?_, roundHalfEven_nearest _ hpos⟩, rfl⟩
  · rw [← hexpand]
    exact lt_of_shift num hden
  · intro h
    rw [← hexpand]
    exact le_of_shift hden h

/-- A quotient is up to the midpoint above a word, and meets it only if the word is even. -/
structure UpTo (num den m s : Nat) : Prop where
  le : 2 * (num * 2 ^ 1074) ≤ (2 * m + 1) * (den * 2 ^ s)
  even : 2 * (num * 2 ^ 1074) = (2 * m + 1) * (den * 2 ^ s) → m % 2 = 0

/-- A quotient is down to the midpoint below a word, and meets it only if the word is even.  Below
the least word of a scale the next one is half as far away. -/
structure DownTo (num den m s : Nat) : Prop where
  le : 4 * m * (den * 2 ^ s) ≤
    4 * (num * 2 ^ 1074) + (if m = 2 ^ 52 ∧ 0 < s then 1 else 2) * (den * 2 ^ s)
  even : 4 * m * (den * 2 ^ s) = 4 * (num * 2 ^ 1074) + 2 * (den * 2 ^ s) → m % 2 = 0

/-- **A quotient that does not reach beyond a word is not rounded to one above it.** -/
theorem UpTo.magnitudeOfRatio_le (h : UpTo num den m s) (hden : 0 < den) (hword : IsWord m s) :
    magnitudeOfRatio num den ≤ s * 2 ^ 52 + m := by
  obtain ⟨e, r, hscaled, hmagnitude⟩ := exists_scaled num hden
  obtain ⟨htop, heven⟩ := h
  obtain ⟨hbelow, habove, hnear⟩ := hscaled
  rw [hmagnitude]
  refine Nat.le_trans (Nat.min_le_left _ _) ?_
  generalize num * 2 ^ 1074 = a at *
  have hpos : 0 < den * 2 ^ e := Nat.mul_pos hden (Nat.two_pow_pos e)
  rcases Nat.lt_trichotomy e s with hlt | rfl | hgt
  · -- Scaled down less than the word: at most `2^53` is left, and that is the least of its scale.
    have hround : r ≤ 2 ^ 53 := hnear.le_of_le_top hpos (by omega) fun _ => by decide
    have hfull := hword.full (Nat.zero_lt_of_lt hlt)
    omega
  · have hround := hnear.le_of_le_top hpos htop heven
    omega
  · -- Scaled down more, it would be twice as much as any word of the scale.
    exfalso
    obtain ⟨k, rfl⟩ : ∃ k, e = s + 1 + k := ⟨e - (s + 1), by omega⟩
    have hreach := habove (by omega)
    have hpow : den * 2 ^ (s + 1 + k) = 2 * (den * 2 ^ s) * 2 ^ k := by ring
    have hmore := Nat.le_mul_of_pos_right (2 * (den * 2 ^ s)) (Nat.two_pow_pos k)
    have hwhole : 0 < den * 2 ^ s := Nat.mul_pos hden (Nat.two_pow_pos s)
    have hparts := Nat.mul_le_mul_right (den * 2 ^ s) (show 2 * m + 1 ≤ 2 ^ 54 - 1 by
      have hlt := hword.lt
      omega)
    rw [← hpow] at hmore
    omega

/-- A quotient that reaches down to a word but is scaled down less is next to the least word of the
next scale. -/
theorem DownTo.least_of_lt (h : DownTo num den m s) (hden : 0 < den) (hword : IsWord m s) {e : Nat}
    (hbelow : num * 2 ^ 1074 < 2 ^ 53 * (den * 2 ^ e)) (hless : e < s) : m = 2 ^ 52 ∧ s = e + 1 := by
  obtain ⟨hbottom, -⟩ := h
  generalize num * 2 ^ 1074 = a at *
  have hpos : 0 < den * 2 ^ e := Nat.mul_pos hden (Nat.two_pow_pos e)
  have hfull := hword.full (Nat.zero_lt_of_lt hless)
  obtain ⟨k, rfl⟩ : ∃ k, s = e + 1 + k := ⟨s - (e + 1), by omega⟩
  have hpow : den * 2 ^ (e + 1 + k) = 2 * (den * 2 ^ e) * 2 ^ k := by ring
  have hmore := Nat.le_mul_of_pos_right (2 * (den * 2 ^ e)) (Nat.two_pow_pos k)
  rw [← hpow] at hmore
  have hleast : m = 2 ^ 52 := by
    by_contra hne
    have hparts := Nat.mul_le_mul_right (den * 2 ^ (e + 1 + k)) (show 2 ^ 52 + 1 ≤ m by omega)
    have hquarter : 4 * m * (den * 2 ^ (e + 1 + k)) = 4 * (m * (den * 2 ^ (e + 1 + k))) := by ring
    rw [if_neg fun h => hne h.1] at hbottom
    omega
  rw [if_pos ⟨hleast, by omega⟩, hleast] at hbottom
  refine ⟨hleast, ?_⟩
  by_contra hne
  obtain ⟨l, rfl⟩ : ∃ l, k = l + 1 := ⟨k - 1, by omega⟩
  have hpow' : den * 2 ^ (e + 1 + (l + 1)) = 4 * (den * 2 ^ e) * 2 ^ l := by ring
  have hfour := Nat.le_mul_of_pos_right (4 * (den * 2 ^ e)) (Nat.two_pow_pos l)
  omega

/-- **A quotient that reaches down to a word is not rounded to one below it.** -/
theorem DownTo.le_magnitudeOfRatio (h : DownTo num den m s) (hden : 0 < den) (hword : IsWord m s)
    (hfinite : s * 2 ^ 52 + m ≤ infiniteMagnitude) :
    s * 2 ^ 52 + m ≤ magnitudeOfRatio num den := by
  obtain ⟨e, r, hscaled, hmagnitude⟩ := exists_scaled num hden
  obtain ⟨hbelow, habove, hnear⟩ := hscaled
  have hleast := h.least_of_lt hden hword hbelow
  obtain ⟨hbottom, heven⟩ := h
  rw [hmagnitude]
  refine Nat.le_min.mpr ⟨?_, hfinite⟩
  generalize num * 2 ^ 1074 = a at *
  have hpos : 0 < den * 2 ^ e := Nat.mul_pos hden (Nat.two_pow_pos e)
  have hlt := hword.lt
  rcases Nat.lt_trichotomy e s with hless | rfl | hgt
  · -- Scaled down less than the word: what is left is rounded up to `2^53`.
    obtain ⟨rfl, rfl⟩ := hleast hless
    have hdouble : den * 2 ^ (e + 1) = 2 * (den * 2 ^ e) := by ring
    rw [if_pos ⟨rfl, by omega⟩, hdouble] at hbottom
    have hround : 2 ^ 53 ≤ r := hnear.ge_of_bottom_le hpos (by omega) fun _ => by decide
    omega
  · have hround : m ≤ r := by
      refine hnear.ge_of_bottom_le hpos ?_ ?_
      · have hquarter : 4 * m * (den * 2 ^ e) = 2 * (2 * m * (den * 2 ^ e)) := by ring
        split_ifs at hbottom <;> omega
      · intro hmeets
        refine heven ?_
        have hquarter : 4 * m * (den * 2 ^ e) = 2 * (2 * m * (den * 2 ^ e)) := by ring
        omega
    omega
  · have hround : 2 ^ 52 ≤ r := by
      refine hnear.ge_of_bottom_le hpos ?_ fun _ => by decide
      have hreach := habove (Nat.zero_lt_of_lt hgt)
      omega
    omega

/-- **A quotient between the midpoints of a word is rounded to it.** -/
theorem magnitudeOfRatio_eq (hden : 0 < den) (hword : IsWord m s)
    (hfinite : s * 2 ^ 52 + m ≤ infiniteMagnitude) (hup : UpTo num den m s)
    (hdown : DownTo num den m s) : magnitudeOfRatio num den = s * 2 ^ 52 + m :=
  Nat.le_antisymm (hup.magnitudeOfRatio_le hden hword) (hdown.le_magnitudeOfRatio hden hword hfinite)

/-- **Every quotient lies between the midpoints of the word it is rounded to.** -/
theorem exists_parts (hden : 0 < den) (hfinite : magnitudeOfRatio num den < infiniteMagnitude) :
    ∃ m s, IsWord m s ∧ magnitudeOfRatio num den = s * 2 ^ 52 + m ∧ UpTo num den m s ∧
      DownTo num den m s := by
  obtain ⟨e, r, hscaled, hmagnitude⟩ := exists_scaled num hden
  obtain ⟨hbelow, habove, hnear⟩ := hscaled
  have hpos : 0 < den * 2 ^ e := Nat.mul_pos hden (Nat.two_pow_pos e)
  have hvalue : magnitudeOfRatio num den = e * 2 ^ 52 + r := by omega
  have htop := hnear.le_top
  have hbottom := hnear.bottom_le
  have hquarter : 4 * r * (den * 2 ^ e) = 2 * (2 * r * (den * 2 ^ e)) := by ring
  have hmost : r ≤ 2 ^ 53 := by
    refine hnear.le_of_le_top hpos ?_ fun _ => by decide
    generalize num * 2 ^ 1074 = a at *
    omega
  rcases Nat.lt_or_eq_of_le hmost with hlt | rfl
  · have hfull : 0 < e → 2 ^ 52 ≤ r := by
      intro he
      refine hnear.ge_of_bottom_le hpos ?_ fun _ => by decide
      have hreach := habove he
      generalize num * 2 ^ 1074 = a at *
      omega
    refine ⟨r, e, ⟨hlt, hfull⟩, hvalue, ⟨htop, hnear.even_of_top⟩, ?_, ?_⟩
    · split_ifs with hleast
      · have hreach := habove hleast.2
        rw [hleast.1]
        generalize num * 2 ^ 1074 = a at *
        omega
      · generalize num * 2 ^ 1074 = a at *
        omega
    · intro hmeets
      refine hnear.even_of_bottom ?_
      generalize num * 2 ^ 1074 = a at *
      omega
  · -- A carry out of the digits: the least word of the next scale.
    have hdouble : den * 2 ^ (e + 1) = 2 * (den * 2 ^ e) := by ring
    refine ⟨2 ^ 52, e + 1, ⟨by decide, fun _ => Nat.le_refl _⟩, by omega, ⟨?_, fun _ => rfl⟩, ?_,
      fun _ => rfl⟩
    · rw [hdouble]
      generalize num * 2 ^ 1074 = a at *
      omega
    · rw [hdouble, if_pos ⟨rfl, Nat.succ_pos e⟩]
      generalize num * 2 ^ 1074 = a at *
      omega

/-- Rounding keeps the order. -/
theorem magnitudeOfRatio_mono {num' den' : Nat} (hden : 0 < den) (hden' : 0 < den')
    (h : num * den' ≤ num' * den) : magnitudeOfRatio num den ≤ magnitudeOfRatio num' den' := by
  rcases Nat.lt_or_ge (magnitudeOfRatio num' den') infiniteMagnitude with hfinite | hinfinite
  · obtain ⟨m, s, hword, hvalue, hup, -⟩ := exists_parts hden' hfinite
    rw [hvalue]
    have hscaled : ∀ c, 2 * (num * c) * den' ≤ 2 * (num' * c) * den := by
      intro c
      calc 2 * (num * c) * den' = 2 * c * (num * den') := by ring
        _ ≤ 2 * c * (num' * den) := Nat.mul_le_mul_left _ h
        _ = 2 * (num' * c) * den := by ring
    have hunits := hscaled (2 ^ 1074)
    have hreach := Nat.mul_le_mul_right den hup.le
    have hexpand : (2 * m + 1) * (den' * 2 ^ s) * den = (2 * m + 1) * (den * 2 ^ s) * den' := by ring
    refine UpTo.magnitudeOfRatio_le ⟨?_, ?_⟩ hden hword
    · refine Nat.le_of_mul_le_mul_right ?_ hden'
      omega
    · intro hmeets
      refine hup.even (Nat.eq_of_mul_eq_mul_right hden ?_)
      rw [hmeets] at hunits
      omega
  · exact Nat.le_trans (Nat.min_le_right _ _) hinfinite

/-- What is the value of a word is rounded to it. -/
theorem magnitudeOfRatio_of_eq (hden : 0 < den) (hword : IsWord m s)
    (hfinite : s * 2 ^ 52 + m ≤ infiniteMagnitude) (h : num * 2 ^ 1074 = m * (den * 2 ^ s)) :
    magnitudeOfRatio num den = s * 2 ^ 52 + m := by
  have hpos : 0 < den * 2 ^ s := Nat.mul_pos hden (Nat.two_pow_pos s)
  have htop : (2 * m + 1) * (den * 2 ^ s) = 2 * (m * (den * 2 ^ s)) + den * 2 ^ s := by ring
  have hbottom : 4 * m * (den * 2 ^ s) = 4 * (m * (den * 2 ^ s)) := by ring
  refine magnitudeOfRatio_eq hden hword hfinite ⟨?_, ?_⟩ ⟨?_, ?_⟩ <;> rw [h]
  · omega
  · omega
  · rw [hbottom]
    exact Nat.le_add_right _ _
  · omega

end Words

/-! ## Values -/

theorem ratio_eq {x : Binary64} {m s : Nat} (h : IsWord m s) (hx : x.magnitude = s * 2 ^ 52 + m) :
    x.ratio = (m * 2 ^ s, 2 ^ 1074) := by
  obtain ⟨hm, hs⟩ := parts_of_magnitude h hx
  rw [ratio, hm, hs]

/-- Greater magnitudes have greater values. -/
theorem ratio_mono {x y : Binary64} (h : x.magnitude ≤ y.magnitude) : x.ratio.1 ≤ y.ratio.1 := by
  have hx := x.isWord_parts
  have hy := y.isWord_parts
  have hlt := hx.lt
  have hlt' := hy.lt
  rw [x.magnitude_eq, y.magnitude_eq] at h
  show x.significand * 2 ^ x.scale ≤ y.significand * 2 ^ y.scale
  rcases Nat.lt_trichotomy x.scale y.scale with hless | heq | hmore
  · obtain ⟨k, hk⟩ : ∃ k, y.scale = x.scale + 1 + k := ⟨y.scale - (x.scale + 1), by omega⟩
    have hfull := hy.full (Nat.zero_lt_of_lt hless)
    calc x.significand * 2 ^ x.scale ≤ 2 ^ 52 * 2 * 2 ^ x.scale :=
          Nat.mul_le_mul_right _ (by omega)
      _ ≤ 2 ^ 52 * 2 * 2 ^ x.scale * 2 ^ k := Nat.le_mul_of_pos_right _ (Nat.two_pow_pos k)
      _ = 2 ^ 52 * 2 ^ y.scale := by rw [hk]; ring
      _ ≤ y.significand * 2 ^ y.scale := Nat.mul_le_mul_right _ hfull
  · rw [heq] at h ⊢
    exact Nat.mul_le_mul_right _ (by omega)
  · have hfull := hx.full (Nat.zero_lt_of_lt hmore)
    omega

/-- Whole numbers of 53 binary digits are words. -/
theorem ratio_ofNat {n : Nat} (h : n ≤ 2 ^ 53) : (ofNat n).ratio = (n * 2 ^ 1074, 2 ^ 1074) := by
  have hexact : ∀ {m s : Nat}, IsWord m s → s * 2 ^ 52 + m ≤ infiniteMagnitude →
      n * 2 ^ 1074 = m * 2 ^ s → (ofNat n).ratio = (n * 2 ^ 1074, 2 ^ 1074) := by
    intro m s hword hfinite hvalue
    have hmagnitude : (ofNat n).magnitude = s * 2 ^ 52 + m := by
      rw [ofNat, magnitude_ofRatio]
      refine magnitudeOfRatio_of_eq Nat.one_pos hword hfinite ?_
      rw [Nat.one_mul, hvalue]
    rw [ratio_eq hword hmagnitude, hvalue]
  rcases Nat.eq_zero_or_pos n with rfl | hpos
  · refine hexact (m := 0) (s := 0) ⟨Nat.two_pow_pos 53, fun hs => absurd hs (Nat.lt_irrefl 0)⟩
      (Nat.zero_le _) ?_
    simp only [Nat.zero_mul]
  · rcases Nat.lt_or_eq_of_le h with hlt | rfl
    · -- Scaled up until its first binary digit is the fifty-third.
      have hlog : n.log2 < 53 := (Nat.log2_lt (Nat.ne_of_gt hpos)).mpr hlt
      have hself := Nat.log2_self_le (Nat.ne_of_gt hpos)
      have hnext := @Nat.lt_log2_self n
      have hpow : ∀ k, 2 ^ (k + n.log2) * 2 ^ (52 - n.log2) = 2 ^ (k + 52) := by
        intro k
        rw [← Nat.pow_add]
        congr 1
        omega
      have hword : IsWord (n * 2 ^ (52 - n.log2)) (1022 + n.log2) := by
        refine ⟨?_, fun _ => ?_⟩
        · calc n * 2 ^ (52 - n.log2) < 2 ^ (1 + n.log2) * 2 ^ (52 - n.log2) :=
                Nat.mul_lt_mul_of_pos_right (Nat.add_comm _ 1 ▸ hnext) (Nat.two_pow_pos _)
            _ = 2 ^ 53 := hpow 1
        · calc 2 ^ 52 = 2 ^ (0 + n.log2) * 2 ^ (52 - n.log2) := (hpow 0).symm
            _ ≤ n * 2 ^ (52 - n.log2) := Nat.mul_le_mul_right _ (by rwa [Nat.zero_add])
      refine hexact hword ?_ ?_
      · have hm := hword.lt
        show _ ≤ 2047 * 2 ^ 52
        omega
      · rw [Nat.mul_assoc, ← Nat.pow_add]
        congr 2
        omega
    · have hdouble : ∀ k, 2 ^ 53 * 2 ^ k = 2 ^ 52 * 2 ^ (k + 1) := fun k => by ring
      exact hexact ⟨by decide, fun _ => Nat.le_refl _⟩ (by decide) (hdouble 1074)

end Lineage.Binary64
