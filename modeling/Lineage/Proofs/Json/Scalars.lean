import Lineage.Json.Scalar
import Lineage.Proofs.Decimal.Digits
import Lineage.Proofs.Success
import Mathlib.Data.List.TakeDrop
/-
  Texts and numbers that are printed and read again.

  A printed text ends at the quote that was printed last, because no quote between stands without
  its backslash; what is read are the characters that were printed (`readText_printed`,
  `skipText_printed`).  Each character is either printed as it is, or as a backslash and what the
  reader of escapes makes that character of (`escaped_cases`).

  A number ends where its digits end, if nothing follows that could go on with a number (`Stops`).
  What may be written for one is `NumberText`: all of it is scanned into the parts it stands for
  (`scanNumber_of_text`), and nothing else is scanned (`numberText_of_scanNumber`).
-/

namespace Lineage.Json

/-! ## Texts -/

theorem hexValue?_hexDigit : ∀ n : Fin 16, Text.hexValue? (Text.hexDigit n.val) = some n.val := by
  decide

/-- The four digits of a number below 256 are read as that number. -/
theorem hexFour_hexDigits {n : Nat} (h : n < 256) (rest : List Char) :
    hexFour ('0' :: '0' :: Text.hexDigit (n / 16) :: Text.hexDigit (n % 16) :: rest) =
      .ok (n, rest) := by
  have hzero : Text.hexValue? '0' = some 0 := by decide
  have hhigh : Text.hexValue? (Text.hexDigit (n / 16)) = some (n / 16) :=
    hexValue?_hexDigit ⟨n / 16, by omega⟩
  have hlow : Text.hexValue? (Text.hexDigit (n % 16)) = some (n % 16) :=
    hexValue?_hexDigit ⟨n % 16, by omega⟩
  have hvalue : ((0 * 16 + 0) * 16 + n / 16) * 16 + n % 16 = n := by omega
  simp only [hexFour, hzero, hhigh, hlow, hvalue]

/-- The letter of a short escape stands for its character. -/
theorem readEscape_of_short {x c : Char} (hx : x ≠ 'u') (h : shortEscape? x = some c)
    (rest : List Char) :
    readEscape ([x] ++ rest) = .ok (c, rest) ∧ skipEscape ([x] ++ rest) = .ok rest := by
  constructor
  · simp only [List.singleton_append, readEscape, h]
  · simp only [List.singleton_append, skipEscape, h]

/-- The code point of a control character stands for the character. -/
theorem readEscape_of_control {c : Char} (h : c.toNat < 32) (rest : List Char) :
    let body := 'u' :: '0' :: '0' :: Text.hexDigit (c.toNat / 16) :: [Text.hexDigit (c.toNat % 16)]
    readEscape (body ++ rest) = .ok (c, rest) ∧ skipEscape (body ++ rest) = .ok rest := by
  have hfour := hexFour_hexDigits (n := c.toNat) (by omega) rest
  have hlow : (0xdc00 ≤ c.toNat && c.toNat ≤ 0xdfff) = false := by
    simp only [Bool.and_eq_false_iff, decide_eq_false_iff_not]
    omega
  have hhigh : (0xd800 ≤ c.toNat && c.toNat ≤ 0xdbff) = false := by
    simp only [Bool.and_eq_false_iff, decide_eq_false_iff_not]
    omega
  constructor
  · simp only [List.cons_append, List.nil_append, readEscape, hfour]
    show (if (0xdc00 ≤ c.toNat && c.toNat ≤ 0xdfff) = true then _ else _) = _
    rw [hlow, if_neg Bool.false_ne_true, hhigh, if_neg Bool.false_ne_true, Char.ofNat_toNat]
    rfl
  · show (hexFour ('0' :: '0' :: Text.hexDigit (c.toNat / 16) ::
      Text.hexDigit (c.toNat % 16) :: rest)).map Prod.snd = _
    rw [hfour]
    rfl

/-- **A character is printed as it is, or as a backslash and an escape that stands for it.** -/
theorem escaped_cases (c : Char) :
    (escaped c = [c] ∧ c ≠ '"' ∧ c ≠ '\\' ∧ ¬ c.toNat < 32) ∨
      ∃ body, escaped c = '\\' :: body ∧
        ∀ rest, readEscape (body ++ rest) = .ok (c, rest) ∧ skipEscape (body ++ rest) = .ok rest := by
  have hshort : ∀ {x d : Char}, x ≠ 'u' → shortEscape? x = some d →
      ∃ body, ['\\', x] = '\\' :: body ∧ ∀ rest,
        readEscape (body ++ rest) = .ok (d, rest) ∧ skipEscape (body ++ rest) = .ok rest :=
    fun hx hd => ⟨_, rfl, readEscape_of_short hx hd⟩
  unfold escaped
  split
  · rename_i h
    subst h
    exact .inr (hshort (by decide) rfl)
  rename_i hquote
  split
  · rename_i h
    subst h
    exact .inr (hshort (by decide) rfl)
  rename_i hslash
  split
  · rename_i h
    subst h
    exact .inr (hshort (by decide) rfl)
  split
  · rename_i h
    subst h
    exact .inr (hshort (by decide) rfl)
  split
  · rename_i h
    subst h
    exact .inr (hshort (by decide) rfl)
  split
  · rename_i h
    obtain rfl : c = Char.ofNat 8 := Char.toNat_inj.mp h
    exact .inr (hshort (by decide) rfl)
  split
  · rename_i h
    obtain rfl : c = Char.ofNat 12 := Char.toNat_inj.mp h
    exact .inr (hshort (by decide) rfl)
  split
  · -- The other control characters are written by their code point.
    rename_i h
    exact .inr ⟨_, rfl, readEscape_of_control h⟩
  · rename_i h
    exact .inl ⟨rfl, hquote, hslash, h⟩

/-- The reader takes one printed character at a time. -/
theorem readChars_escaped (c : Char) (fuel : Nat) (rest : List Char) :
    readChars (fuel + 1) (escaped c ++ rest) =
      (readChars fuel rest).map fun (ds, stop) => (c :: ds, stop) := by
  rcases escaped_cases c with ⟨hc, hquote, hslash, hcontrol⟩ | ⟨body, hc, hbody⟩
  · rw [hc]
    simp only [List.singleton_append, readChars, if_neg hquote, if_neg hslash, if_neg hcontrol]
    cases readChars fuel rest <;> rfl
  · have hquote : ('\\' : Char) ≠ '"' := by decide
    rw [hc]
    simp only [List.cons_append, readChars, if_neg hquote, if_true, (hbody rest).1]
    show (readChars fuel rest).bind _ = _
    cases readChars fuel rest <;> rfl

/-- So does the one who skips. -/
theorem skipChars_escaped (c : Char) (fuel : Nat) (rest : List Char) :
    skipChars (fuel + 1) (escaped c ++ rest) = skipChars fuel rest := by
  rcases escaped_cases c with ⟨hc, hquote, hslash, hcontrol⟩ | ⟨body, hc, hbody⟩
  · rw [hc]
    simp only [List.singleton_append, skipChars, if_neg hquote, if_neg hslash, if_neg hcontrol]
  · have hquote : ('\\' : Char) ≠ '"' := by decide
    rw [hc]
    simp only [List.cons_append, skipChars, if_neg hquote, if_true, (hbody rest).2]
    rfl

/-- Every character is printed as one at least. -/
theorem length_le_escaped (cs : List Char) : cs.length ≤ (cs.flatMap escaped).length := by
  induction cs with
  | nil => exact Nat.le_refl 0
  | cons c cs ih =>
    have hc : 1 ≤ (escaped c).length := by
      rcases escaped_cases c with ⟨hc, -⟩ | ⟨body, hc, -⟩
      · rw [hc]
        exact Nat.le_refl 1
      · rw [hc, List.length_cons]
        omega
    rw [List.flatMap_cons, List.length_append, List.length_cons]
    omega

theorem readChars_printed (rest : List Char) : ∀ {cs : List Char} {fuel : Nat}, cs.length < fuel →
    readChars fuel (cs.flatMap escaped ++ '"' :: rest) = .ok (cs, rest)
  | [], fuel + 1, _ => rfl
  | c :: cs, fuel + 1, h => by
    rw [List.length_cons] at h
    rw [List.flatMap_cons, List.append_assoc, readChars_escaped,
      readChars_printed rest (Nat.lt_of_succ_lt_succ h)]
    rfl

theorem skipChars_printed (rest : List Char) : ∀ {cs : List Char} {fuel : Nat}, cs.length < fuel →
    skipChars fuel (cs.flatMap escaped ++ '"' :: rest) = .ok rest
  | [], fuel + 1, _ => rfl
  | c :: cs, fuel + 1, h => by
    rw [List.length_cons] at h
    rw [List.flatMap_cons, List.append_assoc, skipChars_escaped,
      skipChars_printed rest (Nat.lt_of_succ_lt_succ h)]

/-- The length of a printed text leaves enough to take it character by character. -/
theorem length_lt_printed (cs rest : List Char) :
    cs.length < (cs.flatMap escaped ++ '"' :: rest).length + 1 := by
  have hle := length_le_escaped cs
  rw [List.length_append]
  omega

/-- **A printed text is read as it was, up to its closing quote.** -/
theorem readText_printed (cs rest : List Char) :
    readText (cs.flatMap escaped ++ '"' :: rest) = .ok (cs, rest) :=
  readChars_printed rest (length_lt_printed cs rest)

/-- **A printed text is skipped up to its closing quote.** -/
theorem skipText_printed (cs rest : List Char) :
    skipText (cs.flatMap escaped ++ '"' :: rest) = .ok rest :=
  skipChars_printed rest (length_lt_printed cs rest)

/-! ## Numbers -/

/-- Nothing follows that could go on with a number. -/
def Stops (rest : List Char) : Prop :=
  ∀ c, rest.head? = some c → c.isDigit = false ∧ c ≠ '.' ∧ c ≠ 'e' ∧ c ≠ 'E'

/-- Nothing follows that could go on with digits. -/
def NoDigit (rest : List Char) : Prop := ∀ c, rest.head? = some c → c.isDigit = false

theorem Stops.noDigit {rest : List Char} (h : Stops rest) : NoDigit rest := fun c hc => (h c hc).1

theorem noDigit_cons {c : Char} (h : c.isDigit = false) (rest : List Char) : NoDigit (c :: rest) := by
  intro d hd
  obtain rfl := Option.some.inj hd
  exact h

/-- Digits are taken up to where others stop. -/
theorem spanDigits_append {digits rest : List Char} (h : digits.all Char.isDigit = true)
    (hrest : NoDigit rest) : spanDigits (digits ++ rest) = (digits, rest) := by
  have hnone : rest.span Char.isDigit = ([], rest) := by
    cases rest with
    | nil => rfl
    | cons c rest =>
      have hc : ¬ c.isDigit = true := by
        rw [hrest c rfl]
        exact Bool.false_ne_true
      rw [List.span_eq_takeWhile_dropWhile, List.takeWhile_cons_of_neg hc,
        List.dropWhile_cons_of_neg hc]
  rw [List.span_eq_takeWhile_dropWhile] at hnone
  rw [spanDigits, List.span_eq_takeWhile_dropWhile,
    List.takeWhile_append_of_pos (List.all_eq_true.mp h),
    List.dropWhile_append_of_pos (List.all_eq_true.mp h), (Prod.mk.inj hnone).1,
    (Prod.mk.inj hnone).2, List.append_nil]

/-- Digits, and at least one. -/
def Digits (cs : List Char) : Prop := cs ≠ [] ∧ cs.all Char.isDigit = true

/-- Digits in front of a number: there are some, and none of them is a needless zero. -/
structure IsLead (digits : List Char) : Prop where
  nonempty : digits ≠ []
  all : digits.all Char.isDigit = true
  first : digits = ['0'] ∨ digits.head? ≠ some '0'

/-- Leading digits are what is written for their number. -/
theorem IsLead.toDigits {digits : List Char} (h : IsLead digits) :
    Nat.toDigits 10 (Nat.ofDigitChars 10 digits 0) = digits :=
  Decimal.toDigits_ofDigitChars h.nonempty h.all h.first

theorem isLead_toDigits (n : Nat) : IsLead (Nat.toDigits 10 n) := by
  refine ⟨Nat.toDigits_ne_nil, Decimal.isDigit_toDigits n, ?_⟩
  rcases Nat.eq_zero_or_pos n with rfl | hpos
  · exact .inl rfl
  · exact .inr (Decimal.head_toDigits hpos)

theorem digits_toDigits (n : Nat) : Digits (Nat.toDigits 10 n) :=
  ⟨Nat.toDigits_ne_nil, Decimal.isDigit_toDigits n⟩

theorem scanExponent_of_stops (atEnd : Fault) {rest : List Char} (h : Stops rest) :
    scanExponent atEnd rest = .ok (none, rest) := by
  cases rest with
  | nil => rfl
  | cons c rest =>
    obtain ⟨-, -, he, hE⟩ := h c rfl
    have hno : (c = 'e' || c = 'E') = false := by
      rw [decide_eq_false he, decide_eq_false hE]
      rfl
    simp only [scanExponent, hno, Bool.false_eq_true, if_false]

/-! ## The parts of a number -/

/-- The fraction and the exponent have digits, and none in front is needless. -/
structure NumberParts.Fits (p : NumberParts) : Prop where
  lead : IsLead p.whole
  fraction : ∀ digits, p.fraction = some digits → Digits digits
  exponent : ∀ upward digits, p.exponent = some (upward, digits) → Digits digits

/-- A fraction behind its point. -/
def fractionText : Option (List Char) → List Char
  | none => []
  | some digits => '.' :: digits

/-- An exponent behind its letter, with its sign. -/
def exponentText : Option (Bool × List Char) → List Char
  | none => []
  | some (upward, digits) => 'e' :: (if upward then '+' else '-') :: digits

/-- What is written for the parts of a number. -/
def NumberParts.print (p : NumberParts) : List Char :=
  p.whole ++ (fractionText p.fraction ++ exponentText p.exponent)

theorem scanWhole_of_lead (atEnd : Fault) {lead rest : List Char} (h : IsLead lead)
    (hrest : NoDigit rest) : scanWhole atEnd (lead ++ rest) = .ok (lead, rest) := by
  rcases h.first with rfl | hfirst
  · have hnone : ([] : List Char).all Char.isDigit = true := rfl
    have hspan : spanDigits rest = ([], rest) := spanDigits_append hnone hrest
    simp only [List.singleton_append, scanWhole, if_true, hspan, List.isEmpty_nil]
  · obtain ⟨c, digits, rfl⟩ := List.exists_cons_of_ne_nil h.nonempty
    obtain ⟨hc, -⟩ := Bool.and_eq_true_iff.mp (List.all_cons ▸ h.all)
    have hzero : c ≠ '0' := fun hc => hfirst (congrArg some hc)
    have hspan := spanDigits_append h.all hrest
    rw [List.cons_append] at hspan ⊢
    simp only [scanWhole, if_neg hzero, hc, if_true, hspan]

theorem scanFraction_print (atEnd : Fault) {fraction : Option (List Char)} {rest : List Char}
    (h : ∀ digits, fraction = some digits → Digits digits)
    (hrest : NoDigit rest) (hpoint : rest.head? ≠ some '.') :
    scanFraction atEnd (fractionText fraction ++ rest) = .ok (fraction, rest) := by
  cases fraction with
  | none =>
    show scanFraction atEnd rest = _
    unfold scanFraction
    split
    · exact absurd rfl hpoint
    · rfl
  | some digits =>
    obtain ⟨hne, hall⟩ := h digits rfl
    have hspan := spanDigits_append hall hrest
    have hempty : digits.isEmpty = false := List.isEmpty_eq_false_iff.mpr hne
    show scanFraction atEnd ('.' :: (digits ++ rest)) = _
    simp only [scanFraction, hspan, hempty, Bool.not_false, if_true]

/-- What may be written for the sign of an exponent, and whether the exponent is not negative. -/
inductive SignText : List Char → Bool → Prop
  | absent : SignText [] true
  | plus : SignText ['+'] true
  | minus : SignText ['-'] false

/-- What may be written for an exponent. -/
inductive ExponentText : List Char → Option (Bool × List Char) → Prop
  | absent : ExponentText [] none
  | present {e : Char} {sign digits : List Char} {upward : Bool} (he : e = 'e' ∨ e = 'E')
      (hsign : SignText sign upward) (hdigits : Digits digits) :
    ExponentText (e :: (sign ++ digits)) (some (upward, digits))

/-- What may be written for a number without its minus sign, and the parts of the number. -/
inductive NumberText : List Char → NumberParts → Prop
  | mk {whole power : List Char} {fraction : Option (List Char)}
      {exponent : Option (Bool × List Char)} (hlead : IsLead whole)
      (hfraction : ∀ digits, fraction = some digits → Digits digits)
      (hexponent : ExponentText power exponent) :
    NumberText (whole ++ (fractionText fraction ++ power)) ⟨whole, fraction, exponent⟩

/-- The parts of a number are written as one. -/
theorem NumberParts.Fits.numberText {p : NumberParts} (h : p.Fits) : NumberText p.print p := by
  refine .mk h.lead h.fraction ?_
  cases hexponent : p.exponent with
  | none => exact .absent
  | some e =>
    obtain ⟨upward, digits⟩ := e
    have hdigits := h.exponent upward digits hexponent
    cases upward with
    | true => exact .present (.inl rfl) .plus hdigits
    | false => exact .present (.inl rfl) .minus hdigits

/-- A number begins with a digit. -/
theorem NumberText.eq_cons {text : List Char} {p : NumberParts} (h : NumberText text p) :
    ∃ c rest, text = c :: rest ∧ c.isDigit = true := by
  cases h with
  | mk hlead _ _ =>
    obtain ⟨c, digits, rfl⟩ := List.exists_cons_of_ne_nil hlead.nonempty
    obtain ⟨hc, -⟩ := Bool.and_eq_true_iff.mp (List.all_cons ▸ hlead.all)
    exact ⟨c, _, rfl, hc⟩

theorem scanSign_of_text {sign digits : List Char} {upward : Bool} (h : SignText sign upward)
    (hdigits : Digits digits) (rest : List Char) :
    scanSign (sign ++ (digits ++ rest)) = (upward, digits ++ rest) := by
  cases h with
  | plus => rfl
  | minus => rfl
  | absent =>
    -- A digit is no sign.
    obtain ⟨c, others, rfl⟩ := List.exists_cons_of_ne_nil hdigits.1
    obtain ⟨hc, -⟩ := Bool.and_eq_true_iff.mp (List.all_cons ▸ hdigits.2)
    show scanSign (c :: (others ++ rest)) = _
    unfold scanSign
    split
    · rename_i heq
      obtain ⟨rfl, -⟩ := List.cons.inj heq
      cases hc
    · rename_i heq
      obtain ⟨rfl, -⟩ := List.cons.inj heq
      cases hc
    · rfl

theorem scanExponent_of_text (atEnd : Fault) {text rest : List Char}
    {exponent : Option (Bool × List Char)} (h : ExponentText text exponent) (hrest : Stops rest) :
    scanExponent atEnd (text ++ rest) = .ok (exponent, rest) := by
  cases h with
  | absent => exact scanExponent_of_stops atEnd hrest
  | @present e sign digits upward he hsign hdigits =>
    have hspan := spanDigits_append hdigits.2 hrest.noDigit
    have hempty : digits.isEmpty = false := List.isEmpty_eq_false_iff.mpr hdigits.1
    have hscan := scanSign_of_text hsign hdigits rest
    have hletter : (e = 'e' || e = 'E') = true := by
      rw [Bool.or_eq_true, decide_eq_true_iff, decide_eq_true_iff]
      exact he
    rw [List.cons_append, List.append_assoc]
    simp only [scanExponent, hletter, hscan, hspan, hempty, if_true, Bool.not_false]

/-- Nothing that begins an exponent, or follows a number, goes on with its digits or its
fraction. -/
theorem ExponentText.ends {text rest : List Char} {exponent : Option (Bool × List Char)}
    (h : ExponentText text exponent) (hrest : Stops rest) :
    NoDigit (text ++ rest) ∧ (text ++ rest).head? ≠ some '.' := by
  cases h with
  | absent => exact ⟨hrest.noDigit, fun hpoint => (hrest '.' hpoint).2.1 rfl⟩
  | present he _ _ =>
    rcases he with rfl | rfl
    · exact ⟨noDigit_cons rfl _, fun hpoint => by cases hpoint⟩
    · exact ⟨noDigit_cons rfl _, fun hpoint => by cases hpoint⟩

/-- **A number that is written is scanned into its parts.** -/
theorem scanNumber_of_text (atEnd : Fault) {text rest : List Char} {p : NumberParts}
    (h : NumberText text p) (hrest : Stops rest) :
    scanNumber atEnd (text ++ rest) = .ok (p, rest) := by
  cases h with
  | @mk whole power fraction exponent hlead hfraction hexponent =>
    obtain ⟨hdigit, hpoint⟩ := hexponent.ends hrest
    have hbehind : NoDigit (fractionText fraction ++ (power ++ rest)) := by
      cases fraction with
      | none => exact hdigit
      | some digits => exact noDigit_cons rfl _
    rw [List.append_assoc, List.append_assoc]
    exact bind_eq_ok.mpr ⟨_, scanWhole_of_lead atEnd hlead hbehind,
      bind_eq_ok.mpr ⟨_, scanFraction_print atEnd hfraction hdigit hpoint,
        bind_eq_ok.mpr ⟨_, scanExponent_of_text atEnd hexponent hrest, rfl⟩⟩⟩

/-! ## What is scanned as a number -/

theorem spanDigits_spec (cs : List Char) :
    cs = (spanDigits cs).1 ++ (spanDigits cs).2 ∧ (spanDigits cs).1.all Char.isDigit = true := by
  rw [spanDigits, List.span_eq_takeWhile_dropWhile]
  exact ⟨List.takeWhile_append_dropWhile.symm, List.all_takeWhile⟩

theorem scanWhole_spec {atEnd : Fault} {cs whole rest : List Char}
    (h : scanWhole atEnd cs = .ok (whole, rest)) : cs = whole ++ rest ∧ IsLead whole := by
  cases cs with
  | nil => cases h
  | cons c cs =>
    unfold scanWhole at h
    by_cases hzero : c = '0'
    · simp only [if_pos hzero] at h
      split at h
      · cases h
        subst hzero
        exact ⟨rfl, List.cons_ne_nil _ _, rfl, .inl rfl⟩
      · cases h
    · simp only [if_neg hzero] at h
      by_cases hdigit : c.isDigit = true
      · rw [if_pos hdigit] at h
        obtain ⟨hcs, hdigits⟩ := spanDigits_spec (c :: cs)
        rw [Except.ok.inj h] at hcs hdigits
        have hspan : spanDigits (c :: cs) = (c :: cs.takeWhile Char.isDigit,
            cs.dropWhile Char.isDigit) := by
          rw [spanDigits, List.span_eq_takeWhile_dropWhile, List.takeWhile_cons_of_pos hdigit,
            List.dropWhile_cons_of_pos hdigit]
        have hwhole : whole = c :: cs.takeWhile Char.isDigit :=
          (Prod.mk.inj ((Except.ok.inj h).symm.trans hspan)).1
        refine ⟨hcs, ?_, hdigits, .inr ?_⟩
        · rw [hwhole]
          exact List.cons_ne_nil _ _
        · rw [hwhole]
          exact fun hhead => hzero (Option.some.inj hhead)
      · rw [if_neg hdigit] at h
        cases h

theorem scanFraction_spec {atEnd : Fault} {cs rest : List Char} {fraction : Option (List Char)}
    (h : scanFraction atEnd cs = .ok (fraction, rest)) :
    cs = fractionText fraction ++ rest ∧ ∀ digits, fraction = some digits → Digits digits := by
  unfold scanFraction at h
  split at h
  · rename_i body
    obtain ⟨hbody, hdigits⟩ := spanDigits_spec body
    by_cases hempty : (spanDigits body).1.isEmpty = true
    · simp only [hempty, Bool.not_true, Bool.false_eq_true, if_false] at h
      split at h
      · cases h
      · cases h
    · have hne : (spanDigits body).1 ≠ [] := fun hnil => hempty (List.isEmpty_iff.mpr hnil)
      simp only [Bool.not_eq_true] at hempty
      simp only [hempty, Bool.not_false, if_true] at h
      obtain ⟨rfl, rfl⟩ := Prod.mk.inj (Except.ok.inj h)
      refine ⟨congrArg _ hbody, ?_⟩
      rintro _ ⟨⟩
      exact ⟨hne, hdigits⟩
  · obtain ⟨rfl, rfl⟩ := Prod.mk.inj (Except.ok.inj h)
    exact ⟨rfl, fun _ hnone => nomatch hnone⟩

theorem scanSign_spec (cs : List Char) :
    ∃ sign, SignText sign (scanSign cs).1 ∧ cs = sign ++ (scanSign cs).2 := by
  unfold scanSign
  split
  · exact ⟨_, .plus, rfl⟩
  · exact ⟨_, .minus, rfl⟩
  · exact ⟨_, .absent, rfl⟩

theorem scanExponent_spec {atEnd : Fault} {cs rest : List Char}
    {exponent : Option (Bool × List Char)} (h : scanExponent atEnd cs = .ok (exponent, rest)) :
    ∃ text, cs = text ++ rest ∧ ExponentText text exponent := by
  cases cs with
  | nil =>
    obtain ⟨rfl, rfl⟩ := Prod.mk.inj (Except.ok.inj h)
    exact ⟨[], rfl, .absent⟩
  | cons e body =>
    unfold scanExponent at h
    by_cases he : (e = 'e' || e = 'E') = true
    · obtain ⟨sign, hsign, hbody⟩ := scanSign_spec body
      obtain ⟨hbehind, hdigits⟩ := spanDigits_spec (scanSign body).2
      simp only [he, if_true] at h
      by_cases hempty : (spanDigits (scanSign body).2).1.isEmpty = true
      · simp only [hempty, Bool.not_true, Bool.false_eq_true, if_false] at h
        split at h
        · cases h
        · cases h
      · have hne : (spanDigits (scanSign body).2).1 ≠ [] := fun hnil =>
          hempty (List.isEmpty_iff.mpr hnil)
        simp only [Bool.not_eq_true] at hempty
        simp only [hempty, Bool.not_false, if_true] at h
        obtain ⟨rfl, rfl⟩ := Prod.mk.inj (Except.ok.inj h)
        rw [Bool.or_eq_true, decide_eq_true_iff, decide_eq_true_iff] at he
        refine ⟨_, ?_, .present he hsign ⟨hne, hdigits⟩⟩
        rw [List.cons_append, List.append_assoc, ← hbehind, ← hbody]
    · simp only [Bool.not_eq_true] at he
      simp only [he, Bool.false_eq_true, if_false] at h
      obtain ⟨rfl, rfl⟩ := Prod.mk.inj (Except.ok.inj h)
      exact ⟨[], rfl, .absent⟩

/-- **What is scanned as a number is written as one.** -/
theorem numberText_of_scanNumber {atEnd : Fault} {cs stop : List Char} {p : NumberParts}
    (h : scanNumber atEnd cs = .ok (p, stop)) : ∃ text, cs = text ++ stop ∧ NumberText text p := by
  obtain ⟨⟨whole, cs₁⟩, hwhole, h⟩ := bind_eq_ok.mp h
  obtain ⟨⟨fraction, cs₂⟩, hfraction, h⟩ := bind_eq_ok.mp h
  obtain ⟨⟨exponent, cs₃⟩, hexponent, h⟩ := bind_eq_ok.mp h
  cases h
  obtain ⟨rfl, hlead⟩ := scanWhole_spec hwhole
  obtain ⟨rfl, hdigits⟩ := scanFraction_spec hfraction
  obtain ⟨power, rfl, hpower⟩ := scanExponent_spec hexponent
  refine ⟨_, ?_, .mk hlead hdigits hpower⟩
  rw [List.append_assoc, List.append_assoc]

/-! ## Their values -/

/-- Further digits make a number no smaller. -/
theorem le_ofDigitChars (digits : List Char) : ∀ n, n ≤ Nat.ofDigitChars 10 digits n := by
  induction digits with
  | nil => exact fun n => Nat.le_refl n
  | cons c digits ih =>
    intro n
    have hrest := ih (10 * n + (c.toNat - '0'.toNat))
    rw [Nat.ofDigitChars_cons]
    omega

/-- Digits whose number is below the bound are all taken. -/
theorem takeDigits_of_lt {bound : Nat} : ∀ {digits : List Char} {n : Nat},
    Nat.ofDigitChars 10 digits n < bound →
      takeDigits bound n digits = (Nat.ofDigitChars 10 digits n, [])
  | [], _, _ => rfl
  | c :: digits, n, h => by
    rw [Nat.ofDigitChars_cons] at h ⊢
    have hnext : 10 * n + digitValue c < bound :=
      Nat.lt_of_le_of_lt (le_ofDigitChars digits _) h
    simp only [takeDigits, if_pos hnext]
    exact takeDigits_of_lt h

/-- The digits of a number of 64 bits are read as that number. -/
theorem number_toDigits {n : Nat} (h : n < 2 ^ 64) (negative : Bool) (stop : List Char) :
    NumberParts.number ⟨Nat.toDigits 10 n, none, none⟩ negative stop =
      .ok (wholeNumber negative n) := by
  have hvalue : Nat.ofDigitChars 10 (Nat.toDigits 10 n) 0 = n := Nat.ofDigitChars_ten_toDigits
  have hlt : Nat.ofDigitChars 10 (Nat.toDigits 10 n) 0 < 2 ^ 64 := hvalue.symm ▸ h
  have htake := takeDigits_of_lt hlt
  rw [hvalue] at htake
  simp only [NumberParts.number, htake]
  rfl

end Lineage.Json
