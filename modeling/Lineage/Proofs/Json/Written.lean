import Lineage.Proofs.Json.Accepting
import Mathlib.Data.List.TakeWhile
/-
  How texts, and objects of texts, are written.

  Printing writes a value in one way; a reader has to take every other one as well.  Between quotes
  a character may stand for itself, or be written by a letter or by its code behind a backslash
  (`Quoted`); in an object blanks may stand around every mark (`EntriesText`).  These say what may
  be written without saying how it is read.

  What is written so is read as what it stands for, and nothing else is read as that: once for
  texts (`scanText_eq_ok_iff`), and for the members of an object by induction, on the derivation in
  the one direction (`membersFrom_of_entriesText`) and on the fuel in the other
  (`entriesText_of_membersFrom`).
-/

namespace Lineage.Json

/-! ## Escapes -/

/-- Four hexadecimal digits and their number. -/
inductive FourDigits : List Char → Nat → Prop
  | mk {a b c d : Char} {i j k l : Nat} (ha : Text.hexValue? a = some i)
      (hb : Text.hexValue? b = some j) (hc : Text.hexValue? c = some k)
      (hd : Text.hexValue? d = some l) : FourDigits [a, b, c, d] (((i * 16 + j) * 16 + k) * 16 + l)

theorem hexFour_eq_ok_iff {cs rest : List Char} {n : Nat} :
    hexFour cs = .ok (n, rest) ↔ ∃ digits, cs = digits ++ rest ∧ FourDigits digits n := by
  constructor
  · intro h
    unfold hexFour at h
    dsimp only at h
    split at h
    · rename_i a b c d after
      split at h
      · rename_i i j k l ha hb hc hd
        obtain ⟨rfl, rfl⟩ := Prod.mk.inj (Except.ok.inj h)
        exact ⟨[a, b, c, d], rfl, .mk ha hb hc hd⟩
      · split at h <;> cases h
    · split at h <;> cases h
  · rintro ⟨_, rfl, ha, hb, hc, hd⟩
    simp only [List.cons_append, List.nil_append, hexFour, ha, hb, hc, hd]

/-- The character of a surrogate pair. -/
def surrogates (high low : Nat) : Char :=
  Char.ofNat ((high - 0xd800) * 0x400 + (low - 0xdc00) + 0x10000)

/-- What may stand behind a backslash, and the character it stands for: a letter, the four digits of
a code, or those of a surrogate pair. -/
inductive Escape : List Char → Char → Prop
  | letter {x c : Char} (h : shortEscape? x = some c) : Escape [x] c
  | code {digits : List Char} {n : Nat} (h : FourDigits digits n) (hn : n < 0xd800 ∨ 0xdfff < n) :
    Escape ('u' :: digits) (Char.ofNat n)
  | pair {first second : List Char} {high low : Nat} (hfirst : FourDigits first high)
      (hsecond : FourDigits second low) (hhigh : 0xd800 ≤ high ∧ high ≤ 0xdbff)
      (hlow : 0xdc00 ≤ low ∧ low ≤ 0xdfff) :
    Escape ('u' :: (first ++ '\\' :: 'u' :: second)) (surrogates high low)

theorem between_iff {low high n : Nat} :
    (low ≤ n && n ≤ high) = true ↔ low ≤ n ∧ n ≤ high := by
  rw [Bool.and_eq_true, decide_eq_true_eq, decide_eq_true_eq]

theorem lowSurrogate_eq_ok_iff {high : Nat} {cs rest : List Char} {c : Char} :
    lowSurrogate high cs = .ok (c, rest) ↔ ∃ second low, cs = '\\' :: 'u' :: (second ++ rest) ∧
      FourDigits second low ∧ (0xdc00 ≤ low ∧ low ≤ 0xdfff) ∧ c = surrogates high low := by
  constructor
  · intro h
    unfold lowSurrogate at h
    split at h
    · cases h
    · cases h
    · rename_i after
      obtain ⟨⟨low, after'⟩, hfour, hrest⟩ := bind_eq_ok.mp h
      dsimp only at hrest
      split at hrest
      · rename_i hlow
        obtain ⟨second, rfl, hsecond⟩ := hexFour_eq_ok_iff.mp hfour
        obtain ⟨rfl, rfl⟩ := Prod.mk.inj (Except.ok.inj hrest)
        exact ⟨second, low, rfl, hsecond, between_iff.mp hlow, rfl⟩
      · cases hrest
    · cases h
    · cases h
  · rintro ⟨second, low, rfl, hsecond, hlow, hc⟩
    have hfour : hexFour (second ++ rest) = .ok (low, rest) :=
      hexFour_eq_ok_iff.mpr ⟨second, rfl, hsecond⟩
    rw [hc]
    simp only [lowSurrogate]
    refine bind_eq_ok.mpr ⟨(low, rest), hfour, ?_⟩
    dsimp only
    rw [if_pos (between_iff.mpr hlow)]
    rfl

/-- What is read as an escape is one. -/
theorem escape_of_readEscape {cs rest : List Char} {c : Char} (h : readEscape cs = .ok (c, rest)) :
    ∃ escape, cs = escape ++ rest ∧ Escape escape c := by
  unfold readEscape at h
  split at h
  · cases h
  · rename_i after
    obtain ⟨⟨unit, behind⟩, hfour, hrest⟩ := bind_eq_ok.mp h
    obtain ⟨digits, rfl, hdigits⟩ := hexFour_eq_ok_iff.mp hfour
    dsimp only at hrest
    split at hrest
    · cases hrest
    · rename_i hlow
      rw [between_iff] at hlow
      split at hrest
      · rename_i hhigh
        obtain ⟨second, low, rfl, hsecond, hrange, hc⟩ := lowSurrogate_eq_ok_iff.mp hrest
        rw [hc]
        exact ⟨_, by simp, .pair hdigits hsecond (between_iff.mp hhigh) hrange⟩
      · rename_i hhigh
        rw [between_iff] at hhigh
        obtain ⟨rfl, rfl⟩ := Prod.mk.inj (Except.ok.inj hrest)
        exact ⟨'u' :: digits, rfl, .code hdigits (by omega)⟩
  · rename_i x after _
    split at h
    · rename_i d hd
      obtain ⟨rfl, rfl⟩ := Prod.mk.inj (Except.ok.inj h)
      exact ⟨[x], rfl, .letter hd⟩
    · cases h

/-- An escape is read as the character it stands for. -/
theorem readEscape_of_escape {escape : List Char} {c : Char} (h : Escape escape c)
    (rest : List Char) : readEscape (escape ++ rest) = .ok (c, rest) := by
  cases h with
  | @letter x c h =>
    have hx : x ≠ 'u' := by
      rintro rfl
      cases h
    exact (readEscape_of_short hx h rest).1
  | @code digits n h hn =>
    have hfour : hexFour (digits ++ rest) = .ok (n, rest) :=
      hexFour_eq_ok_iff.mpr ⟨digits, rfl, h⟩
    have hlow : ¬ (0xdc00 ≤ n && n ≤ 0xdfff) = true := by
      rw [between_iff]
      omega
    have hhigh : ¬ (0xd800 ≤ n && n ≤ 0xdbff) = true := by
      rw [between_iff]
      omega
    simp only [List.cons_append, readEscape]
    refine bind_eq_ok.mpr ⟨(n, rest), hfour, ?_⟩
    dsimp only
    rw [if_neg hlow, if_neg hhigh]
    rfl
  | @pair first second high low hfirst hsecond hhigh hlow =>
    have hfour : hexFour (first ++ '\\' :: 'u' :: (second ++ rest)) =
        .ok (high, '\\' :: 'u' :: (second ++ rest)) := hexFour_eq_ok_iff.mpr ⟨first, rfl, hfirst⟩
    have hnot : ¬ (0xdc00 ≤ high && high ≤ 0xdfff) = true := by
      rw [between_iff]
      omega
    simp only [List.cons_append, List.append_assoc, readEscape]
    refine bind_eq_ok.mpr ⟨_, hfour, ?_⟩
    dsimp only
    rw [if_neg hnot, if_pos (between_iff.mpr hhigh)]
    exact lowSurrogate_eq_ok_iff.mpr ⟨second, low, rfl, hsecond, hlow, rfl⟩

/-! ## Texts -/

/-- What may stand between quotes, and the characters it stands for. -/
inductive Quoted : List Char → List Char → Prop
  | nil : Quoted [] []
  | plain {c : Char} {body cs : List Char} (hquote : c ≠ '"') (hslash : c ≠ '\\')
      (hcontrol : ¬ c.toNat < 32) (h : Quoted body cs) : Quoted (c :: body) (c :: cs)
  | escape {escape : List Char} {c : Char} {body cs : List Char} (hescape : Escape escape c)
      (h : Quoted body cs) : Quoted ('\\' :: (escape ++ body)) (c :: cs)

/-- Every character takes one place at least. -/
theorem Quoted.length_le {body cs : List Char} (h : Quoted body cs) : cs.length ≤ body.length := by
  induction h with
  | nil => exact Nat.le_refl 0
  | plain _ _ _ _ ih =>
    rw [List.length_cons, List.length_cons]
    omega
  | escape _ _ ih =>
    rw [List.length_cons, List.length_cons, List.length_append]
    omega

theorem quoted_of_readChars : ∀ {fuel : Nat} {cs ds stop : List Char},
    readChars fuel cs = .ok (ds, stop) → ∃ body, cs = body ++ '"' :: stop ∧ Quoted body ds
  | 0, _, _, _, h => by cases h
  | fuel + 1, [], _, _, h => by cases h
  | fuel + 1, c :: cs, ds, stop, h => by
    simp only [readChars] at h
    split_ifs at h with hquote hslash hcontrol
    · obtain ⟨rfl, rfl⟩ := Prod.mk.inj (Except.ok.inj h)
      exact ⟨[], by rw [hquote]; rfl, .nil⟩
    · obtain ⟨⟨d, rest⟩, hread, hrest⟩ := bind_eq_ok.mp h
      obtain ⟨⟨others, stop'⟩, hothers, hend⟩ := bind_eq_ok.mp hrest
      obtain ⟨rfl, rfl⟩ := Prod.mk.inj (Except.ok.inj hend)
      obtain ⟨escape, rfl, hescape⟩ := escape_of_readEscape hread
      obtain ⟨body, rfl, hbody⟩ := quoted_of_readChars hothers
      refine ⟨'\\' :: (escape ++ body), ?_, .escape hescape hbody⟩
      rw [hslash, List.cons_append, List.append_assoc]
    · obtain ⟨⟨others, stop'⟩, hothers, hend⟩ := bind_eq_ok.mp h
      obtain ⟨rfl, rfl⟩ := Prod.mk.inj (Except.ok.inj hend)
      obtain ⟨body, rfl, hbody⟩ := quoted_of_readChars hothers
      exact ⟨c :: body, rfl, .plain hquote hslash hcontrol hbody⟩

theorem readChars_of_quoted {body ds : List Char} (h : Quoted body ds) (stop : List Char) :
    ∀ {fuel : Nat}, ds.length < fuel → readChars fuel (body ++ '"' :: stop) = .ok (ds, stop) := by
  induction h with
  | nil =>
    intro fuel hfuel
    obtain ⟨fuel, rfl⟩ := Nat.exists_eq_succ_of_ne_zero (Nat.ne_of_gt hfuel)
    rfl
  | @plain c body cs hquote hslash hcontrol _ ih =>
    intro fuel hfuel
    obtain ⟨fuel, rfl⟩ := Nat.exists_eq_succ_of_ne_zero (Nat.ne_of_gt (Nat.zero_lt_of_lt hfuel))
    have hrest := ih (Nat.lt_of_succ_lt_succ hfuel)
    simp only [List.cons_append, readChars, if_neg hquote, if_neg hslash, if_neg hcontrol]
    exact bind_eq_ok.mpr ⟨_, hrest, rfl⟩
  | @escape escape c body cs hescape _ ih =>
    intro fuel hfuel
    obtain ⟨fuel, rfl⟩ := Nat.exists_eq_succ_of_ne_zero (Nat.ne_of_gt (Nat.zero_lt_of_lt hfuel))
    have hquote : ('\\' : Char) ≠ '"' := by decide
    have hread := readEscape_of_escape hescape (body ++ '"' :: stop)
    have hrest := ih (Nat.lt_of_succ_lt_succ hfuel)
    simp only [List.cons_append, List.append_assoc, readChars, if_neg hquote, if_true]
    exact bind_eq_ok.mpr ⟨_, hread, bind_eq_ok.mpr ⟨_, hrest, rfl⟩⟩

/-- What may stand between quotes, whatever it stands for: a code can be half of a surrogate pair,
and then it stands for nothing. -/
inductive TextBody : List Char → Prop
  | nil : TextBody []
  | plain {c : Char} {body : List Char} (hquote : c ≠ '"') (hslash : c ≠ '\\')
      (hcontrol : ¬ c.toNat < 32) (h : TextBody body) : TextBody (c :: body)
  | letter {x c : Char} {body : List Char} (hx : shortEscape? x = some c) (h : TextBody body) :
    TextBody ('\\' :: x :: body)
  | code {digits body : List Char} {n : Nat} (hdigits : FourDigits digits n) (h : TextBody body) :
    TextBody ('\\' :: 'u' :: (digits ++ body))

/-- What stands for characters may stand between quotes. -/
theorem Quoted.textBody {body cs : List Char} (h : Quoted body cs) : TextBody body := by
  induction h with
  | nil => exact .nil
  | plain hquote hslash hcontrol _ ih => exact .plain hquote hslash hcontrol ih
  | escape hescape _ ih =>
    cases hescape with
    | letter hx => exact .letter hx ih
    | code hdigits _ => exact .code hdigits ih
    | pair hfirst hsecond _ _ =>
      rw [List.cons_append, List.append_assoc]
      exact .code hfirst (.code hsecond ih)

/-- One who skips takes a code by itself, also where it is the first half of a pair. -/
theorem skipChars_code {digits : List Char} {n : Nat} (h : FourDigits digits n) (fuel : Nat)
    (rest : List Char) :
    skipChars (fuel + 1) ('\\' :: 'u' :: (digits ++ rest)) = skipChars fuel rest := by
  have hquote : ('\\' : Char) ≠ '"' := by decide
  have hfour : hexFour (digits ++ rest) = .ok (n, rest) := hexFour_eq_ok_iff.mpr ⟨digits, rfl, h⟩
  simp only [skipChars, if_neg hquote, if_true, skipEscape, hfour]
  rfl

theorem skipChars_of_textBody {body : List Char} (h : TextBody body) (stop : List Char) :
    ∀ {fuel : Nat}, body.length < fuel → skipChars fuel (body ++ '"' :: stop) = .ok stop := by
  induction h with
  | nil =>
    intro fuel hfuel
    obtain ⟨fuel, rfl⟩ := Nat.exists_eq_succ_of_ne_zero (Nat.ne_of_gt hfuel)
    rfl
  | @plain c body hquote hslash hcontrol _ ih =>
    intro fuel hfuel
    obtain ⟨fuel, rfl⟩ := Nat.exists_eq_succ_of_ne_zero (Nat.ne_of_gt (Nat.zero_lt_of_lt hfuel))
    simp only [List.cons_append, skipChars, if_neg hquote, if_neg hslash, if_neg hcontrol]
    exact ih (Nat.lt_of_succ_lt_succ hfuel)
  | @letter x c body hx _ ih =>
    intro fuel hfuel
    obtain ⟨fuel, rfl⟩ := Nat.exists_eq_succ_of_ne_zero (Nat.ne_of_gt (Nat.zero_lt_of_lt hfuel))
    rw [List.length_cons, List.length_cons] at hfuel
    have hquote : ('\\' : Char) ≠ '"' := by decide
    have hne : x ≠ 'u' := by
      rintro rfl
      cases hx
    have hskip : skipEscape (x :: (body ++ '"' :: stop)) = .ok (body ++ '"' :: stop) :=
      (readEscape_of_short hne hx (body ++ '"' :: stop)).2
    simp only [List.cons_append, skipChars, if_neg hquote, if_true, hskip]
    exact ih (by omega)
  | @code digits body n hdigits _ ih =>
    intro fuel hfuel
    obtain ⟨fuel, rfl⟩ := Nat.exists_eq_succ_of_ne_zero (Nat.ne_of_gt (Nat.zero_lt_of_lt hfuel))
    rw [List.length_cons, List.length_cons, List.length_append] at hfuel
    rw [List.cons_append, List.cons_append, List.append_assoc, skipChars_code hdigits]
    exact ih (by omega)

theorem textBody_of_skipEscape {cs rest : List Char} (h : skipEscape cs = .ok rest) :
    ∃ escape, cs = escape ++ rest ∧ ∀ {body}, TextBody body → TextBody ('\\' :: (escape ++ body)) := by
  unfold skipEscape at h
  split at h
  · cases h
  · rename_i after
    obtain ⟨⟨n, behind⟩, hfour, rfl⟩ := map_eq_ok.mp h
    obtain ⟨digits, rfl, hdigits⟩ := hexFour_eq_ok_iff.mp hfour
    exact ⟨'u' :: digits, rfl, .code hdigits⟩
  · rename_i x after _
    split at h
    · rename_i c hx
      obtain rfl := Except.ok.inj h
      exact ⟨[x], rfl, .letter hx⟩
    · cases h

theorem textBody_of_skipChars : ∀ {fuel : Nat} {cs stop : List Char},
    skipChars fuel cs = .ok stop → ∃ body, cs = body ++ '"' :: stop ∧ TextBody body
  | 0, _, _, h => by cases h
  | fuel + 1, [], _, h => by cases h
  | fuel + 1, c :: cs, stop, h => by
    simp only [skipChars] at h
    split_ifs at h with hquote hslash hcontrol
    · obtain rfl := Except.ok.inj h
      exact ⟨[], by rw [hquote]; rfl, .nil⟩
    · obtain ⟨rest, hescape, hrest⟩ := bind_eq_ok.mp h
      obtain ⟨escape, rfl, hbehind⟩ := textBody_of_skipEscape hescape
      obtain ⟨body, rfl, hbody⟩ := textBody_of_skipChars hrest
      refine ⟨'\\' :: (escape ++ body), ?_, hbehind hbody⟩
      rw [hslash, List.cons_append, List.append_assoc]
    · obtain ⟨body, rfl, hbody⟩ := textBody_of_skipChars h
      exact ⟨c :: body, rfl, .plain hquote hslash hcontrol hbody⟩

/-- A text is skipped from behind its opening quote up to its closing one. -/
theorem skipText_eq_ok_iff {cs stop : List Char} :
    skipText cs = .ok stop ↔ ∃ body, cs = body ++ '"' :: stop ∧ TextBody body := by
  constructor
  · exact textBody_of_skipChars
  · rintro ⟨body, rfl, hbody⟩
    have hlength : (body ++ '"' :: stop).length = body.length + (stop.length + 1) :=
      List.length_append
    exact skipChars_of_textBody hbody stop (by omega)

/-- **A text is read from behind its opening quote as what it stands for, and only then.** -/
theorem scanText_eq_ok_iff {cs stop : List Char} {s : String} :
    Doc.scanText cs = .ok (.ok s, stop) ↔
      ∃ body, cs = body ++ '"' :: stop ∧ Quoted body s.toList := by
  -- Where a text is read, it is skipped to the same place.
  have hboth : ∀ {body ds : List Char}, Quoted body ds → ∀ stop,
      readText (body ++ '"' :: stop) = .ok (ds, stop) ∧
        skipText (body ++ '"' :: stop) = .ok stop := by
    intro body ds h stop
    have hle := h.length_le
    have hlength : (body ++ '"' :: stop).length = body.length + (stop.length + 1) :=
      List.length_append
    exact ⟨readChars_of_quoted h stop (by omega), skipText_eq_ok_iff.mpr ⟨body, rfl, h.textBody⟩⟩
  constructor
  · intro h
    unfold Doc.scanText at h
    split at h
    · rename_i stop' hskip
      obtain ⟨hread, rfl⟩ := Prod.mk.inj (Except.ok.inj h)
      obtain ⟨⟨ds, behind⟩, hchars, rfl⟩ := map_eq_ok.mp hread
      obtain ⟨body, rfl, hbody⟩ := quoted_of_readChars hchars
      rw [(hboth hbody behind).2] at hskip
      obtain rfl := Except.ok.inj hskip
      exact ⟨body, rfl, by rwa [String.toList_ofList]⟩
    · split at h <;> cases h
  · rintro ⟨body, rfl, hbody⟩
    obtain ⟨hread, hskip⟩ := hboth hbody stop
    simp only [Doc.scanText, hread, hskip, Except.map, String.ofList_toList]

/-! ## Blanks -/

/-- There are only blanks. -/
def Blank (cs : List Char) : Prop := cs.all isBlank = true

theorem skipBlank_append {blanks : List Char} (h : Blank blanks) (cs : List Char) :
    skipBlank (blanks ++ cs) = skipBlank cs :=
  List.dropWhile_append_of_pos (List.all_eq_true.mp h)

/-- What is skipped are blanks. -/
theorem exists_blank (cs : List Char) : ∃ blanks, Blank blanks ∧ cs = blanks ++ skipBlank cs := by
  exact ⟨cs.takeWhile isBlank, List.all_takeWhile, List.takeWhile_append_dropWhile.symm⟩

/-- Behind the blanks stands what they are followed by. -/
theorem skipBlank_eq_cons_iff {cs rest : List Char} {c : Char} (hc : isBlank c = false) :
    skipBlank cs = c :: rest ↔ ∃ blanks, Blank blanks ∧ cs = blanks ++ c :: rest := by
  constructor
  · intro h
    obtain ⟨blanks, hblanks, hcs⟩ := exists_blank cs
    exact ⟨blanks, hblanks, h ▸ hcs⟩
  · rintro ⟨blanks, hblanks, rfl⟩
    rw [skipBlank_append hblanks, skipBlank_cons hc]

theorem isEmpty_skipBlank_iff {cs : List Char} : (skipBlank cs).isEmpty = true ↔ Blank cs := by
  rw [List.isEmpty_iff, skipBlank, List.dropWhile_eq_nil_iff, Blank, List.all_eq_true]

/-! ## What a part is -/

section Kinds

variable {first rest word : List Char} {doc : Doc}

theorem Doc.ofWord_cases {complete : List Char → Doc} (h : ofWord first word rest complete = doc) :
    (∃ stop, doc = complete stop) ∨ ∃ t, doc = .broken first t t := by
  unfold ofWord at h
  split at h
  · exact .inl ⟨_, h.symm⟩
  · exact .inr ⟨_, h.symm⟩

theorem Doc.ofNumber_cases {negative : Bool} (h : ofNumber first negative rest = doc) :
    (∃ n stop, doc = .number first n stop) ∨ ∃ r t, doc = .broken first r t := by
  unfold ofNumber at h
  split at h
  · exact .inl ⟨_, _, h.symm⟩
  · split at h
    · exact .inr ⟨_, _, h.symm⟩
    · exact .inr ⟨_, _, h.symm⟩

theorem Doc.ofText_cases (h : ofText first rest = doc) :
    (∃ s stop, scanText rest = .ok (s, stop) ∧ doc = .text first s stop) ∨
      ∃ r t, doc = .broken first r t := by
  unfold ofText at h
  split at h
  · rename_i s stop hscan
    exact .inl ⟨s, stop, hscan, h.symm⟩
  · exact .inr ⟨_, _, h.symm⟩

end Kinds

/-- What is made out as a text is written as one. -/
theorem Doc.quoted_of_value {fuel : Nat} {cs start stop : List Char} {s : String}
    (h : value fuel cs = .text start (.ok s) stop) :
    ∃ blanks body, Blank blanks ∧ cs = blanks ++ '"' :: (body ++ '"' :: stop) ∧
      Quoted body s.toList := by
  cases fuel with
  | zero => cases h
  | succ fuel =>
    unfold value at h
    split at h
    · cases h
    · rename_i c rest hskip
      split_ifs at h with _ _ _ _ _ hquote
      · rcases ofWord_cases h with ⟨_, h⟩ | ⟨_, h⟩ <;> cases h
      · rcases ofWord_cases h with ⟨_, h⟩ | ⟨_, h⟩ <;> cases h
      · rcases ofWord_cases h with ⟨_, h⟩ | ⟨_, h⟩ <;> cases h
      · rcases ofNumber_cases h with ⟨_, _, h⟩ | ⟨_, _, h⟩ <;> cases h
      · rcases ofNumber_cases h with ⟨_, _, h⟩ | ⟨_, _, h⟩ <;> cases h
      · rcases ofText_cases h with ⟨_, _, hscan, h⟩ | ⟨_, _, h⟩
        · cases h
          obtain ⟨body, rfl, hbody⟩ := scanText_eq_ok_iff.mp hscan
          rw [hquote] at hskip
          have hblank : isBlank '"' = false := by decide
          obtain ⟨blanks, hblanks, hcs⟩ := (skipBlank_eq_cons_iff hblank).mp hskip
          exact ⟨blanks, body, hblanks, hcs, hbody⟩
        · cases h
      · cases h

/-- What is made out as an object stands behind a bracket. -/
theorem Doc.members_of_value {fuel : Nat} {cs start : List Char} {docs : List (Key × Doc)}
    {ending : Ending} (h : value fuel cs = .object start docs ending) :
    ∃ less blanks rest, Blank blanks ∧ cs = blanks ++ '\x7b' :: rest ∧
      membersFrom less true rest = (docs, ending) := by
  cases fuel with
  | zero => cases h
  | succ fuel =>
    unfold value at h
    split at h
    · cases h
    · rename_i c rest hskip
      split_ifs at h with _ _ _ _ _ _ _ hbracket
      · rcases ofWord_cases h with ⟨_, h⟩ | ⟨_, h⟩ <;> cases h
      · rcases ofWord_cases h with ⟨_, h⟩ | ⟨_, h⟩ <;> cases h
      · rcases ofWord_cases h with ⟨_, h⟩ | ⟨_, h⟩ <;> cases h
      · rcases ofNumber_cases h with ⟨_, _, h⟩ | ⟨_, _, h⟩ <;> cases h
      · rcases ofNumber_cases h with ⟨_, _, h⟩ | ⟨_, _, h⟩ <;> cases h
      · rcases ofText_cases h with ⟨_, _, _, h⟩ | ⟨_, _, h⟩ <;> cases h
      · cases h
        rw [hbracket] at hskip
        have hblank : isBlank '\x7b' = false := by decide
        obtain ⟨blanks, hblanks, hcs⟩ := (skipBlank_eq_cons_iff hblank).mp hskip
        exact ⟨fuel, blanks, rest, hblanks, hcs, rfl⟩
      · cases h

/-- What is written as a text is made out as one. -/
theorem Doc.value_of_quoted {blanks body : List Char} {s : String} (hblanks : Blank blanks)
    (h : Quoted body s.toList) (fuel : Nat) (stop : List Char) :
    ∃ start, value (fuel + 1) (blanks ++ '"' :: (body ++ '"' :: stop)) = .text start (.ok s) stop := by
  have hquote : isBlank '"' = false := by decide
  have hskip : skipBlank (blanks ++ '"' :: (body ++ '"' :: stop)) = '"' :: (body ++ '"' :: stop) :=
    (skipBlank_eq_cons_iff hquote).mpr ⟨blanks, hblanks, rfl⟩
  have hscan : scanText (body ++ '"' :: stop) = .ok (.ok s, stop) :=
    scanText_eq_ok_iff.mpr ⟨body, rfl, h⟩
  refine ⟨'"' :: (body ++ '"' :: stop), ?_⟩
  simp only [value, hskip, Char.reduceEq, Char.reduceIsDigit, Bool.false_eq_true, if_false, if_true,
    ofText, hscan]

/-! ## Members -/

/-- A member whose value is a text. -/
inductive MemberText : List Char → String × String → Prop
  | mk {name gap behind body : List Char} {key value : String} (hname : Quoted name key.toList)
      (hgap : Blank gap) (hbehind : Blank behind) (hbody : Quoted body value.toList) :
    MemberText ('"' :: (name ++ '"' :: (gap ++ ':' :: (behind ++ '"' :: (body ++ ['"'])))))
      (key, value)

/-- What stands in front of a member: blanks, and a comma among them if it is not the first one. -/
def Parting : Bool → List Char → Prop
  | true, cs => Blank cs
  | false, cs => ∃ before behind, Blank before ∧ Blank behind ∧ cs = before ++ ',' :: behind

/-- The members of an object, all texts, from the first one on or behind others. -/
inductive EntriesText : Bool → List Char → List (String × String) → Prop
  | done {first : Bool} {blanks : List Char} (h : Blank blanks) : EntriesText first blanks []
  | member {first : Bool} {parting member more : List Char} {e : String × String}
      {es : List (String × String)} (hparting : Parting first parting)
      (hmember : MemberText member e) (h : EntriesText false more es) :
    EntriesText first (parting ++ (member ++ more)) (e :: es)

theorem nextMember_eq_part_iff {first : Bool} {cs rest : List Char} :
    Doc.nextMember first cs = .part rest ↔
      ∃ parting, Parting first parting ∧ cs = parting ++ '"' :: rest := by
  have hquote : isBlank '"' = false := by decide
  have hcomma : isBlank ',' = false := by decide
  constructor
  · intro h
    unfold Doc.nextMember at h
    split at h
    · cases h
    · rename_i c after hskip
      split_ifs at h with _ hfirst hc hc
      · cases h
        obtain ⟨blanks, hblanks, hcs⟩ := (skipBlank_eq_cons_iff hquote).mp (hc ▸ hskip)
        exact ⟨blanks, by rw [hfirst]; exact hblanks, hcs⟩
      · split at h
        · cases h
        · rename_i d behind hbehind
          split_ifs at h with hd
          cases h
          obtain ⟨before, hbefore, hcs⟩ := (skipBlank_eq_cons_iff hcomma).mp (hc ▸ hskip)
          obtain ⟨blanks, hblanks, hafter⟩ := (skipBlank_eq_cons_iff hquote).mp (hd ▸ hbehind)
          rw [Bool.not_eq_true] at hfirst
          refine ⟨before ++ ',' :: blanks, ?_, ?_⟩
          · rw [hfirst]
            exact ⟨before, blanks, hbefore, hblanks, rfl⟩
          · rw [hcs, hafter, List.append_assoc, List.cons_append]
  · rintro ⟨parting, hparting, rfl⟩
    cases first with
    | true =>
      have hskip : skipBlank (parting ++ '"' :: rest) = '"' :: rest :=
        (skipBlank_eq_cons_iff hquote).mpr ⟨parting, hparting, rfl⟩
      simp only [Doc.nextMember, hskip, Char.reduceEq, if_false, if_true]
    | false =>
      obtain ⟨before, behind, hbefore, hbehind, rfl⟩ := hparting
      have hskip : skipBlank (before ++ ',' :: behind ++ '"' :: rest) =
          ',' :: (behind ++ '"' :: rest) :=
        (skipBlank_eq_cons_iff hcomma).mpr ⟨before, hbefore, List.append_assoc ..⟩
      have hskip' : skipBlank (behind ++ '"' :: rest) = '"' :: rest :=
        (skipBlank_eq_cons_iff hquote).mpr ⟨behind, hbehind, rfl⟩
      simp only [Doc.nextMember, hskip, hskip', Char.reduceEq, Bool.false_eq_true, if_false,
        if_true]

theorem nextMember_eq_closed_iff {first : Bool} {cs stop : List Char} :
    Doc.nextMember first cs = .finish (.closed stop) ↔
      ∃ blanks, Blank blanks ∧ cs = blanks ++ '\x7d' :: stop := by
  have hbracket : isBlank '\x7d' = false := by decide
  rw [← skipBlank_eq_cons_iff hbracket]
  constructor
  · intro h
    unfold Doc.nextMember at h
    split at h
    · cases h
    · rename_i c after hskip
      split_ifs at h with hc
      · cases h
        exact hc ▸ hskip
      · cases h
      · split at h
        · cases h
        · split_ifs at h <;> cases h
      · cases h
  · intro h
    simp only [Doc.nextMember, h, if_true]

/-- A document of a text is one, and says the same. -/
theorem Doc.Spells.eq_text {doc : Doc} {s : String} (h : doc.Spells (.text s)) :
    ∃ start stop, doc = .text start (.ok s) stop := by
  cases h with
  | text start stop _ => exact ⟨start, stop, rfl⟩

/-- A document of an object is one, and ends in its bracket. -/
theorem Doc.Spells.eq_object {doc : Doc} {js : List (String × Json)} (h : doc.Spells (.object js)) :
    ∃ start docs stop, doc = .object start docs (.closed stop) ∧ MembersSpell docs js := by
  cases h with
  | object start stop hdocs => exact ⟨start, _, stop, rfl, hdocs⟩

section Steps

variable {fuel : Nat} {first : Bool} {cs inside behindName value stop behind : List Char}
  {name : Except Trouble String} {docs : List (Key × Doc)}

/-- A member is made out with its value, and then those behind it. -/
theorem membersFrom_member (hnext : Doc.nextMember first cs = .part inside)
    (hscan : Doc.scanText inside = .ok (name, behindName))
    (hskip : skipBlank behindName = ':' :: value)
    (hout : (Doc.value fuel value).outcome = .ok behind)
    (hmore : Doc.membersFrom fuel false behind = (docs, .closed stop)) :
    Doc.membersFrom (fuel + 1) first cs =
      ((⟨name, ':' :: value⟩, Doc.value fuel value) :: docs, .closed stop) := by
  rw [Doc.membersFrom]
  simp only [hnext, hscan, hskip, if_true, hout, hmore]

/-- Where the members end in a bracket, there is none or the first one is made out so. -/
theorem membersFrom_eq_closed (h : Doc.membersFrom (fuel + 1) first cs = (docs, .closed stop)) :
    (docs = [] ∧ Doc.nextMember first cs = .finish (.closed stop)) ∨
      ∃ inside name behindName value behind more, Doc.nextMember first cs = .part inside ∧
        Doc.scanText inside = .ok (name, behindName) ∧ skipBlank behindName = ':' :: value ∧
        (Doc.value fuel value).outcome = .ok behind ∧
        Doc.membersFrom fuel false behind = (more, .closed stop) ∧
        docs = (⟨name, ':' :: value⟩, Doc.value fuel value) :: more := by
  rw [Doc.membersFrom] at h
  cases hnext : Doc.nextMember first cs with
  | finish ending =>
    simp only [hnext, Prod.mk.injEq] at h
    exact .inl ⟨h.1.symm, congrArg Doc.Next.finish h.2⟩
  | part inside =>
    cases hscan : Doc.scanText inside with
    | error t =>
      simp only [hnext, hscan] at h
      cases h
    | ok scanned =>
      obtain ⟨name, behindName⟩ := scanned
      cases hskip : skipBlank behindName with
      | nil =>
        simp only [hnext, hscan, hskip] at h
        cases h
      | cons c value =>
        by_cases hc : c = ':'
        · subst hc
          cases hout : (Doc.value fuel value).outcome with
          | error t =>
            simp only [hnext, hscan, hskip, if_true, hout] at h
            cases h
          | ok behind =>
            simp only [hnext, hscan, hskip, if_true, hout, Prod.mk.injEq] at h
            exact .inr ⟨inside, name, behindName, value, behind, _, rfl, hscan, hskip, hout,
              Prod.ext rfl h.2, h.1.symm⟩
        · simp only [hnext, hscan, hskip, if_neg hc] at h
          cases h

end Steps

/-- **Written members are made out as they stand for.** -/
theorem membersFrom_of_entriesText {first : Bool} {text : List Char} {es : List (String × String)}
    (h : EntriesText first text es) (stop : List Char) :
    ∀ {fuel : Nat}, text.length < fuel →
      ∃ docs, Doc.membersFrom fuel first (text ++ '\x7d' :: stop) = (docs, .closed stop) ∧
        MembersSpell docs (texts es) := by
  induction h with
  | @done first blanks hblanks =>
    intro fuel hfuel
    obtain ⟨fuel, rfl⟩ := Nat.exists_eq_succ_of_ne_zero (Nat.ne_of_gt (Nat.zero_lt_of_lt hfuel))
    have hnext : Doc.nextMember first (blanks ++ '\x7d' :: stop) = .finish (.closed stop) :=
      nextMember_eq_closed_iff.mpr ⟨blanks, hblanks, rfl⟩
    refine ⟨[], ?_, .nil⟩
    simp only [Doc.membersFrom, hnext]
  | @member first parting member more e es hparting hmember _ ih =>
    intro fuel hfuel
    obtain ⟨fuel, rfl⟩ := Nat.exists_eq_succ_of_ne_zero (Nat.ne_of_gt (Nat.zero_lt_of_lt hfuel))
    cases hmember with
    | @mk name gap behind body key value hname hgap hbehind hbody =>
      simp only [List.length_append, List.length_cons] at hfuel
      obtain ⟨less, rfl⟩ : ∃ less, fuel = less + 1 := ⟨fuel - 1, by omega⟩
      obtain ⟨docs, hdocs, hspell⟩ := ih (show _ < less + 1 by omega)
      -- The rest of the text, from behind the value on, from the name on, and so forth.
      let behindValue := more ++ '\x7d' :: stop
      let behindName := gap ++ ':' :: (behind ++ '"' :: (body ++ '"' :: behindValue))
      have htext : parting ++ ('"' :: (name ++ '"' :: (gap ++ ':' :: (behind ++ '"' ::
          (body ++ ['"'])))) ++ more) ++ '\x7d' :: stop =
          parting ++ '"' :: (name ++ '"' :: behindName) := by
        simp only [behindName, behindValue, List.append_assoc, List.cons_append, List.nil_append]
      have hnext : Doc.nextMember first (parting ++ '"' :: (name ++ '"' :: behindName)) =
          .part (name ++ '"' :: behindName) := nextMember_eq_part_iff.mpr ⟨parting, hparting, rfl⟩
      have hscan : Doc.scanText (name ++ '"' :: behindName) = .ok (.ok key, behindName) :=
        scanText_eq_ok_iff.mpr ⟨name, rfl, hname⟩
      have hcolon : isBlank ':' = false := by decide
      have hskip : skipBlank behindName = ':' :: (behind ++ '"' :: (body ++ '"' :: behindValue)) :=
        (skipBlank_eq_cons_iff hcolon).mpr ⟨gap, hgap, rfl⟩
      obtain ⟨start, hvalue⟩ := Doc.value_of_quoted hbehind hbody less behindValue
      have hspells : (Doc.value (less + 1) (behind ++ '"' :: (body ++ '"' :: behindValue))).Spells
          (.text value) := hvalue ▸ .text start behindValue value
      have hout : (Doc.value (less + 1) (behind ++ '"' :: (body ++ '"' :: behindValue))).outcome =
          .ok behindValue := hvalue ▸ rfl
      have hmembers := membersFrom_member hnext hscan hskip hout hdocs
      rw [← htext] at hmembers
      exact ⟨_, hmembers, .cons key _ hspells hspell⟩

/-- **Nothing else is made out as members that are texts.** -/
theorem entriesText_of_membersFrom : ∀ {fuel : Nat} {first : Bool} {cs stop : List Char}
    {docs : List (Key × Doc)} {es : List (String × String)},
    Doc.membersFrom fuel first cs = (docs, .closed stop) → MembersSpell docs (texts es) →
    ∃ text, cs = text ++ '\x7d' :: stop ∧ EntriesText first text es
  | 0, _, _, _, _, _, h, _ => by cases h
  | fuel + 1, first, cs, stop, docs, es, h, hspell => by
    rcases membersFrom_eq_closed h with ⟨rfl, hnext⟩ |
      ⟨inside, name, behindName, after, behind, more, hnext, hscan, hskip, hout, hmore, rfl⟩
    · obtain ⟨blanks, hblanks, rfl⟩ := nextMember_eq_closed_iff.mp hnext
      cases es with
      | nil => exact ⟨blanks, rfl, .done hblanks⟩
      | cons e es => cases hspell
    · cases es with
      | nil => cases hspell
      | cons e es =>
        obtain ⟨key, value⟩ := e
        cases hspell with
        | cons _ _ hdoc hrest =>
          obtain ⟨start, stop', hvalue⟩ := hdoc.eq_text
          rw [hvalue] at hout
          obtain rfl := Except.ok.inj hout
          obtain ⟨text, rfl, hmembers⟩ := entriesText_of_membersFrom hmore hrest
          obtain ⟨parting, hparting, rfl⟩ := nextMember_eq_part_iff.mp hnext
          obtain ⟨written, rfl, hname⟩ := scanText_eq_ok_iff.mp hscan
          have hcolon : isBlank ':' = false := by decide
          obtain ⟨gap, hgap, rfl⟩ := (skipBlank_eq_cons_iff hcolon).mp hskip
          obtain ⟨blanks, body, hblanks, rfl, hbody⟩ := Doc.quoted_of_value hvalue
          refine ⟨_, ?_, .member hparting (.mk hname hgap hblanks hbody) hmembers⟩
          simp only [List.append_assoc, List.cons_append, List.nil_append]

/-! ## Whole texts -/

/-- A text is parsed as a value if its document is one of that value, no deeper than a reader goes,
and nothing but blanks stands behind it. -/
theorem parse_eq_ok_iff {text : String} {j : Json} :
    parse text = .ok j ↔ (Doc.ofChars text.toList).Spells j ∧ j.depth < Doc.depthLimit ∧
      ∃ stop, (Doc.ofChars text.toList).outcome = .ok stop ∧ Blank stop := by
  have hlimit : 0 < Doc.depthLimit := by decide
  simp only [parse, readWith_eq_ok, isEmpty_skipBlank_iff]
  constructor
  · rintro ⟨hjson, hstop⟩
    obtain ⟨hspells, hdepth⟩ := spells_of_json hlimit hjson
    exact ⟨hspells, hdepth, hstop⟩
  · rintro ⟨hspells, hdepth, hstop⟩
    exact ⟨json_of_spells hspells _ hdepth, hstop⟩

/-- A text between quotes, and nothing else but blanks. -/
def WrittenText (cs : List Char) (s : String) : Prop :=
  ∃ before body behind, Blank before ∧ Quoted body s.toList ∧ Blank behind ∧
    cs = before ++ '"' :: (body ++ '"' :: behind)

/-- An object of texts, and nothing else but blanks. -/
def WrittenEntries (cs : List Char) (es : List (String × String)) : Prop :=
  ∃ before inside behind, Blank before ∧ EntriesText true inside es ∧ Blank behind ∧
    cs = before ++ '\x7b' :: (inside ++ '\x7d' :: behind)

/-- **A text is parsed as the one that is written in it, and only then.** -/
theorem parse_eq_text_iff {text s : String} :
    parse text = .ok (.text s) ↔ WrittenText text.toList s := by
  have hdepth : (Json.text s).depth < Doc.depthLimit := by
    rw [depth]
    decide
  rw [parse_eq_ok_iff]
  constructor
  · rintro ⟨hspells, -, stop, hout, hstop⟩
    obtain ⟨start, stop', hdoc⟩ := hspells.eq_text
    rw [hdoc] at hout
    obtain rfl := Except.ok.inj hout
    obtain ⟨before, body, hbefore, htext, hbody⟩ := Doc.quoted_of_value hdoc
    exact ⟨before, body, stop', hbefore, hbody, hstop, htext⟩
  · rintro ⟨before, body, behind, hbefore, hbody, hbehind, htext⟩
    obtain ⟨start, hdoc⟩ := Doc.value_of_quoted hbefore hbody (2 * text.toList.length + 1) behind
    rw [← htext] at hdoc
    have hvalue : Doc.ofChars text.toList = .text start (.ok s) behind := hdoc
    rw [hvalue]
    exact ⟨.text start behind s, hdepth, behind, rfl, hbehind⟩

/-- **A text is parsed as the object of texts that is written in it, and only then**: the members
are those written, in that order. -/
theorem parse_eq_texts_iff {text : String} {es : List (String × String)} :
    parse text = .ok (.object (texts es)) ↔ WrittenEntries text.toList es := by
  have hbracket : isBlank '\x7b' = false := by decide
  have hdepth : (Json.object (texts es)).depth < Doc.depthLimit := by
    rw [depth, depthMembers_texts]
    decide
  rw [parse_eq_ok_iff]
  constructor
  · rintro ⟨hspells, -, stop, hout, hstop⟩
    obtain ⟨start, docs, stop', hdoc, hdocs⟩ := hspells.eq_object
    rw [hdoc] at hout
    obtain rfl := Except.ok.inj hout
    obtain ⟨fuel, before, rest, hbefore, htext, hmembers⟩ := Doc.members_of_value hdoc
    obtain ⟨inside, rfl, hinside⟩ := entriesText_of_membersFrom hmembers hdocs
    exact ⟨before, inside, stop', hbefore, hinside, hstop, htext⟩
  · rintro ⟨before, inside, behind, hbefore, hinside, hbehind, htext⟩
    have hlength : inside.length < 2 * text.toList.length + 1 := by
      rw [htext, List.length_append, List.length_cons, List.length_append]
      omega
    obtain ⟨docs, hmembers, hspell⟩ := membersFrom_of_entriesText hinside behind hlength
    have hskip : skipBlank text.toList = '\x7b' :: (inside ++ '\x7d' :: behind) :=
      (skipBlank_eq_cons_iff hbracket).mpr ⟨before, hbefore, htext⟩
    have hvalue : Doc.ofChars text.toList =
        .object ('\x7b' :: (inside ++ '\x7d' :: behind)) docs (.closed behind) := by
      simp only [Doc.ofChars, Doc.value, hskip, Char.reduceEq, Char.reduceIsDigit,
        Bool.false_eq_true, if_false, if_true, hmembers]
    rw [hvalue]
    exact ⟨.object _ behind hspell, hdepth, behind, rfl, hbehind⟩

end Lineage.Json
