import Lineage.Proofs.Json.Written
/-
  Numbers that are written plainly.

  A number comes out `unsigned` just when nothing is written for it but its digits: no sign, no
  point, no exponent and no needless zero (`memberText_plain`).  So how a number is written can be
  asked of the value that a text is parsed as.

  A scanned number has its digits in front; whatever else belongs to it begins with a character
  that is no digit (`scanNumber_spec`), and makes a double of it, as a minus sign never leaves it
  unsigned.  That a number stands where it was written is clear from the first character of each
  part (`start_value`).
-/

namespace Lineage.Json

/-! ## Scanned numbers -/

/-- **A scanned number is its leading digits and nothing else, or has further parts**, and then its
text goes on with a character that is no digit. -/
theorem scanNumber_spec {atEnd : Fault} {cs stop : List Char} {parts : NumberParts}
    (h : scanNumber atEnd cs = .ok (parts, stop)) :
    IsLead parts.whole ∧ ∃ tail, cs = parts.whole ++ (tail ++ stop) ∧
      ((tail = [] ∧ parts.fraction = none ∧ parts.exponent = none) ∨
        ((parts.fraction ≠ none ∨ parts.exponent ≠ none) ∧
          ∃ c more, tail = c :: more ∧ c.isDigit = false)) := by
  obtain ⟨text, rfl, htext⟩ := numberText_of_scanNumber h
  cases htext with
  | @mk whole power fraction exponent hlead _ hexponent =>
    refine ⟨hlead, fractionText fraction ++ power, List.append_assoc .., ?_⟩
    cases fraction with
    | some digits => exact .inr ⟨.inl (Option.some_ne_none digits), '.', _, rfl, rfl⟩
    | none =>
      cases hexponent with
      | absent => exact .inl ⟨rfl, rfl, rfl⟩
      | @present e sign digits upward he _ _ =>
        refine .inr ⟨.inr (Option.some_ne_none _), e, _, rfl, ?_⟩
        rcases he with rfl | rfl
        · rfl
        · rfl

/-! ## Plain numbers -/

/-- Digits that are all taken into a number are those of the number. -/
theorem takeDigits_spec {bound : Nat} : ∀ {digits : List Char} {n m : Nat}, n < bound →
    takeDigits bound n digits = (m, []) → m = Nat.ofDigitChars 10 digits n ∧ m < bound
  | [], n, m, hn, h => by
    cases h
    exact ⟨rfl, hn⟩
  | c :: digits, n, m, hn, h => by
    unfold takeDigits at h
    by_cases hnext : 10 * n + digitValue c < bound
    · simp only [if_pos hnext] at h
      rw [Nat.ofDigitChars_cons]
      exact takeDigits_spec hnext h
    · simp only [if_neg hnext] at h
      cases (Prod.mk.inj h).2

/-- A double is not an unsigned number. -/
theorem scaled_ne_unsigned {negative : Bool} {m : Nat} {k : Int} {stop : List Char} {n : UInt64} :
    scaled negative m k stop ≠ .ok (.unsigned n) := by
  unfold scaled
  cases scaleByTen 4 (Binary64.ofNat m) k with
  | none =>
    intro h
    cases h
  | some x =>
    intro h
    cases h

/-- An unsigned number has no sign, no fraction and no exponent, and all its digits fit. -/
theorem number_unsigned {parts : NumberParts} {negative : Bool} {stop : List Char} {n : UInt64}
    (h : parts.number negative stop = .ok (.unsigned n)) :
    negative = false ∧ parts.fraction = none ∧ parts.exponent = none ∧
      n.toNat = Nat.ofDigitChars 10 parts.whole 0 := by
  obtain ⟨whole, fraction, exponent⟩ := parts
  cases htake : takeDigits (2 ^ 64) 0 whole with
  | mk m overflow =>
    cases exponent with
    | some e =>
      obtain ⟨upward, digits⟩ := e
      cases hpower : takeDigits (2 ^ 31) 0 digits with
      | mk power left =>
        cases left with
        | nil =>
          simp only [NumberParts.number, htake, hpower] at h
          exact absurd h scaled_ne_unsigned
        | cons c left =>
          simp only [NumberParts.number, htake, hpower] at h
          split_ifs at h
          cases h
    | none =>
      cases fraction with
      | some digits =>
        simp only [NumberParts.number, htake, Option.isNone_some, Bool.false_and,
          Bool.false_eq_true, if_false] at h
        exact absurd h scaled_ne_unsigned
      | none =>
        cases overflow with
        | cons c overflow =>
          simp only [NumberParts.number, htake, List.isEmpty_cons, Bool.and_false,
            Bool.false_eq_true, if_false] at h
          exact absurd h scaled_ne_unsigned
        | nil =>
          simp only [NumberParts.number, htake, Option.isNone_none, List.isEmpty_nil, Bool.and_self,
            if_true, Except.ok.injEq] at h
          obtain ⟨hm, hlt⟩ := takeDigits_spec (by decide) htake
          cases negative with
          | true =>
            unfold wholeNumber at h
            simp only [Bool.not_true, Bool.false_eq_true, if_false] at h
            split at h
            · cases h
            · cases h
          | false =>
            simp only [wholeNumber, Bool.not_false, if_true, Number.unsigned.injEq] at h
            refine ⟨rfl, rfl, rfl, ?_⟩
            rw [← h, ← hm]
            exact UInt64.toNat_ofNat_of_lt' hlt

/-- The text of a part, without what follows it. -/
def Doc.written (doc : Doc) : List Char :=
  match doc.outcome with
  | .ok stop => doc.start.take (doc.start.length - stop.length)
  | .error _ => []

/-- What is written begins as the part does. -/
theorem Doc.written_prefix (doc : Doc) : doc.written <+: doc.start := by
  unfold Doc.written
  cases doc.outcome with
  | ok stop => exact List.take_prefix ..
  | error t => exact List.nil_prefix

/-- The document is that of an unsigned number just when its digits and nothing else are
written. -/
def Doc.Plain (doc : Doc) : Prop :=
  ∀ n : UInt64, doc.Spells (.number (.unsigned n)) ↔ doc.written = Nat.toDigits 10 n.toNat

/-- The first digit of a number. -/
theorem toDigits_cons (n : Nat) :
    ∃ c digits, Nat.toDigits 10 n = c :: digits ∧ c.isDigit = true := by
  have hdigits := Decimal.isDigit_toDigits n
  cases h : Nat.toDigits 10 n with
  | nil => exact absurd h Nat.toDigits_ne_nil
  | cons c digits =>
    rw [h, List.all_cons] at hdigits
    exact ⟨c, digits, rfl, (Bool.and_eq_true_iff.mp hdigits).1⟩

/-- A part that is no number, and does not begin with a digit, is plain. -/
theorem Doc.plain_of_other {doc : Doc} (hkind : ∀ start n stop, doc ≠ .number start (.ok (.unsigned n)) stop)
    (hfirst : ∀ c, doc.start.head? = some c → c.isDigit = false) : doc.Plain := by
  intro n
  constructor
  · intro h
    cases h with
    | number start stop => exact absurd rfl (hkind start n stop)
  · intro h
    obtain ⟨c, digits, hdigits, hc⟩ := toDigits_cons n.toNat
    obtain ⟨rest, hstart⟩ := doc.written_prefix
    rw [h, hdigits] at hstart
    have hhead : doc.start.head? = some c := by
      rw [← hstart]
      rfl
    exact absurd hc ((hfirst c hhead).symm ▸ Bool.false_ne_true)

/-- A broken part is plain: it is no number and has no text. -/
theorem Doc.plain_of_error {doc : Doc} {t : Trouble × Trouble} (h : doc.outcome = .error t) :
    doc.Plain := by
  intro n
  constructor
  · intro hspells
    cases hspells with
    | number start stop => cases h
  · intro hwritten
    rw [Doc.written, h] at hwritten
    exact absurd hwritten.symm Nat.toDigits_ne_nil

/-- A number behind a minus sign is never unsigned. -/
theorem Doc.plain_of_negative (rest : List Char) : (ofNumber ('-' :: rest) true rest).Plain := by
  cases hscan : scanNumber .badNumber rest with
  | ok x =>
    obtain ⟨parts, stop⟩ := x
    simp only [ofNumber, hscan]
    refine plain_of_other ?_ ?_
    · intro start n stop' h
      obtain ⟨-, hvalue, -⟩ := Doc.number.inj h
      cases (number_unsigned hvalue).1
    · intro c hc
      cases hc
      rfl
  | error skipped =>
    simp only [ofNumber, hscan]
    cases scanNumber .endInValue rest with
    | ok x => exact plain_of_error rfl
    | error read => exact plain_of_error rfl

/-- What is written of a number is what stands in front of its end. -/
theorem Doc.written_number (front stop : List Char) (value : Except Trouble Number) :
    (Doc.number (front ++ stop) value stop).written = front := by
  show (front ++ stop).take ((front ++ stop).length - stop.length) = front
  rw [List.length_append, Nat.add_sub_cancel, List.take_left]

theorem Doc.spells_number_iff {start stop : List Char} {value : Except Trouble Number}
    {k : Number} : (Doc.number start value stop).Spells (.number k) ↔ value = .ok k := by
  constructor
  · intro h
    cases h
    rfl
  · rintro rfl
    exact .number start stop k

/-- The parts of a number without a sign make an unsigned one just when the leading digits are all
there is, and are the digits of that number. -/
theorem number_unsigned_iff {parts : NumberParts} {tail stop : List Char}
    (hlead : IsLead parts.whole)
    (htail : (tail = [] ∧ parts.fraction = none ∧ parts.exponent = none) ∨
      ((parts.fraction ≠ none ∨ parts.exponent ≠ none) ∧
        ∃ c more, tail = c :: more ∧ c.isDigit = false)) (n : UInt64) :
    parts.number false stop = .ok (.unsigned n) ↔
      parts.whole ++ tail = Nat.toDigits 10 n.toNat := by
  constructor
  · intro hnumber
    obtain ⟨-, hfraction, hexponent, hn⟩ := number_unsigned hnumber
    rcases htail with ⟨rfl, -⟩ | ⟨hmore, -⟩
    · rw [hn, hlead.toDigits, List.append_nil]
    · rcases hmore with hmore | hmore
      · exact absurd hfraction hmore
      · exact absurd hexponent hmore
  · intro h
    rcases htail with ⟨rfl, hfraction, hexponent⟩ | ⟨-, c, more, rfl, hc⟩
    · rw [List.append_nil] at h
      have hparts : parts = ⟨Nat.toDigits 10 n.toNat, none, none⟩ := by
        rw [← h, ← hfraction, ← hexponent]
      have hback : wholeNumber false n.toNat = .unsigned n := by
        show Number.unsigned (UInt64.ofNat n.toNat) = _
        rw [UInt64.ofNat_toNat]
      rw [hparts, number_toDigits n.toNat_lt, hback]
    · -- The character behind the leading digits is none.
      have hdigits := Decimal.isDigit_toDigits n.toNat
      rw [← h] at hdigits
      have hall := List.all_eq_true.mp hdigits c (List.mem_append_right _ List.mem_cons_self)
      exact absurd hall (hc.symm ▸ Bool.false_ne_true)

/-- A number without a sign is unsigned just when its leading digits are all that is written. -/
theorem Doc.plain_of_digits (cs : List Char) : (ofNumber cs false cs).Plain := by
  cases hscan : scanNumber .badNumber cs with
  | error skipped =>
    simp only [ofNumber, hscan]
    cases scanNumber .endInValue cs with
    | ok x => exact plain_of_error rfl
    | error read => exact plain_of_error rfl
  | ok x =>
    obtain ⟨parts, stop⟩ := x
    obtain ⟨hlead, tail, hcs, htail⟩ := scanNumber_spec hscan
    have hwritten : (Doc.number cs (parts.number false stop) stop).written = parts.whole ++ tail := by
      rw [hcs, ← List.append_assoc, written_number]
    intro n
    simp only [ofNumber, hscan]
    rw [hwritten, spells_number_iff]
    exact number_unsigned_iff hlead htail n

/-- A word is plain. -/
theorem Doc.plain_of_word {start word rest : List Char} {complete : List Char → Doc}
    (hfirst : ∀ c, start.head? = some c → c.isDigit = false)
    (hstart : ∀ stop, (complete stop).start = start)
    (hkind : ∀ stop s v t, complete stop ≠ .number s v t) :
    (ofWord start word rest complete).Plain := by
  unfold ofWord
  cases expectWord word rest with
  | error t => exact plain_of_error rfl
  | ok stop =>
    refine plain_of_other ?_ ?_
    · intro s n t
      exact hkind stop s (.ok (.unsigned n)) t
    · rw [hstart]
      exact hfirst

/-! ## Numbers in a text -/

/-- Whatever is made out in a text is plain. -/
theorem Doc.plain_of_value : ∀ (fuel : Nat) (cs : List Char), (value fuel cs).Plain
  | 0, cs => plain_of_error rfl
  | fuel + 1, cs => by
    cases hcs : skipBlank cs with
    | nil =>
      simp only [value, hcs]
      exact plain_of_error rfl
    | cons c rest =>
      by_cases hminus : c = '-'
      · subst hminus
        simp only [value, hcs, Char.reduceEq, if_false, if_true]
        exact plain_of_negative rest
      · by_cases hdigit : c.isDigit = true
        · have hother : ∀ d : Char, d.isDigit = false → ¬ (c = d) := fun d hd =>
            ne_of_isDigit hdigit hd
          simp only [value, hcs, if_neg (hother 'n' (by decide)), if_neg (hother 't' (by decide)),
            if_neg (hother 'f' (by decide)), if_neg hminus, if_pos hdigit]
          exact plain_of_digits (c :: rest)
        · -- Nothing else begins with a digit.
          have hfirst : ∀ d, (c :: rest).head? = some d → d.isDigit = false := by
            intro d hd
            rw [← Option.some.inj hd]
            exact Bool.eq_false_iff.mpr hdigit
          simp only [value, hcs, if_neg hminus, if_neg hdigit]
          split_ifs
          · exact plain_of_word hfirst (fun _ => rfl) fun _ _ _ _ h => by cases h
          · exact plain_of_word hfirst (fun _ => rfl) fun _ _ _ _ h => by cases h
          · exact plain_of_word hfirst (fun _ => rfl) fun _ _ _ _ h => by cases h
          · unfold ofText
            cases scanText rest with
            | error t => exact plain_of_error rfl
            | ok x => exact plain_of_other (fun _ _ _ h => by cases h) hfirst
          · exact plain_of_other (fun _ _ _ h => by cases h) hfirst
          · exact plain_of_other (fun _ _ _ h => by cases h) hfirst
          · exact plain_of_error rfl

/-- The members of an object are plain. -/
theorem Doc.plain_of_membersFrom : ∀ (fuel : Nat) (first : Bool) (cs : List Char),
    ∀ x ∈ (membersFrom fuel first cs).1, x.2.Plain
  | 0, first, cs => fun x hx => absurd hx List.not_mem_nil
  | fuel + 1, first, cs => by
    intro x hx
    unfold membersFrom at hx
    split at hx
    · exact absurd hx List.not_mem_nil
    · split at hx
      · exact absurd hx List.not_mem_nil
      · rename_i name stop _
        -- The value of a member stands behind a colon; without one it is broken.
        cases hgap : skipBlank stop with
        | nil =>
          simp only [hgap] at hx
          obtain rfl := List.mem_singleton.mp hx
          exact plain_of_error rfl
        | cons c rest =>
          by_cases hcolon : c = ':'
          · simp only [hgap, if_pos hcolon] at hx
            split at hx
            · obtain rfl := List.mem_singleton.mp hx
              exact plain_of_value fuel rest
            · rcases List.mem_cons.mp hx with rfl | hx
              · exact plain_of_value fuel rest
              · exact plain_of_membersFrom fuel false _ x hx
          · simp only [hgap, if_neg hcolon] at hx
            obtain rfl := List.mem_singleton.mp hx
            exact plain_of_error rfl

theorem mem_of_memberNamed {name : String} {doc : Doc} : ∀ {docs : List (Key × Doc)},
    memberNamed docs name = some doc → ∃ key, (key, doc) ∈ docs
  | [], h => by cases h
  | (key, first) :: rest, h => by
    unfold memberNamed at h
    split at h
    · split_ifs at h
      · cases h
        exact ⟨key, List.mem_cons_self⟩
      · obtain ⟨k, hk⟩ := mem_of_memberNamed h
        exact ⟨k, List.mem_cons_of_mem _ hk⟩
    · obtain ⟨k, hk⟩ := mem_of_memberNamed h
      exact ⟨k, List.mem_cons_of_mem _ hk⟩

/-- The members of an object that a text begins with are plain. -/
theorem Doc.plain_of_object {fuel : Nat} {cs start : List Char} {docs : List (Key × Doc)}
    {ending : Ending} (h : value fuel cs = .object start docs ending) : ∀ x ∈ docs, x.2.Plain := by
  obtain ⟨less, -, rest, -, -, hmembers⟩ := members_of_value h
  have hplain := plain_of_membersFrom less true rest
  rw [hmembers] at hplain
  exact hplain

/-- The text of the first member with a name, where a text is an object. -/
def memberText (text name : String) : Option (List Char) :=
  match Doc.ofChars text.toList with
  | .object _ docs _ => (memberNamed docs name).map Doc.written
  | _ => none

/-- **A member is an unsigned number just when its digits and nothing else are written for it.** -/
theorem memberText_plain {text : String} {members : List (String × Json)}
    (h : parse text = .ok (.object members)) (name : String) (n : UInt64) :
    memberText text name = some (Nat.toDigits 10 n.toNat) ↔
      members.lookup name = some (.number (.unsigned n)) := by
  obtain ⟨hspells, -, -⟩ := spells_of_parse h
  unfold memberText
  cases hdoc : Doc.ofChars text.toList with
  | object start docs ending =>
    have hplain := Doc.plain_of_object hdoc
    rw [hdoc] at hspells
    cases hspells with
    | object start stop hdocs =>
      cases hlookup : members.lookup name with
      | none =>
        simp only [memberNamed_of_absent hdocs hlookup]
        exact iff_of_false (fun h => by cases h) fun h => by cases h
      | some j =>
        obtain ⟨doc, hnamed, hj, -⟩ := memberNamed_of_spells hdocs hlookup
        obtain ⟨key, hmem⟩ := mem_of_memberNamed hnamed
        simp only [hnamed, Option.map_some, Option.some.injEq]
        rw [← hplain _ hmem n]
        constructor
        · exact hj.unique
        · rintro rfl
          exact hj
  | _ =>
    rw [hdoc] at hspells
    cases hspells

end Lineage.Json
