import Lineage.Json.Document
import Lineage.Proofs.Json.Doubles
/-
  What is made out in a printed value.

  `Doc.Spells` says that a document is that of a value: part for part, with the names and
  numbers and texts in it made out well and every bracket closed.  What stands where, and what
  follows, is left open, so a reader that goes by `Spells` need not look at the text again.

  A printed value is made out as what comes back of it, up to where it ends (`value_printed`): the
  value itself, but that a double may come back as another one, and as `null` where it is no finite
  number (`Json.back`).  The induction is on the value.  What is held of its items is held of all
  that stands behind one item: a comma and the next one, or nothing more (`itemsText`,
  `membersText`), and then the bracket.  The fuel is twice the length, because each comma is passed
  in a step of its own.
-/

namespace Lineage.Json

/-! ## Values without doubles -/

/-- A whole number, with the sign where it belongs. -/
def Number.IsWhole : Number → Prop
  | .unsigned _ => True
  | .negative n => n.toInt < 0
  | .float _ => False

mutual

/-- All numbers in the value are whole. -/
def Whole : Json → Prop
  | .null | .bool _ | .text _ => True
  | .number n => n.IsWhole
  | .array items => WholeItems items
  | .object members => WholeMembers members

/-- All numbers in the items are whole. -/
def WholeItems : List Json → Prop
  | [] => True
  | j :: rest => j.Whole ∧ WholeItems rest

/-- All numbers in the members are whole. -/
def WholeMembers : List (String × Json) → Prop
  | [] => True
  | (_, j) :: rest => j.Whole ∧ WholeMembers rest

end

/-! ## What comes back -/

/-- What is read of a printed number.  A double is read by its decimal, and one that is no finite
number is printed as `null`. -/
def Number.back : Number → Json
  | .unsigned n => .number (.unsigned n)
  | .negative n => .number (.negative n)
  | .float x => if x.isFinite then .number (.float (reread x)) else .null

mutual

/-- What is read of a printed value. -/
def back : Json → Json
  | .null => .null
  | .bool b => .bool b
  | .text s => .text s
  | .number n => n.back
  | .array items => .array (backItems items)
  | .object members => .object (backMembers members)

/-- What is read of printed items. -/
def backItems : List Json → List Json
  | [] => []
  | j :: rest => j.back :: backItems rest

/-- What is read of printed members. -/
def backMembers : List (String × Json) → List (String × Json)
  | [] => []
  | (name, j) :: rest => (name, j.back) :: backMembers rest

end

/-- A number with the sign where it belongs. -/
def Number.Signed : Number → Prop
  | .negative n => n.toInt < 0
  | .unsigned _ | .float _ => True

mutual

/-- Every number in the value has its sign where it belongs. -/
def Signed : Json → Prop
  | .null | .bool _ | .text _ => True
  | .number n => n.Signed
  | .array items => SignedItems items
  | .object members => SignedMembers members

/-- Every number in the items has its sign where it belongs. -/
def SignedItems : List Json → Prop
  | [] => True
  | j :: rest => j.Signed ∧ SignedItems rest

/-- Every number in the members has its sign where it belongs. -/
def SignedMembers : List (String × Json) → Prop
  | [] => True
  | (_, j) :: rest => j.Signed ∧ SignedMembers rest

end

mutual

/-- **A value without doubles comes back as it is.** -/
theorem back_of_whole : ∀ {j : Json}, j.Whole → j.Signed ∧ j.back = j
  | .null, _ => ⟨trivial, rfl⟩
  | .bool _, _ => ⟨trivial, rfl⟩
  | .text _, _ => ⟨trivial, rfl⟩
  | .number (.unsigned _), _ => ⟨trivial, rfl⟩
  | .number (.negative _), h => ⟨h, rfl⟩
  | .array _, h =>
    have hitems := backItems_of_whole h
    ⟨hitems.1, congrArg Json.array hitems.2⟩
  | .object _, h =>
    have hmembers := backMembers_of_whole h
    ⟨hmembers.1, congrArg Json.object hmembers.2⟩

theorem backItems_of_whole : ∀ {items : List Json}, WholeItems items →
    SignedItems items ∧ backItems items = items
  | [], _ => ⟨trivial, rfl⟩
  | _ :: _, h => by
    obtain ⟨hsigned, hback⟩ := back_of_whole h.1
    obtain ⟨hrest, hbackRest⟩ := backItems_of_whole h.2
    exact ⟨⟨hsigned, hrest⟩, by rw [backItems, hback, hbackRest]⟩

theorem backMembers_of_whole : ∀ {members : List (String × Json)}, WholeMembers members →
    SignedMembers members ∧ backMembers members = members
  | [], _ => ⟨trivial, rfl⟩
  | (_, _) :: _, h => by
    obtain ⟨hsigned, hback⟩ := back_of_whole h.1
    obtain ⟨hrest, hbackRest⟩ := backMembers_of_whole h.2
    exact ⟨⟨hsigned, hrest⟩, by rw [backMembers, hback, hbackRest]⟩

end

/-! ## Documents of a value -/

mutual

/-- The document is that of the value. -/
inductive Doc.Spells : Doc → Json → Prop
  | null (start stop : List Char) : Doc.Spells (.null start stop) .null
  | bool (start stop : List Char) (b : Bool) : Doc.Spells (.bool start b stop) (.bool b)
  | number (start stop : List Char) (n : Number) :
    Doc.Spells (.number start (.ok n) stop) (.number n)
  | text (start stop : List Char) (s : String) : Doc.Spells (.text start (.ok s) stop) (.text s)
  | array {docs : List Doc} {items : List Json} (start stop : List Char)
      (h : ItemsSpell docs items) : Doc.Spells (.array start docs (.closed stop)) (.array items)
  | object {docs : List (Key × Doc)} {members : List (String × Json)} (start stop : List Char)
      (h : MembersSpell docs members) :
    Doc.Spells (.object start docs (.closed stop)) (.object members)

/-- The documents are those of the items. -/
inductive ItemsSpell : List Doc → List Json → Prop
  | nil : ItemsSpell [] []
  | cons {doc : Doc} {j : Json} {docs : List Doc} {items : List Json} (h : doc.Spells j)
      (hrest : ItemsSpell docs items) : ItemsSpell (doc :: docs) (j :: items)

/-- The documents are those of the members, each behind its name. -/
inductive MembersSpell : List (Key × Doc) → List (String × Json) → Prop
  | nil : MembersSpell [] []
  | cons {doc : Doc} {j : Json} {docs : List (Key × Doc)} {members : List (String × Json)}
      (name : String) (gap : List Char) (h : doc.Spells j) (hrest : MembersSpell docs members) :
    MembersSpell ((⟨.ok name, gap⟩, doc) :: docs) ((name, j) :: members)

end

mutual

/-- A document is that of one value at most. -/
theorem Doc.Spells.unique : ∀ {doc : Doc} {j k : Json}, doc.Spells j → doc.Spells k → j = k
  | _, _, _, .null _ _, .null _ _ => rfl
  | _, _, _, .bool _ _ _, .bool _ _ _ => rfl
  | _, _, _, .number _ _ _, .number _ _ _ => rfl
  | _, _, _, .text _ _ _, .text _ _ _ => rfl
  | _, _, _, .array _ _ h, .array _ _ k => congrArg Json.array (h.unique k)
  | _, _, _, .object _ _ h, .object _ _ k => congrArg Json.object (h.unique k)

theorem ItemsSpell.unique : ∀ {docs : List Doc} {items others : List Json},
    ItemsSpell docs items → ItemsSpell docs others → items = others
  | _, _, _, .nil, .nil => rfl
  | _, _, _, .cons h hrest, .cons k krest => by rw [h.unique k, hrest.unique krest]

theorem MembersSpell.unique : ∀ {docs : List (Key × Doc)} {members others : List (String × Json)},
    MembersSpell docs members → MembersSpell docs others → members = others
  | _, _, _, .nil, .nil => rfl
  | _, _, _, .cons _ _ h hrest, .cons _ _ k krest => by rw [h.unique k, hrest.unique krest]

end

/-! ## The first character -/

/-- A part can begin with the character: it is no blank and ends no array. -/
def Begins (c : Char) : Prop := isBlank c = false ∧ c ≠ ']'

theorem skipBlank_cons {c : Char} (h : isBlank c = false) (rest : List Char) :
    skipBlank (c :: rest) = c :: rest :=
  List.dropWhile_cons_of_neg (by rw [h]; exact Bool.false_ne_true)

/-- A digit is none of the other characters that tell what a part is. -/
theorem ne_of_isDigit {c d : Char} (hc : c.isDigit = true) (hd : d.isDigit = false) : c ≠ d := by
  rintro rfl
  exact absurd hc (hd.symm ▸ Bool.false_ne_true)

theorem begins_of_isDigit {c : Char} (h : c.isDigit = true) : Begins c := by
  have hother : ∀ d : Char, d.isDigit = false → ¬ (c = d) := fun d hd => ne_of_isDigit h hd
  refine ⟨?_, hother ']' (by decide)⟩
  simp only [isBlank, decide_eq_false (hother ' ' (by decide)),
    decide_eq_false (hother '\t' (by decide)), decide_eq_false (hother '\n' (by decide)),
    decide_eq_false (hother '\r' (by decide)), Bool.or_self]

/-! ## Numbers -/

/-- The sign of a number. -/
def minus (negative : Bool) : List Char := if negative then ['-'] else []

/-- A number is made out with its sign, into its parts. -/
theorem value_of_numberText (negative : Bool) {text : List Char} {p : NumberParts}
    (h : NumberText text p) (fuel : Nat) {rest : List Char} (hrest : Stops rest) :
    ∃ start, Doc.value (fuel + 1) (minus negative ++ (text ++ rest)) =
      .number start (p.number negative rest) rest := by
  have hscan := scanNumber_of_text .badNumber h hrest
  cases negative with
  | true =>
    have hblank : isBlank '-' = false := by decide
    refine ⟨'-' :: (text ++ rest), ?_⟩
    show Doc.value (fuel + 1) ('-' :: (text ++ rest)) = _
    simp only [Doc.value, skipBlank_cons hblank, Char.reduceEq, if_false, if_true, Doc.ofNumber,
      hscan]
  | false =>
    obtain ⟨c, digits, rfl, hc⟩ := h.eq_cons
    -- The first digit tells a number from everything else.
    have hother : ∀ d : Char, d.isDigit = false → ¬ (c = d) := fun d hd => ne_of_isDigit hc hd
    refine ⟨c :: digits ++ rest, ?_⟩
    show Doc.value (fuel + 1) (c :: digits ++ rest) = _
    rw [List.cons_append] at hscan ⊢
    simp only [Doc.value, skipBlank_cons (begins_of_isDigit hc).1, if_neg (hother 'n' (by decide)),
      if_neg (hother 't' (by decide)), if_neg (hother 'f' (by decide)),
      if_neg (hother '-' (by decide)), hc, if_true, Doc.ofNumber, hscan]

/-- The digits of a number of 64 bits are all of its parts. -/
theorem parts_toDigits {n : Nat} (h : n < 2 ^ 64) (negative : Bool) :
    ∃ p : NumberParts, p.Fits ∧ Nat.toDigits 10 n = p.print ∧
      ∀ stop, p.number negative stop = .ok (wholeNumber negative n) := by
  refine ⟨⟨Nat.toDigits 10 n, none, none⟩, ⟨isLead_toDigits n, ?_, ?_⟩, ?_, ?_⟩
  · exact fun _ hnone => by cases hnone
  · exact fun _ _ hnone => by cases hnone
  · exact (List.append_nil _).symm
  · exact number_toDigits h negative

/-- **What is printed for a number are its sign and the parts that are read of it**, or else it is a
double that is no finite number. -/
theorem Number.print_cases {n : Number} (h : n.Signed) :
    (n.print = "null".toList ∧ n.back = .null) ∨
      ∃ (negative : Bool) (p : NumberParts) (m : Number), p.Fits ∧
        n.print = minus negative ++ p.print ∧ n.back = .number m ∧
        ∀ stop, p.number negative stop = .ok m := by
  cases n with
  | unsigned n =>
    obtain ⟨p, hfits, hprint, hnumber⟩ := parts_toDigits n.toNat_lt false
    have hback : wholeNumber false n.toNat = .unsigned n := by
      simp only [wholeNumber, Bool.not_false, if_true, UInt64.ofNat_toNat]
    exact .inr ⟨false, p, .unsigned n, hfits, hprint, rfl, hback ▸ hnumber⟩
  | negative n =>
    have hneg : n.toInt < 0 := h
    have hleast : -2 ^ 63 ≤ n.toInt := n.le_toInt
    have hlt : n.toInt.natAbs < 2 ^ 64 := by omega
    obtain ⟨p, hfits, hprint, hnumber⟩ := parts_toDigits hlt true
    have hback : wholeNumber true n.toInt.natAbs = .negative n := by
      have hrange : (0 < n.toInt.natAbs && n.toInt.natAbs ≤ 2 ^ 63) = true := by
        simp only [Bool.and_eq_true, decide_eq_true_eq]
        omega
      have hint : -(n.toInt.natAbs : Int) = n.toInt := by omega
      simp only [wholeNumber, Bool.not_true, Bool.false_eq_true, if_false, hrange, if_true, hint,
        Int64.ofInt_toInt]
    exact .inr ⟨true, p, .negative n, hfits, congrArg (List.cons '-') hprint, rfl, hback ▸ hnumber⟩
  | float x =>
    cases hfinite : x.isFinite with
    | false => exact .inl ⟨by rw [Number.print, hfinite]; rfl, by rw [Number.back, hfinite]; rfl⟩
    | true =>
      obtain ⟨hcases, hmost, hexponent⟩ := decimal_bounds hfinite
      obtain ⟨p, hfits, hprint, hnumber⟩ := spelt_unsigned hcases hmost hexponent
      refine .inr ⟨x.isNegative, p, .float (reread x), hfits, ?_, ?_, ?_⟩
      · rw [print_float hfinite, hprint]
        rfl
      · rw [Number.back, hfinite]
        rfl
      · exact number_of_decimal hfinite hnumber

/-! ## Single values -/

/-- Every printed value begins with a character that a part can begin with. -/
theorem print_cons {j : Json} (h : j.Signed) : ∃ c cs, j.print = c :: cs ∧ Begins c := by
  cases j with
  | null => exact ⟨_, _, rfl, by decide, by decide⟩
  | bool b => cases b <;> exact ⟨_, _, rfl, by decide, by decide⟩
  | text s => exact ⟨'"', _, rfl, by decide, by decide⟩
  | array items => exact ⟨'[', _, rfl, by decide, by decide⟩
  | object members => exact ⟨'\x7b', _, rfl, by decide, by decide⟩
  | number n =>
    show ∃ c cs, n.print = c :: cs ∧ Begins c
    rcases Number.print_cases h with ⟨hprint, -⟩ | ⟨negative, p, -, hfits, hprint, -⟩
    · exact ⟨_, _, hprint, by decide, by decide⟩
    · rw [hprint]
      cases negative with
      | true => exact ⟨'-', _, rfl, by decide, by decide⟩
      | false =>
        obtain ⟨c, digits, hdigits, hc⟩ := hfits.numberText.eq_cons
        exact ⟨c, digits, hdigits, begins_of_isDigit hc⟩

theorem length_print_pos {j : Json} (h : j.Signed) : 0 < j.print.length := by
  obtain ⟨c, cs, hprint, -⟩ := print_cons h
  rw [hprint, List.length_cons]
  exact Nat.succ_pos cs.length

/-- The document is that of the value, and the text goes on behind it. -/
def Doc.SpellsUpTo (doc : Doc) (j : Json) (rest : List Char) : Prop :=
  doc.Spells j ∧ doc.outcome = .ok rest

/-- A number is made out as what comes back of it. -/
theorem value_number {n : Number} (h : n.Signed) (fuel : Nat) {rest : List Char}
    (hrest : Stops rest) : (Doc.value (fuel + 1) (n.print ++ rest)).SpellsUpTo n.back rest := by
  rcases Number.print_cases h with ⟨hprint, hback⟩ | ⟨negative, p, m, hfits, hprint, hback, hnumber⟩
  · rw [hprint, hback]
    exact ⟨.null _ _, rfl⟩
  · obtain ⟨start, hvalue⟩ := value_of_numberText negative hfits.numberText fuel hrest
    rw [hnumber] at hvalue
    rw [hprint, hback, List.append_assoc, hvalue]
    exact ⟨.number _ _ _, rfl⟩

/-- A printed text is made out from behind its opening quote. -/
theorem scanText_printed (s : String) (rest : List Char) :
    Doc.scanText (s.toList.flatMap escaped ++ '"' :: rest) = .ok (.ok s, rest) := by
  have hback : String.ofList s.toList = s := String.ofList_toList
  simp only [Doc.scanText, skipText_printed, readText_printed, Except.map, hback]

/-! ## Items and members from one on -/

/-- What stands before a part: nothing before the first one, and a comma before any other. -/
def comma (first : Bool) : List Char := if first then [] else [',']

/-- The text of items, the first of which is the first of the array or stands behind others. -/
def itemsText : Bool → List Json → List Char
  | _, [] => []
  | first, j :: rest => comma first ++ (print j ++ itemsText false rest)

/-- The text of members, the first of which is the first of the object or stands behind others. -/
def membersText : Bool → List (String × Json) → List Char
  | _, [] => []
  | first, (name, j) :: rest =>
    comma first ++ (printText name ++ (':' :: print j ++ membersText false rest))

theorem printItems_eq : ∀ items : List Json, printItems items = itemsText true items
  | [] => rfl
  | [j] => (List.append_nil j.print).symm
  | j :: k :: rest => congrArg (fun cs => j.print ++ ',' :: cs) (printItems_eq (k :: rest))

theorem printMembers_eq :
    ∀ members : List (String × Json), printMembers members = membersText true members
  | [] => rfl
  | [(name, j)] => by
    show printText name ++ ':' :: j.print = printText name ++ (':' :: j.print ++ [])
    rw [List.append_nil]
  | (name, j) :: m :: rest => by
    show printText name ++ ':' :: j.print ++ ',' :: printMembers (m :: rest) = _
    rw [printMembers_eq (m :: rest), List.append_assoc]
    rfl

/-- Whatever stands behind a part, a number stops there. -/
theorem stops_cons {c : Char} (h : c = ',' ∨ c = ']' ∨ c = '\x7d') (rest : List Char) :
    Stops (c :: rest) := by
  intro d hd
  obtain rfl : c = d := Option.some.inj hd
  rcases h with rfl | rfl | rfl <;> decide

theorem stops_itemsText (items : List Json) (rest : List Char) :
    Stops (itemsText false items ++ ']' :: rest) := by
  cases items with
  | nil => exact stops_cons (.inr (.inl rfl)) rest
  | cons j items => exact stops_cons (.inl rfl) _

theorem stops_membersText (members : List (String × Json)) (rest : List Char) :
    Stops (membersText false members ++ '\x7d' :: rest) := by
  cases members with
  | nil => exact stops_cons (.inr (.inr rfl)) rest
  | cons m members => exact stops_cons (.inl rfl) _

theorem nextItem_part (first : Bool) {c : Char} (h : Begins c) (rest : List Char) :
    Doc.nextItem first (comma first ++ c :: rest) = .part (c :: rest) := by
  have hcomma : isBlank ',' = false := by decide
  cases first with
  | true =>
    show Doc.nextItem true (c :: rest) = _
    simp only [Doc.nextItem, skipBlank_cons h.1, if_neg h.2, if_true]
  | false =>
    show Doc.nextItem false (',' :: c :: rest) = _
    simp only [Doc.nextItem, skipBlank_cons hcomma, skipBlank_cons h.1, if_neg h.2, Char.reduceEq,
      Bool.false_eq_true, if_false, if_true]

theorem nextItem_close (first : Bool) (rest : List Char) :
    Doc.nextItem first (']' :: rest) = .finish (.closed rest) := by
  have hblank : isBlank ']' = false := by decide
  simp only [Doc.nextItem, skipBlank_cons hblank, if_true]

theorem nextMember_part (first : Bool) (rest : List Char) :
    Doc.nextMember first (comma first ++ '"' :: rest) = .part rest := by
  have hquote : isBlank '"' = false := by decide
  have hcomma : isBlank ',' = false := by decide
  cases first with
  | true =>
    show Doc.nextMember true ('"' :: rest) = _
    simp only [Doc.nextMember, skipBlank_cons hquote, Char.reduceEq, if_false, if_true]
  | false =>
    show Doc.nextMember false (',' :: '"' :: rest) = _
    simp only [Doc.nextMember, skipBlank_cons hcomma, skipBlank_cons hquote, Char.reduceEq,
      Bool.false_eq_true, if_false, if_true]

theorem nextMember_close (first : Bool) (rest : List Char) :
    Doc.nextMember first ('\x7d' :: rest) = .finish (.closed rest) := by
  have hblank : isBlank '\x7d' = false := by decide
  simp only [Doc.nextMember, skipBlank_cons hblank, if_true]

/-! ## Whole values -/

/-- An item is made out, and then those behind it. -/
theorem itemsFrom_cons (first : Bool) {fuel : Nat} {j : Json} (hj : j.Signed) {k : Json}
    {items : List Json} {docs : List Doc} {more stop : List Char}
    (hitem : (Doc.value fuel (j.print ++ more)).SpellsUpTo k more)
    (hmore : Doc.itemsFrom fuel false more = (docs, .closed stop)) (hdocs : ItemsSpell docs items) :
    ∃ docs', Doc.itemsFrom (fuel + 1) first (comma first ++ (j.print ++ more)) =
      (docs', .closed stop) ∧ ItemsSpell docs' (k :: items) := by
  obtain ⟨c, cs, hprint, hbegins⟩ := print_cons hj
  have hout := hitem.2
  refine ⟨_, ?_, .cons hitem.1 hdocs⟩
  rw [hprint, List.cons_append] at hout ⊢
  simp only [Doc.itemsFrom, nextItem_part first hbegins, hout, hmore]

/-- A member is made out, and then those behind it. -/
theorem membersFrom_cons (first : Bool) (name : String) {fuel : Nat} {j k : Json}
    {members : List (String × Json)} {docs : List (Key × Doc)} {more stop : List Char}
    (hitem : (Doc.value fuel (j.print ++ more)).SpellsUpTo k more)
    (hmore : Doc.membersFrom fuel false more = (docs, .closed stop))
    (hdocs : MembersSpell docs members) :
    ∃ docs', Doc.membersFrom (fuel + 1) first
        (comma first ++ (printText name ++ (':' :: j.print ++ more))) = (docs', .closed stop) ∧
      MembersSpell docs' ((name, k) :: members) := by
  have hcolon : isBlank ':' = false := by decide
  have htext : comma first ++ (printText name ++ (':' :: j.print ++ more)) =
      comma first ++ '"' :: (name.toList.flatMap escaped ++ '"' :: (':' :: (j.print ++ more))) := by
    simp only [printText, List.cons_append, List.append_assoc, List.nil_append]
  refine ⟨_, ?_, .cons name (':' :: (j.print ++ more)) hitem.1 hdocs⟩
  rw [htext]
  simp only [Doc.membersFrom, nextMember_part, scanText_printed, skipBlank_cons hcolon, if_true,
    hitem.2, hmore]

/-- There is fuel for every printed value that is to be made out. -/
theorem fuel_pos {j : Json} (h : j.Signed) {fuel : Nat} (hfuel : 2 * j.print.length ≤ fuel) :
    ∃ less, fuel = less + 1 := by
  have hpos := length_print_pos h
  exact ⟨fuel - 1, by omega⟩

mutual

/-- **A printed value is made out as what comes back of it, up to where it ends.** -/
theorem value_printed : ∀ (j : Json), j.Signed → ∀ {fuel : Nat} {rest : List Char}, Stops rest →
    2 * j.print.length ≤ fuel → (Doc.value fuel (j.print ++ rest)).SpellsUpTo j.back rest
  | .null, h, fuel, rest, _, hfuel => by
    obtain ⟨fuel, rfl⟩ := fuel_pos h hfuel
    exact ⟨.null _ _, rfl⟩
  | .bool b, h, fuel, rest, _, hfuel => by
    obtain ⟨fuel, rfl⟩ := fuel_pos h hfuel
    cases b <;> exact ⟨.bool _ _ _, rfl⟩
  | .number n, h, fuel, rest, hrest, hfuel => by
    obtain ⟨fuel, rfl⟩ := fuel_pos h hfuel
    exact value_number h fuel hrest
  | .text s, h, fuel, rest, _, hfuel => by
    obtain ⟨fuel, rfl⟩ := fuel_pos h hfuel
    have hquote : isBlank '"' = false := by decide
    have htext : (Json.text s).print ++ rest =
        '"' :: (s.toList.flatMap escaped ++ '"' :: rest) := by
      simp only [print, printText, List.cons_append, List.append_assoc, List.nil_append]
    rw [htext]
    simp only [Doc.value, skipBlank_cons hquote, Char.reduceEq, Char.reduceIsDigit,
      Bool.false_eq_true, if_false, if_true, Doc.ofText, scanText_printed]
    exact ⟨.text _ _ _, rfl⟩
  | .array items, h, fuel, rest, _, hfuel => by
    obtain ⟨fuel, rfl⟩ := fuel_pos h hfuel
    have hbracket : isBlank '[' = false := by decide
    have htext : (Json.array items).print ++ rest =
        '[' :: (itemsText true items ++ ']' :: rest) := by
      simp only [print, printItems_eq, List.cons_append, List.append_assoc, List.nil_append]
    have hlength := congrArg List.length htext
    simp only [List.length_append, List.length_cons] at hlength
    obtain ⟨docs, hdocs, hspell⟩ :=
      itemsFrom_printed items h true (show _ ≤ fuel by omega) rest
    rw [htext]
    simp only [Doc.value, skipBlank_cons hbracket, Char.reduceEq, Char.reduceIsDigit,
      Bool.false_eq_true, if_false, if_true, hdocs]
    exact ⟨.array _ _ hspell, rfl⟩
  | .object members, h, fuel, rest, _, hfuel => by
    obtain ⟨fuel, rfl⟩ := fuel_pos h hfuel
    have hbracket : isBlank '\x7b' = false := by decide
    have htext : (Json.object members).print ++ rest =
        '\x7b' :: (membersText true members ++ '\x7d' :: rest) := by
      simp only [print, printMembers_eq, List.cons_append, List.append_assoc, List.nil_append]
    have hlength := congrArg List.length htext
    simp only [List.length_append, List.length_cons] at hlength
    obtain ⟨docs, hdocs, hspell⟩ :=
      membersFrom_printed members h true (show _ ≤ fuel by omega) rest
    rw [htext]
    simp only [Doc.value, skipBlank_cons hbracket, Char.reduceEq, Char.reduceIsDigit,
      Bool.false_eq_true, if_false, if_true, hdocs]
    exact ⟨.object _ _ hspell, rfl⟩

/-- Printed items are made out as what comes back of them, up to the bracket. -/
theorem itemsFrom_printed : ∀ (items : List Json), SignedItems items → ∀ (first : Bool) {fuel : Nat},
    2 * (itemsText first items).length + 1 ≤ fuel → ∀ rest : List Char,
    ∃ docs, Doc.itemsFrom fuel first (itemsText first items ++ ']' :: rest) = (docs, .closed rest) ∧
      ItemsSpell docs (backItems items)
  | [], _, first, fuel + 1, _, rest => by
    refine ⟨[], ?_, .nil⟩
    show Doc.itemsFrom (fuel + 1) first (']' :: rest) = _
    simp only [Doc.itemsFrom, nextItem_close]
  | j :: items, h, first, fuel + 1, hfuel, rest => by
    have hlength : (itemsText first (j :: items)).length =
        (comma first).length + (j.print.length + (itemsText false items).length) := by
      simp only [itemsText, List.length_append]
    -- An item has a character at least, so its two units of fuel pay for the step to the next one.
    have hpos : 0 < j.print.length := length_print_pos h.1
    obtain ⟨docs, hdocs, hspell⟩ :=
      itemsFrom_printed items h.2 false (show _ ≤ fuel by omega) rest
    have hitem := value_printed j h.1 (stops_itemsText items rest) (show _ ≤ fuel by omega)
    obtain ⟨docs', hdocs', hspell'⟩ := itemsFrom_cons first h.1 hitem hdocs hspell
    refine ⟨docs', ?_, hspell'⟩
    rw [itemsText, List.append_assoc, List.append_assoc]
    exact hdocs'

/-- Printed members are made out as what comes back of them, up to the bracket. -/
theorem membersFrom_printed : ∀ (members : List (String × Json)), SignedMembers members →
    ∀ (first : Bool) {fuel : Nat}, 2 * (membersText first members).length + 1 ≤ fuel →
    ∀ rest : List Char,
    ∃ docs, Doc.membersFrom fuel first (membersText first members ++ '\x7d' :: rest) =
      (docs, .closed rest) ∧ MembersSpell docs (backMembers members)
  | [], _, first, fuel + 1, _, rest => by
    refine ⟨[], ?_, .nil⟩
    show Doc.membersFrom (fuel + 1) first ('\x7d' :: rest) = _
    simp only [Doc.membersFrom, nextMember_close]
  | (name, j) :: members, h, first, fuel + 1, hfuel, rest => by
    have hlength : (membersText first ((name, j) :: members)).length =
        (comma first).length + ((printText name).length +
          (j.print.length + 1 + (membersText false members).length)) := by
      simp only [membersText, List.length_append, List.length_cons]
    obtain ⟨docs, hdocs, hspell⟩ :=
      membersFrom_printed members h.2 false (show _ ≤ fuel by omega) rest
    have hitem := value_printed j h.1 (stops_membersText members rest) (show _ ≤ fuel by omega)
    obtain ⟨docs', hdocs', hspell'⟩ :=
      membersFrom_cons first name hitem hdocs hspell
    refine ⟨docs', ?_, hspell'⟩
    rw [membersText, List.append_assoc, List.append_assoc, List.append_assoc]
    exact hdocs'

end

end Lineage.Json
