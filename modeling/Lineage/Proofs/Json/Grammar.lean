import Lineage.Proofs.Json.Written
import Mathlib.Data.List.Forall2
/-
  The grammar of JSON.

  What a value may be written as, whatever is read of it (`IsValue`): its numbers can be too large
  to be read, its texts can hold half of a surrogate pair, and its arrays and objects can stand
  deeper inside each other than a reader goes.

  A value that is written so is made out wherever it stands, up to its end, and what is made out
  depends on nothing around it: one who does not want it can skip it, and it is the document of the
  values that it is the document of when it stands alone (`placed_of_isValue`).  The induction is on
  the derivation.  An array or object is made out part by part, so for any property that its parts
  have where they stand, it has parts with that property (`placed_array`, `placed_object`).
-/

namespace Lineage.Json

/-! ## Values -/

mutual

/-- What a value may be written as. -/
inductive IsValue : List Char → Prop
  | null : IsValue ['n', 'u', 'l', 'l']
  | true : IsValue ['t', 'r', 'u', 'e']
  | false : IsValue ['f', 'a', 'l', 's', 'e']
  | number (negative : Bool) {text : List Char} {p : NumberParts} (h : NumberText text p) :
    IsValue (minus negative ++ text)
  | text {body : List Char} (h : TextBody body) : IsValue ('"' :: (body ++ ['"']))
  | array {inside : List Char} {items : List (List Char)} (h : Items true inside items) :
    IsValue ('[' :: (inside ++ [']']))
  | object {inside : List Char} {members : List (List Char × List Char)}
      (h : Members true inside members) : IsValue ('\x7b' :: (inside ++ ['\x7d']))

/-- What the items of an array may be written as, from the first one on or behind others, and what
is written for each of them. -/
inductive Items : Bool → List Char → List (List Char) → Prop
  | done {first : Bool} {blanks : List Char} (h : Blank blanks) : Items first blanks []
  | item {first : Bool} {parting v more : List Char} {items : List (List Char)}
      (hparting : Parting first parting) (hvalue : IsValue v) (h : Items false more items) :
    Items first (parting ++ (v ++ more)) (v :: items)

/-- What the members of an object may be written as, and what is written between the quotes of the
name and for the value of each of them. -/
inductive Members : Bool → List Char → List (List Char × List Char) → Prop
  | done {first : Bool} {blanks : List Char} (h : Blank blanks) : Members first blanks []
  | member {first : Bool} {parting name gap behind v more : List Char}
      {members : List (List Char × List Char)} (hparting : Parting first parting)
      (hname : TextBody name) (hgap : Blank gap) (hbehind : Blank behind) (hvalue : IsValue v)
      (h : Members false more members) :
    Members first (parting ++ '"' :: (name ++ '"' :: (gap ++ ':' :: (behind ++ (v ++ more)))))
      ((name, v) :: members)

end

/-- A value begins with a character that a part can begin with. -/
theorem IsValue.eq_cons {v : List Char} (h : IsValue v) : ∃ c cs, v = c :: cs ∧ Begins c := by
  cases h with
  | null => exact ⟨_, _, rfl, by decide, by decide⟩
  | true => exact ⟨_, _, rfl, by decide, by decide⟩
  | false => exact ⟨_, _, rfl, by decide, by decide⟩
  | text _ => exact ⟨_, _, rfl, by decide, by decide⟩
  | array _ => exact ⟨_, _, rfl, by decide, by decide⟩
  | object _ => exact ⟨_, _, rfl, by decide, by decide⟩
  | number negative h =>
    cases negative with
    | true => exact ⟨_, _, rfl, by decide, by decide⟩
    | false =>
      obtain ⟨c, rest, rfl, hc⟩ := h.eq_cons
      exact ⟨c, rest, rfl, begins_of_isDigit hc⟩

theorem IsValue.length_pos {v : List Char} (h : IsValue v) : 0 < v.length := by
  obtain ⟨c, cs, rfl, -⟩ := h.eq_cons
  exact Nat.succ_pos cs.length

/-! ## What follows a value -/

theorem stops_nil : Stops [] := fun _ h => nomatch h

/-- A number stops at blanks. -/
theorem stops_blank {blanks rest : List Char} (h : Blank blanks) (hrest : Stops rest) :
    Stops (blanks ++ rest) := by
  cases blanks with
  | nil => exact hrest
  | cons c blanks =>
    have hc : isBlank c = true := List.all_eq_true.mp h c List.mem_cons_self
    simp only [isBlank, Bool.or_eq_true, decide_eq_true_iff] at hc
    intro d hd
    obtain rfl : c = d := Option.some.inj hd
    rcases hc with ((rfl | rfl) | rfl) | rfl <;> decide

theorem stops_parting {parting rest : List Char} (h : Parting false parting) :
    Stops (parting ++ rest) := by
  obtain ⟨before, behind, hbefore, -, rfl⟩ := h
  rw [List.append_assoc]
  exact stops_blank hbefore (stops_cons (.inl rfl) _)

theorem Items.stops {more : List Char} {items : List (List Char)} (h : Items false more items)
    (rest : List Char) : Stops (more ++ ']' :: rest) := by
  cases h with
  | done h => exact stops_blank h (stops_cons (.inr (.inl rfl)) rest)
  | item hparting _ _ =>
    rw [List.append_assoc]
    exact stops_parting hparting

theorem Members.stops {more : List Char} {members : List (List Char × List Char)}
    (h : Members false more members) (rest : List Char) : Stops (more ++ '\x7d' :: rest) := by
  cases h with
  | done h => exact stops_blank h (stops_cons (.inr (.inr rfl)) rest)
  | member hparting _ _ _ _ _ =>
    rw [List.append_assoc]
    exact stops_parting hparting

/-! ## Where a value stands -/

/-- Wherever the value stands, it is made out up to its end, and what is made out is as the
predicate says. -/
def Placed (Q : Doc → Prop) (v : List Char) : Prop :=
  ∀ (fuel : Nat) (rest : List Char), Stops rest → 2 * v.length ≤ fuel →
    (Doc.value fuel (v ++ rest)).outcome = .ok rest ∧ Q (Doc.value fuel (v ++ rest))

theorem Placed.imp {Q R : Doc → Prop} {v : List Char} (h : Placed Q v) (hQR : ∀ doc, Q doc → R doc) :
    Placed R v := by
  intro fuel rest hrest hfuel
  obtain ⟨hout, hQ⟩ := h fuel rest hrest hfuel
  exact ⟨hout, hQR _ hQ⟩

/-- Blanks in front of a value are of no account. -/
theorem value_blank {blanks : List Char} (h : Blank blanks) (fuel : Nat) (cs : List Char) :
    Doc.value (fuel + 1) (blanks ++ cs) = Doc.value (fuel + 1) cs := by
  simp only [Doc.value, skipBlank_append h]

theorem nextItem_of_parting {first : Bool} {parting : List Char} (h : Parting first parting)
    {c : Char} (hc : Begins c) (rest : List Char) :
    Doc.nextItem first (parting ++ c :: rest) = .part (c :: rest) := by
  cases first with
  | true =>
    have hskip : skipBlank (parting ++ c :: rest) = c :: rest :=
      (skipBlank_eq_cons_iff hc.1).mpr ⟨parting, h, rfl⟩
    simp only [Doc.nextItem, hskip, if_neg hc.2, if_true]
  | false =>
    obtain ⟨before, behind, hbefore, hbehind, rfl⟩ := h
    have hcomma : isBlank ',' = false := by decide
    have hskip : skipBlank (before ++ ',' :: behind ++ c :: rest) = ',' :: (behind ++ c :: rest) :=
      (skipBlank_eq_cons_iff hcomma).mpr ⟨before, hbefore, List.append_assoc ..⟩
    have hskip' : skipBlank (behind ++ c :: rest) = c :: rest :=
      (skipBlank_eq_cons_iff hc.1).mpr ⟨behind, hbehind, rfl⟩
    simp only [Doc.nextItem, hskip, hskip', if_neg hc.2, Char.reduceEq, Bool.false_eq_true,
      if_false, if_true]

theorem nextItem_eq_closed_iff {first : Bool} {cs stop : List Char} :
    Doc.nextItem first cs = .finish (.closed stop) ↔
      ∃ blanks, Blank blanks ∧ cs = blanks ++ ']' :: stop := by
  have hbracket : isBlank ']' = false := by decide
  rw [← skipBlank_eq_cons_iff hbracket]
  constructor
  · intro h
    unfold Doc.nextItem at h
    split at h
    · cases h
    · rename_i c rest hskip
      split_ifs at h with hc
      · cases h
        exact hc ▸ hskip
      · split at h
        · cases h
        · split_ifs at h
          cases h
      · cases h
  · intro h
    simp only [Doc.nextItem, h, if_true]

/-- Items are made out up to the bracket, each as it is wherever it stands. -/
theorem itemsFrom_of_items {Q : List Char → Doc → Prop} : ∀ {first : Bool} {text : List Char}
    {items : List (List Char)}, Items first text items → (∀ v ∈ items, Placed (Q v) v) →
    ∀ {fuel : Nat}, 2 * text.length + 1 ≤ fuel → ∀ rest, ∃ docs,
      Doc.itemsFrom fuel first (text ++ ']' :: rest) = (docs, .closed rest) ∧
        List.Forall₂ Q items docs
  | first, _, _, .done hblanks, _, fuel + 1, _, rest => by
    have hnext : Doc.nextItem first _ = .finish (.closed rest) :=
      nextItem_eq_closed_iff.mpr ⟨_, hblanks, rfl⟩
    refine ⟨[], ?_, .nil⟩
    simp only [Doc.itemsFrom, hnext]
  | first, _, _, @Items.item _ parting v more items hparting hvalue h, hplaced, fuel + 1, hfuel,
    rest => by
    simp only [List.length_append] at hfuel
    have hpos := hvalue.length_pos
    obtain ⟨docs, hdocs, hall⟩ := itemsFrom_of_items h
      (fun w hw => hplaced w (List.mem_cons_of_mem v hw)) (show _ ≤ fuel by omega) rest
    obtain ⟨hout, hQ⟩ := hplaced v List.mem_cons_self fuel _ (h.stops rest) (by omega)
    refine ⟨_, ?_, .cons hQ hall⟩
    obtain ⟨c, cs, rfl, hc⟩ := hvalue.eq_cons
    rw [List.append_assoc, List.append_assoc]
    rw [List.cons_append] at hout ⊢
    simp only [Doc.itemsFrom, nextItem_of_parting hparting hc, hout, hdocs]

/-- A text between quotes is made out up to its closing quote, and as what it stands for. -/
theorem scanText_of_textBody {body : List Char} (h : TextBody body) (stop : List Char) :
    ∃ value, Doc.scanText (body ++ '"' :: stop) = .ok (value, stop) ∧
      ∀ s, value = .ok s ↔ Quoted body s.toList := by
  have hskip : skipText (body ++ '"' :: stop) = .ok stop := skipText_eq_ok_iff.mpr ⟨body, rfl, h⟩
  obtain ⟨value, hvalue⟩ : ∃ value, Doc.scanText (body ++ '"' :: stop) = .ok (value, stop) := by
    simp only [Doc.scanText, hskip]
    exact ⟨_, rfl⟩
  refine ⟨value, hvalue, fun s => ?_⟩
  constructor
  · rintro rfl
    obtain ⟨written, hwritten, hquoted⟩ := scanText_eq_ok_iff.mp hvalue
    rwa [List.append_cancel_right hwritten]
  · intro hquoted
    have hread : Doc.scanText (body ++ '"' :: stop) = .ok (.ok s, stop) :=
      scanText_eq_ok_iff.mpr ⟨body, rfl, hquoted⟩
    exact (Prod.mk.inj (Except.ok.inj (hvalue.symm.trans hread))).1

/-- What is made out of a member: its name is what is written between the quotes. -/
def MemberOf (Q : List Char → Doc → Prop) (m : List Char × List Char) (d : Key × Doc) : Prop :=
  (∀ s, d.1.text = .ok s ↔ Quoted m.1 s.toList) ∧ Q m.2 d.2

/-- So are members. -/
theorem membersFrom_of_members {Q : List Char → Doc → Prop} : ∀ {first : Bool} {text : List Char}
    {members : List (List Char × List Char)}, Members first text members →
    (∀ m ∈ members, Placed (Q m.2) m.2) →
    ∀ {fuel : Nat}, 2 * text.length + 1 ≤ fuel → ∀ rest, ∃ docs,
      Doc.membersFrom fuel first (text ++ '\x7d' :: rest) = (docs, .closed rest) ∧
        List.Forall₂ (MemberOf Q) members docs
  | first, _, _, .done hblanks, _, fuel + 1, _, rest => by
    have hnext : Doc.nextMember first _ = .finish (.closed rest) :=
      nextMember_eq_closed_iff.mpr ⟨_, hblanks, rfl⟩
    refine ⟨[], ?_, .nil⟩
    simp only [Doc.membersFrom, hnext]
  | first, _, _, @Members.member _ parting name gap behind v more members hparting hname hgap
      hbehind hvalue h, hplaced, fuel + 1, hfuel, rest => by
    simp only [List.length_append, List.length_cons] at hfuel
    have hpos := hvalue.length_pos
    obtain ⟨fuel, rfl⟩ : ∃ less, fuel = less + 1 := ⟨fuel - 1, by omega⟩
    obtain ⟨docs, hdocs, hall⟩ := membersFrom_of_members h
      (fun m hm => hplaced m (List.mem_cons_of_mem _ hm)) (show _ ≤ fuel + 1 by omega) rest
    obtain ⟨hout, hQ⟩ := hplaced (name, v) List.mem_cons_self (fuel + 1) _ (h.stops rest)
      (show 2 * v.length ≤ fuel + 1 by omega)
    -- The rest of the text, from behind the colon on and from behind the name on.
    let behindColon := behind ++ (v ++ (more ++ '\x7d' :: rest))
    let behindName := gap ++ ':' :: behindColon
    obtain ⟨key, hscan, hkey⟩ := scanText_of_textBody hname behindName
    have hnext : Doc.nextMember first (parting ++ '"' :: (name ++ '"' :: behindName)) =
        .part (name ++ '"' :: behindName) := nextMember_eq_part_iff.mpr ⟨parting, hparting, rfl⟩
    have hcolon : isBlank ':' = false := by decide
    have hskip : skipBlank behindName = ':' :: behindColon :=
      (skipBlank_eq_cons_iff hcolon).mpr ⟨gap, hgap, rfl⟩
    have hblank : Doc.value (fuel + 1) behindColon =
        Doc.value (fuel + 1) (v ++ (more ++ '\x7d' :: rest)) := value_blank hbehind fuel _
    rw [← hblank] at hout hQ
    have hmembers := membersFrom_member hnext hscan hskip hout hdocs
    refine ⟨(⟨key, ':' :: behindColon⟩, Doc.value (fuel + 1) behindColon) :: docs, ?_,
      .cons ⟨hkey, hQ⟩ hall⟩
    rw [← hmembers]
    simp only [behindName, behindColon, List.append_assoc, List.cons_append]

/-- An array is made out with its items. -/
theorem placed_array {Q : List Char → Doc → Prop} {inside : List Char} {items : List (List Char)}
    (h : Items true inside items) (hitems : ∀ v ∈ items, Placed (Q v) v) :
    Placed (fun doc => ∃ start docs stop, doc = .array start docs (.closed stop) ∧
      List.Forall₂ Q items docs) ('[' :: (inside ++ [']'])) := by
  intro fuel rest hrest hfuel
  simp only [List.length_cons, List.length_append] at hfuel
  obtain ⟨fuel, rfl⟩ : ∃ less, fuel = less + 1 := ⟨fuel - 1, by omega⟩
  obtain ⟨docs, hdocs, hall⟩ := itemsFrom_of_items h hitems (show _ ≤ fuel by omega) rest
  have hbracket : isBlank '[' = false := by decide
  have htext : '[' :: (inside ++ [']']) ++ rest = '[' :: (inside ++ ']' :: rest) := by
    simp only [List.cons_append, List.append_assoc, List.nil_append]
  have hvalue : Doc.value (fuel + 1) ('[' :: (inside ++ [']']) ++ rest) =
      .array ('[' :: (inside ++ ']' :: rest)) docs (.closed rest) := by
    simp only [htext, Doc.value, skipBlank_cons hbracket, Char.reduceEq, Char.reduceIsDigit,
      Bool.false_eq_true, if_false, if_true, hdocs]
  rw [hvalue]
  exact ⟨rfl, _, docs, rest, rfl, hall⟩

/-- An object is made out with its members. -/
theorem placed_object {Q : List Char → Doc → Prop} {inside : List Char}
    {members : List (List Char × List Char)} (h : Members true inside members)
    (hmembers : ∀ m ∈ members, Placed (Q m.2) m.2) :
    Placed (fun doc => ∃ start docs stop, doc = .object start docs (.closed stop) ∧
      List.Forall₂ (MemberOf Q) members docs) ('\x7b' :: (inside ++ ['\x7d'])) := by
  intro fuel rest hrest hfuel
  simp only [List.length_cons, List.length_append] at hfuel
  obtain ⟨fuel, rfl⟩ : ∃ less, fuel = less + 1 := ⟨fuel - 1, by omega⟩
  obtain ⟨docs, hdocs, hall⟩ := membersFrom_of_members h hmembers (show _ ≤ fuel by omega) rest
  have hbracket : isBlank '\x7b' = false := by decide
  have htext : '\x7b' :: (inside ++ ['\x7d']) ++ rest = '\x7b' :: (inside ++ '\x7d' :: rest) := by
    simp only [List.cons_append, List.append_assoc, List.nil_append]
  have hvalue : Doc.value (fuel + 1) ('\x7b' :: (inside ++ ['\x7d']) ++ rest) =
      .object ('\x7b' :: (inside ++ '\x7d' :: rest)) docs (.closed rest) := by
    simp only [htext, Doc.value, skipBlank_cons hbracket, Char.reduceEq, Char.reduceIsDigit,
      Bool.false_eq_true, if_false, if_true, hdocs]
  rw [hvalue]
  exact ⟨rfl, _, docs, rest, rfl, hall⟩

/-! ## What is made out of a value -/

/-- What is made out of a value: it can be skipped, and is the document of what it is the document
of when the value stands alone. -/
def Doc.IsOf (v : List Char) (doc : Doc) : Prop :=
  doc.skip = .ok () ∧ ∀ j, doc.Spells j ↔ (ofChars v).Spells j

/-- It is enough that everywhere the same values are made out. -/
theorem placed_isOf {v : List Char} (P : Json → Prop)
    (h : Placed (fun doc => doc.skip = .ok () ∧ ∀ j, doc.Spells j ↔ P j) v) :
    Placed (Doc.IsOf v) v := by
  have halone := (h (2 * v.length + 2) [] stops_nil (by omega)).2.2
  rw [List.append_nil] at halone
  exact h.imp fun doc hdoc => ⟨hdoc.1, fun j => (hdoc.2 j).trans (halone j).symm⟩

section Parts

variable {start stop : List Char} {items : List (List Char)} {docs : List Doc}
  {members : List (List Char × List Char)} {memberDocs : List (Key × Doc)}

theorem skipItems_of_isOf (h : List.Forall₂ Doc.IsOf items docs) : Doc.skipItems docs = .ok () := by
  induction h with
  | nil => rfl
  | @cons v doc items docs hdoc _ ih =>
    show (doc.skip).bind _ = _
    rw [hdoc.1]
    exact ih

theorem skipMembers_of_isOf (h : List.Forall₂ (MemberOf Doc.IsOf) members memberDocs) :
    Doc.skipMembers memberDocs = .ok () := by
  induction h with
  | nil => rfl
  | @cons m d members docs hd _ ih =>
    show (d.2.skip).bind _ = _
    rw [hd.2.1]
    exact ih

theorem itemsSpell_iff (h : List.Forall₂ Doc.IsOf items docs) {js : List Json} :
    ItemsSpell docs js ↔ List.Forall₂ (fun v j => (Doc.ofChars v).Spells j) items js := by
  induction h generalizing js with
  | nil =>
    constructor
    · rintro ⟨⟩
      exact .nil
    · rintro ⟨⟩
      exact .nil
  | cons hdoc _ ih =>
    constructor
    · intro hspells
      cases hspells with
      | cons hj hrest => exact .cons ((hdoc.2 _).mp hj) (ih.mp hrest)
    · intro hall
      cases hall with
      | cons hj hrest => exact .cons ((hdoc.2 _).mpr hj) (ih.mpr hrest)

/-- Whatever tells the names of the members, and what is written for their values. -/
theorem membersSpell_iff {β : Type} {ms : List β} (named : β → String → Prop)
    (written : β → List Char) (h : List.Forall₂ (fun m d => (∀ s, d.1.text = .ok s ↔ named m s) ∧
      d.2.IsOf (written m)) ms memberDocs) {js : List (String × Json)} :
    MembersSpell memberDocs js ↔
      List.Forall₂ (fun m x => named m x.1 ∧ (Doc.ofChars (written m)).Spells x.2) ms js := by
  induction h generalizing js with
  | nil =>
    constructor
    · rintro ⟨⟩
      exact .nil
    · rintro ⟨⟩
      exact .nil
  | @cons m d ms docs hd _ ih =>
    constructor
    · intro hspells
      cases hspells with
      | cons name gap hj hrest =>
        exact .cons ⟨(hd.1 name).mp rfl, (hd.2.2 _).mp hj⟩ (ih.mp hrest)
    · intro hall
      cases hall with
      | @cons _ x _ xs hx hrest =>
        obtain ⟨⟨key, gap⟩, doc⟩ := d
        obtain rfl : key = .ok x.1 := (hd.1 x.1).mpr hx.1
        exact .cons x.1 gap ((hd.2.2 _).mpr hx.2) (ih.mpr hrest)

theorem isOf_array (h : List.Forall₂ Doc.IsOf items docs) :
    (Doc.array start docs (.closed stop)).skip = .ok () ∧
      ∀ j, (Doc.array start docs (.closed stop)).Spells j ↔
        ∃ js, List.Forall₂ (fun v k => (Doc.ofChars v).Spells k) items js ∧ j = .array js := by
  constructor
  · show (Doc.skipItems docs).bind _ = _
    rw [skipItems_of_isOf h]
    rfl
  · intro j
    constructor
    · intro hspells
      cases hspells with
      | array _ _ hitems => exact ⟨_, (itemsSpell_iff h).mp hitems, rfl⟩
    · rintro ⟨js, hall, rfl⟩
      exact .array start stop ((itemsSpell_iff h).mpr hall)

theorem isOf_object (h : List.Forall₂ (MemberOf Doc.IsOf) members memberDocs) :
    (Doc.object start memberDocs (.closed stop)).skip = .ok () ∧
      ∀ j, (Doc.object start memberDocs (.closed stop)).Spells j ↔
        ∃ js, List.Forall₂ (fun m x => Quoted m.1 x.1.toList ∧ (Doc.ofChars m.2).Spells x.2)
          members js ∧ j = .object js := by
  have hiff : ∀ js, MembersSpell memberDocs js ↔ _ := fun js =>
    membersSpell_iff (fun m s => Quoted m.1 s.toList) Prod.snd h
  constructor
  · show (Doc.skipMembers memberDocs).bind _ = _
    rw [skipMembers_of_isOf h]
    rfl
  · intro j
    constructor
    · intro hspells
      cases hspells with
      | object _ _ hmembers => exact ⟨_, (hiff _).mp hmembers, rfl⟩
    · rintro ⟨js, hall, rfl⟩
      exact .object start stop ((hiff js).mpr hall)

end Parts

/-- A word is made out everywhere as what it stands for. -/
theorem placed_word {v : List Char} {j : Json} (hv : 0 < v.length)
    (h : ∀ fuel rest, (Doc.value (fuel + 1) (v ++ rest)).SpellsUpTo j rest) :
    Placed (Doc.IsOf v) v := by
  refine placed_isOf (fun k => k = j) fun fuel rest _ hfuel => ?_
  obtain ⟨fuel, rfl⟩ : ∃ less, fuel = less + 1 := ⟨fuel - 1, by omega⟩
  obtain ⟨hspells, hout⟩ := h fuel rest
  refine ⟨hout, skip_of_spells hspells, fun k => ⟨fun hk => hk.unique hspells, ?_⟩⟩
  rintro rfl
  exact hspells

theorem scaled_eq_ok {negative : Bool} {n : Nat} {k : Int} {stop other : List Char} {m : Number}
    (h : scaled negative n k stop = .ok m) : scaled negative n k other = .ok m := by
  unfold scaled at h ⊢
  split at h
  · exact h
  · cases h

/-- What follows a number is told by its troubles only. -/
theorem number_eq_ok {p : NumberParts} {negative : Bool} {stop other : List Char} {n : Number}
    (h : p.number negative stop = .ok n) : p.number negative other = .ok n := by
  obtain ⟨whole, fraction, exponent⟩ := p
  cases exponent with
  | none =>
    simp only [NumberParts.number] at h ⊢
    split_ifs at h ⊢
    · exact h
    · exact scaled_eq_ok h
  | some e =>
    simp only [NumberParts.number] at h ⊢
    split at h
    · exact scaled_eq_ok h
    · split_ifs at h ⊢
      exact h

theorem spells_number_iff {start stop : List Char} {p : NumberParts} {negative : Bool} {j : Json} :
    (Doc.number start (p.number negative stop) stop).Spells j ↔
      ∃ n, p.number negative [] = .ok n ∧ j = .number n := by
  constructor
  · intro h
    cases hvalue : p.number negative stop with
    | error t =>
      rw [hvalue] at h
      cases h
    | ok n =>
      rw [hvalue] at h
      cases h
      exact ⟨n, number_eq_ok hvalue, rfl⟩
  · rintro ⟨n, hvalue, rfl⟩
    rw [number_eq_ok hvalue]
    exact .number start stop n

/-- A number is made out everywhere as the same one, or as too large. -/
theorem placed_number (negative : Bool) {text : List Char} {p : NumberParts}
    (h : NumberText text p) : Placed (Doc.IsOf (minus negative ++ text)) (minus negative ++ text) := by
  refine placed_isOf (fun j => ∃ n, p.number negative [] = .ok n ∧ j = .number n) ?_
  intro fuel rest hrest hfuel
  obtain ⟨c, cs, htext, -⟩ := h.eq_cons
  have hlength : 0 < (minus negative ++ text).length := by
    rw [htext, List.length_append, List.length_cons]
    omega
  obtain ⟨fuel, rfl⟩ : ∃ less, fuel = less + 1 := ⟨fuel - 1, by omega⟩
  obtain ⟨start, hvalue⟩ := value_of_numberText negative h fuel hrest
  rw [List.append_assoc, hvalue]
  exact ⟨rfl, rfl, fun j => spells_number_iff⟩

/-- A text is made out everywhere as what it stands for, if it stands for something. -/
theorem placed_text {body : List Char} (h : TextBody body) :
    Placed (Doc.IsOf ('"' :: (body ++ ['"']))) ('"' :: (body ++ ['"'])) := by
  refine placed_isOf (fun j => ∃ s : String, Quoted body s.toList ∧ j = .text s) ?_
  intro fuel rest hrest hfuel
  rw [List.length_cons] at hfuel
  obtain ⟨fuel, rfl⟩ : ∃ less, fuel = less + 1 := ⟨fuel - 1, by omega⟩
  obtain ⟨value, hscan, hvalue⟩ := scanText_of_textBody h rest
  have hquote : isBlank '"' = false := by decide
  have htext : '"' :: (body ++ ['"']) ++ rest = '"' :: (body ++ '"' :: rest) := by
    simp only [List.cons_append, List.append_assoc, List.nil_append]
  have hdoc : Doc.value (fuel + 1) ('"' :: (body ++ ['"']) ++ rest) =
      .text ('"' :: (body ++ '"' :: rest)) value rest := by
    simp only [htext, Doc.value, skipBlank_cons hquote, Char.reduceEq, Char.reduceIsDigit,
      Bool.false_eq_true, if_false, if_true, Doc.ofText, hscan]
  rw [hdoc]
  refine ⟨rfl, rfl, fun j => ?_⟩
  constructor
  · intro hspells
    cases hspells with
    | text _ _ s => exact ⟨s, (hvalue s).mp rfl, rfl⟩
  · rintro ⟨s, hs, rfl⟩
    rw [(hvalue s).mpr hs]
    exact .text _ _ s

mutual

/-- **A value is made out up to its end and as the same wherever it stands.** -/
theorem placed_of_isValue : ∀ {v : List Char}, IsValue v → Placed (Doc.IsOf v) v
  | _, .null => placed_word (by decide) fun _ _ => ⟨.null _ _, rfl⟩
  | _, .true => placed_word (by decide) fun _ _ => ⟨.bool _ _ true, rfl⟩
  | _, .false => placed_word (by decide) fun _ _ => ⟨.bool _ _ false, rfl⟩
  | _, .number negative h => placed_number negative h
  | _, .text h => placed_text h
  | _, @IsValue.array inside items h => by
    refine placed_isOf (fun j => ∃ js, List.Forall₂ (fun v k => (Doc.ofChars v).Spells k) items js ∧
      j = .array js) ((placed_array h (placed_of_items h)).imp ?_)
    rintro _ ⟨start, docs, stop, rfl, hall⟩
    exact isOf_array hall
  | _, @IsValue.object inside members h => by
    refine placed_isOf (fun j => ∃ js, List.Forall₂ (fun m x => Quoted m.1 x.1.toList ∧
      (Doc.ofChars m.2).Spells x.2) members js ∧ j = .object js)
      ((placed_object h (placed_of_members h)).imp ?_)
    rintro _ ⟨start, docs, stop, rfl, hall⟩
    exact isOf_object hall

theorem placed_of_items : ∀ {first : Bool} {text : List Char} {items : List (List Char)},
    Items first text items → ∀ v ∈ items, Placed (Doc.IsOf v) v
  | _, _, _, .done _ => fun _ hv => nomatch hv
  | _, _, _, .item _ hvalue h => by
    have hfirst := placed_of_isValue hvalue
    have hothers := placed_of_items h
    exact List.forall_mem_cons.mpr ⟨hfirst, hothers⟩

theorem placed_of_members : ∀ {first : Bool} {text : List Char}
    {members : List (List Char × List Char)}, Members first text members →
    ∀ m ∈ members, Placed (Doc.IsOf m.2) m.2
  | _, _, _, .done _ => fun _ hm => nomatch hm
  | _, _, _, .member _ _ _ _ hvalue h => by
    have hfirst := placed_of_isValue hvalue
    have hothers := placed_of_members h
    exact List.forall_mem_cons.mpr ⟨hfirst, hothers⟩

end

/-! ## Whole texts -/

/-- The value is an object, with these names and this written for the values of its members. -/
def ObjectOf (v : String) (members : List (String × String)) : Prop :=
  ∃ inside raw, v.toList = '\x7b' :: (inside ++ ['\x7d']) ∧ Members true inside raw ∧
    List.Forall₂ (fun r m => Quoted r.1 m.1.toList ∧ r.2 = m.2.toList) raw members

/-- The value is an array, with this written for its items. -/
def ArrayOf (v : String) (items : List String) : Prop :=
  ∃ inside, v.toList = '[' :: (inside ++ [']']) ∧ Items true inside (items.map String.toList)

/-- The text is the value, and nothing else but blanks. -/
def Surrounds (text v : String) : Prop :=
  ∃ before behind, Blank before ∧ Blank behind ∧ text.toList = before ++ (v.toList ++ behind)

/-- The text is an object with these members. -/
def ObjectText (text : String) (members : List (String × String)) : Prop :=
  ∃ v, Surrounds text v ∧ ObjectOf v members

/-- The text is an array with these items. -/
def ArrayText (text : String) (items : List String) : Prop :=
  ∃ v, Surrounds text v ∧ ArrayOf v items

/-- What is made out of a member with this name and value. -/
def NamedOf (m : String × String) (d : Key × Doc) : Prop :=
  d.1.text = .ok m.1 ∧ d.2.IsOf m.2.toList

/-- What is made out of an object with these members. -/
def Doc.HasMembers (doc : Doc) (members : List (String × String)) : Prop :=
  ∃ start docs stop, doc = .object start docs (.closed stop) ∧ List.Forall₂ NamedOf members docs

/-- What is made out of an array with these items, some of them objects. -/
def Doc.HasItems (doc : Doc) (items : List String) : Prop :=
  ∃ start docs stop, doc = .array start docs (.closed stop) ∧
    List.Forall₂ (fun v d => ∀ members, ObjectOf v members → Doc.HasMembers d members) items docs

theorem namedOf_of_memberOf {raw : List (List Char × List Char)} {members : List (String × String)}
    (h : List.Forall₂ (fun r m => Quoted r.1 m.1.toList ∧ r.2 = m.2.toList) raw members) :
    ∀ {docs : List (Key × Doc)}, List.Forall₂ (MemberOf Doc.IsOf) raw docs →
      List.Forall₂ NamedOf members docs := by
  induction h with
  | nil =>
    rintro _ ⟨⟩
    exact .nil
  | @cons r m raw members hm _ ih =>
    intro docs hdocs
    cases hdocs with
    | cons hd hrest => exact .cons ⟨(hd.1 m.1).mpr hm.1, hm.2 ▸ hd.2⟩ (ih hrest)

theorem ObjectOf.placed {v : String} {members : List (String × String)} (h : ObjectOf v members) :
    Placed (fun doc => doc.HasMembers members) v.toList := by
  obtain ⟨inside, raw, hv, hinside, hnames⟩ := h
  rw [hv]
  refine (placed_object hinside (placed_of_members hinside)).imp ?_
  rintro _ ⟨start, docs, stop, rfl, hall⟩
  exact ⟨start, docs, stop, rfl, namedOf_of_memberOf hnames hall⟩

theorem ArrayOf.placed {v : String} {items : List String} (h : ArrayOf v items) :
    Placed (fun doc => doc.HasItems items) v.toList := by
  obtain ⟨inside, hv, hinside⟩ := h
  have hplaced : ∀ w ∈ items.map String.toList, Placed (fun doc => ∀ u : String, u.toList = w →
      ∀ members, ObjectOf u members → doc.HasMembers members) w := by
    intro w hw fuel rest hrest hfuel
    refine ⟨(placed_of_items hinside w hw fuel rest hrest hfuel).1, ?_⟩
    rintro u rfl members hmembers
    exact (hmembers.placed fuel rest hrest hfuel).2
  rw [hv]
  refine (placed_array hinside hplaced).imp ?_
  rintro _ ⟨start, docs, stop, rfl, hall⟩
  refine ⟨start, docs, stop, rfl, (List.forall₂_map_left_iff.mp hall).imp ?_⟩
  exact fun u doc hdoc => hdoc u rfl

/-- What is made out of a text is what is made out of its value, and nothing but blanks stands
behind it. -/
theorem Surrounds.ofChars {text v : String} (h : Surrounds text v) {Q : Doc → Prop}
    (hplaced : Placed Q v.toList) : Q (Doc.ofChars text.toList) ∧
      ∃ stop, (Doc.ofChars text.toList).outcome = .ok stop ∧ (skipBlank stop).isEmpty = true := by
  obtain ⟨before, behind, hbefore, hbehind, htext⟩ := h
  have hstops : Stops behind := List.append_nil behind ▸ stops_blank hbehind stops_nil
  have hlength : v.toList.length ≤ text.toList.length := by
    rw [htext, List.length_append, List.length_append]
    omega
  have hvalue : Doc.ofChars text.toList =
      Doc.value (2 * text.toList.length + 2) (v.toList ++ behind) := by
    rw [← value_blank hbefore, ← htext]
    rfl
  obtain ⟨hout, hQ⟩ := hplaced (2 * text.toList.length + 2) behind hstops (by omega)
  rw [hvalue]
  exact ⟨hQ, behind, hout, isEmpty_skipBlank_iff.mpr hbehind⟩

section Texts

variable {text : String}

/-- A text that is an object is read as what is made out of its members. -/
theorem ObjectText.readWith_eq_ok {members : List (String × String)} (h : ObjectText text members) :
    ∃ doc : Doc, doc.HasMembers members ∧
      ∀ {α : Type} {reader : Doc → Except Trouble α} {a : α},
        readWith reader text = .ok a ↔ reader doc = .ok a := by
  obtain ⟨v, hv, hmembers⟩ := h
  obtain ⟨hdoc, hstop⟩ := hv.ofChars hmembers.placed
  exact ⟨_, hdoc, Json.readWith_eq_ok.trans (and_iff_left hstop)⟩

/-- A text that is an array is read as what is made out of its items. -/
theorem ArrayText.readWith_eq_ok {items : List String} (h : ArrayText text items) :
    ∃ doc : Doc, doc.HasItems items ∧
      ∀ {α : Type} {reader : Doc → Except Trouble α} {a : α},
        readWith reader text = .ok a ↔ reader doc = .ok a := by
  obtain ⟨v, hv, hitems⟩ := h
  obtain ⟨hdoc, hstop⟩ := hv.ofChars hitems.placed
  exact ⟨_, hdoc, Json.readWith_eq_ok.trans (and_iff_left hstop)⟩

end Texts

/-! ## Members that stand for values -/

/-- The values are written in the texts, under the same names. -/
def Stand (members : List (String × String)) (js : List (String × Json)) : Prop :=
  List.Forall₂ (fun m x => m.1 = x.1 ∧ (Doc.ofChars m.2.toList).Spells x.2) members js

theorem Stand.names {members : List (String × String)} {js : List (String × Json)}
    (h : Stand members js) : js.map Prod.fst = members.map Prod.fst := by
  induction h with
  | nil => rfl
  | cons hm _ ih => rw [List.map_cons, List.map_cons, hm.1, ih]

theorem Stand.append {before after : List (String × String)} {js ks : List (String × Json)}
    (h : Stand before js) (k : Stand after ks) : Stand (before ++ after) (js ++ ks) :=
  List.rel_append h k

/-- What is made out of the members is documents of the values that are written there. -/
theorem membersSpell_iff_stand {members : List (String × String)} {docs : List (Key × Doc)}
    (h : List.Forall₂ NamedOf members docs) {js : List (String × Json)} :
    MembersSpell docs js ↔ Stand members js := by
  refine membersSpell_iff (fun m s => m.1 = s) (fun m => m.2.toList) (h.imp fun m d hd => ?_)
  refine ⟨fun s => ?_, hd.2⟩
  rw [hd.1, Except.ok.injEq]

/-- Members stand for values if each of them does. -/
theorem exists_stand {n : Nat} : ∀ {members : List (String × String)},
    (∀ m ∈ members, ∃ j, (Doc.ofChars m.2.toList).Spells j ∧ j.depth ≤ n) →
      ∃ js, Stand members js ∧ depthMembers js ≤ n
  | [], _ => ⟨[], .nil, Nat.zero_le n⟩
  | m :: members, h => by
    obtain ⟨⟨j, hj, hdepth⟩, hothers⟩ := List.forall_mem_cons.mp h
    obtain ⟨js, hjs, hdepths⟩ := exists_stand hothers
    exact ⟨(m.1, j) :: js, .cons ⟨rfl, hj⟩ hjs, Nat.max_le.mpr ⟨hdepth, hdepths⟩⟩

/-! ## Printed values -/

theorem quoted_escaped (cs : List Char) : Quoted (cs.flatMap escaped) cs := by
  induction cs with
  | nil => exact .nil
  | cons c cs ih =>
    rw [List.flatMap_cons]
    rcases escaped_cases c with ⟨hc, hquote, hslash, hcontrol⟩ | ⟨body, hc, hbody⟩
    · rw [hc]
      exact .plain hquote hslash hcontrol ih
    · obtain ⟨escape, hescape, hstands⟩ := escape_of_readEscape (hbody []).1
      rw [hc, List.append_cancel_right hescape]
      exact .escape hstands ih

theorem parting_comma (first : Bool) : Parting first (comma first) := by
  cases first with
  | true => exact rfl
  | false => exact ⟨[], [], rfl, rfl, rfl⟩

mutual

/-- **What is printed for a value is in the grammar.** -/
theorem isValue_print : ∀ {j : Json}, j.Signed → IsValue j.print
  | .null, _ => .null
  | .bool true, _ => .true
  | .bool false, _ => .false
  | .number n, h => by
    show IsValue n.print
    rcases Number.print_cases h with ⟨hprint, -⟩ | ⟨negative, p, -, hfits, hprint, -⟩
    · rw [hprint]
      exact .null
    · rw [hprint]
      exact .number negative hfits.numberText
  | .text s, _ => .text (quoted_escaped s.toList).textBody
  | .array items, h => by
    show IsValue ('[' :: (printItems items ++ [']']))
    rw [printItems_eq]
    exact .array (items_print h true)
  | .object members, h => by
    show IsValue ('\x7b' :: (printMembers members ++ ['\x7d']))
    rw [printMembers_eq]
    exact .object (members_print h true)

theorem items_print : ∀ {items : List Json}, SignedItems items → ∀ first : Bool,
    Items first (itemsText first items) (items.map print)
  | [], _, _ => .done rfl
  | _ :: _, h, first => .item (parting_comma first) (isValue_print h.1) (items_print h.2 false)

theorem members_print : ∀ {members : List (String × Json)}, SignedMembers members →
    ∀ first : Bool, Members first (membersText first members)
      (members.map fun m => (m.1.toList.flatMap escaped, m.2.print))
  | [], _, _ => .done rfl
  | (name, j) :: members, h, first => by
    have hname := (quoted_escaped name.toList).textBody
    have hnone : Blank [] := rfl
    have htext : membersText first ((name, j) :: members) =
        comma first ++ '"' :: (name.toList.flatMap escaped ++ '"' :: ([] ++ ':' :: ([] ++
          (j.print ++ membersText false members)))) := by
      simp only [membersText, printText, List.cons_append, List.append_assoc, List.nil_append]
    rw [htext]
    exact .member (parting_comma first) hname hnone hnone (isValue_print h.1)
      (members_print h.2 false)

end

/-- A printed object has the printed members. -/
theorem objectOf_render {members : List (String × Json)} (h : SignedMembers members) :
    ObjectOf (Json.object members).render (members.map fun m => (m.1, m.2.render)) := by
  have hprinted := members_print h true
  rw [← printMembers_eq] at hprinted
  refine ⟨printMembers members, _, String.toList_ofList, hprinted, ?_⟩
  rw [List.forall₂_map_left_iff, List.forall₂_map_right_iff, List.forall₂_same]
  exact fun m _ => ⟨quoted_escaped m.1.toList, String.toList_ofList.symm⟩

/-- A printed array has the printed items. -/
theorem arrayOf_render {items : List Json} (h : SignedItems items) :
    ArrayOf (Json.array items).render (items.map render) := by
  refine ⟨printItems items, String.toList_ofList, ?_⟩
  have hitems : (items.map render).map String.toList = items.map print := by
    rw [List.map_map]
    exact List.map_congr_left fun j _ => String.toList_ofList
  rw [printItems_eq, hitems]
  exact items_print h true

theorem surrounds_self (v : String) : Surrounds v v :=
  ⟨[], [], rfl, rfl, (List.append_nil v.toList).symm⟩

theorem objectText_render {members : List (String × Json)} (h : SignedMembers members) :
    ObjectText (Json.object members).render (members.map fun m => (m.1, m.2.render)) :=
  ⟨_, surrounds_self _, objectOf_render h⟩

theorem arrayText_render {items : List Json} (h : SignedItems items) :
    ArrayText (Json.array items).render (items.map render) :=
  ⟨_, surrounds_self _, arrayOf_render h⟩

end Lineage.Json
