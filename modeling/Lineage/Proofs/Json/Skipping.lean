import Lineage.Proofs.Json.Grammar
/-
  What can be skipped, and what is an object.

  The grammar is as wide as the reader.  Whatever is made out up to an end of its own is written as
  a value (`isValue_of_value`), so a text can be skipped just when it is a value of the grammar with
  nothing but blanks around it (`skip_eq_ok_iff`).  The induction is on the fuel, over a value, items
  and members together; each part that is made out gives the part that it is written as.

  Then a text is parsed as an object just when it is an object of the grammar whose members stand
  for the members of the one it is parsed as (`parse_eq_object_iff`).
-/

namespace Lineage.Json

/-! ## Words, numbers and texts -/

section Leaves

variable {start word rest stop : List Char}

theorem eq_append_of_expectWord : ∀ {word cs stop : List Char}, expectWord word cs = .ok stop →
    cs = word ++ stop
  | [], _, _, h => Except.ok.inj h
  | _ :: _, [], _, h => by cases h
  | w :: word, c :: cs, stop, h => by
    unfold expectWord at h
    split at h
    · rename_i hc
      rw [hc, eq_append_of_expectWord h, List.cons_append]
    · cases h

theorem eq_append_of_ofWord {complete : List Char → Doc}
    (hcomplete : ∀ s, (complete s).outcome = .ok s)
    (h : (Doc.ofWord start word rest complete).outcome = .ok stop) : rest = word ++ stop := by
  unfold Doc.ofWord at h
  split at h
  · rename_i s hword
    obtain rfl := Except.ok.inj ((hcomplete s).symm.trans h)
    exact eq_append_of_expectWord hword
  · cases h

theorem numberText_of_ofNumber {negative : Bool}
    (h : (Doc.ofNumber start negative rest).outcome = .ok stop) :
    ∃ text p, rest = text ++ stop ∧ NumberText text p := by
  unfold Doc.ofNumber at h
  split at h
  · rename_i p s hscan
    obtain rfl := Except.ok.inj h
    obtain ⟨text, hrest, htext⟩ := numberText_of_scanNumber hscan
    exact ⟨text, p, hrest, htext⟩
  · split at h
    · cases h
    · cases h

theorem textBody_of_scanText {value : Except Trouble String}
    (h : Doc.scanText rest = .ok (value, stop)) :
    ∃ body, rest = body ++ '"' :: stop ∧ TextBody body := by
  unfold Doc.scanText at h
  split at h
  · rename_i s hskip
    obtain ⟨-, rfl⟩ := Prod.mk.inj (Except.ok.inj h)
    exact skipText_eq_ok_iff.mp hskip
  · split at h
    · cases h
    · cases h

theorem textBody_of_ofText (h : (Doc.ofText start rest).outcome = .ok stop) :
    ∃ body, rest = body ++ '"' :: stop ∧ TextBody body := by
  unfold Doc.ofText at h
  split at h
  · rename_i value s hscan
    obtain rfl := Except.ok.inj h
    exact textBody_of_scanText hscan
  · cases h

end Leaves

/-! ## Items -/

theorem Parting.append {first : Bool} {parting blanks : List Char} (h : Parting first parting)
    (hblanks : Blank blanks) : Parting first (parting ++ blanks) := by
  have hboth : ∀ {before : List Char}, Blank before → Blank (before ++ blanks) := by
    intro before hbefore
    rw [Blank, List.all_append, hbefore, hblanks]
    rfl
  cases first with
  | true => exact hboth h
  | false =>
    obtain ⟨before, behind, hbefore, hbehind, rfl⟩ := h
    exact ⟨before, behind ++ blanks, hbefore, hboth hbehind, List.append_assoc ..⟩

theorem parting_of_nextItem {first : Bool} {cs inside : List Char}
    (h : Doc.nextItem first cs = .part inside) :
    ∃ parting, Parting first parting ∧ cs = parting ++ inside := by
  obtain ⟨before, hbefore, hcs⟩ := exists_blank cs
  unfold Doc.nextItem at h
  split at h
  · cases h
  · rename_i c rest hskip
    rw [hskip] at hcs
    split_ifs at h with _ hfirst hcomma
    · cases h
      rw [hfirst]
      exact ⟨before, hbefore, hcs⟩
    · obtain ⟨behind, hbehind, hrest⟩ := exists_blank rest
      split at h
      · cases h
      · rename_i d after hskip'
        split_ifs at h
        cases h
        rw [hskip'] at hrest
        rw [Bool.not_eq_true] at hfirst
        rw [hfirst]
        refine ⟨_, ⟨before, behind, hbefore, hbehind, rfl⟩, ?_⟩
        rw [hcs, hcomma, hrest, List.append_assoc, List.cons_append]

/-- Where the items end in a bracket, there is none or the first one is made out so. -/
theorem itemsFrom_eq_closed {fuel : Nat} {first : Bool} {cs stop : List Char} {docs : List Doc}
    (h : Doc.itemsFrom (fuel + 1) first cs = (docs, .closed stop)) :
    Doc.nextItem first cs = .finish (.closed stop) ∨
      ∃ inside behind more, Doc.nextItem first cs = .part inside ∧
        (Doc.value fuel inside).outcome = .ok behind ∧
        Doc.itemsFrom fuel false behind = (more, .closed stop) := by
  rw [Doc.itemsFrom] at h
  cases hnext : Doc.nextItem first cs with
  | finish ending =>
    simp only [hnext, Prod.mk.injEq] at h
    exact .inl (congrArg Doc.Next.finish h.2)
  | part inside =>
    cases hout : (Doc.value fuel inside).outcome with
    | error t =>
      simp only [hnext, hout] at h
      cases h
    | ok behind =>
      simp only [hnext, hout, Prod.mk.injEq] at h
      exact .inr ⟨inside, behind, _, rfl, hout, Prod.ext rfl h.2⟩

/-! ## Values -/

mutual

/-- **What is made out up to an end of its own is written as a value.** -/
theorem isValue_of_value : ∀ {fuel : Nat} {cs stop : List Char},
    (Doc.value fuel cs).outcome = .ok stop →
    ∃ blanks v, Blank blanks ∧ IsValue v ∧ cs = blanks ++ (v ++ stop)
  | 0, _, _, h => by cases h
  | fuel + 1, cs, stop, h => by
    obtain ⟨blanks, hblanks, hcs⟩ := exists_blank cs
    unfold Doc.value at h
    split at h
    · cases h
    · rename_i c rest hskip
      rw [hskip] at hcs
      obtain ⟨v, hv, hrest⟩ : ∃ v, IsValue v ∧ c :: rest = v ++ stop := by
        dsimp only at h
        split_ifs at h with hc hc hc hc _ hc hc hc
        · rw [hc, eq_append_of_ofWord (fun _ => rfl) h]
          exact ⟨_, .null, rfl⟩
        · rw [hc, eq_append_of_ofWord (fun _ => rfl) h]
          exact ⟨_, .true, rfl⟩
        · rw [hc, eq_append_of_ofWord (fun _ => rfl) h]
          exact ⟨_, .false, rfl⟩
        · obtain ⟨text, p, rfl, htext⟩ := numberText_of_ofNumber h
          rw [hc]
          exact ⟨_, .number true htext, rfl⟩
        · obtain ⟨text, p, hrest, htext⟩ := numberText_of_ofNumber h
          exact ⟨_, .number false htext, hrest⟩
        · obtain ⟨body, rfl, hbody⟩ := textBody_of_ofText h
          refine ⟨_, .text hbody, ?_⟩
          rw [hc, List.cons_append, List.append_assoc, List.singleton_append]
        · cases hitems : Doc.itemsFrom fuel true rest with
          | mk docs ending =>
            rw [hitems] at h
            cases ending with
            | broken _ _ => cases h
            | closed behind =>
              obtain rfl := Except.ok.inj h
              obtain ⟨inside, items, rfl, hinside⟩ := items_of_itemsFrom hitems
              refine ⟨_, .array hinside, ?_⟩
              rw [hc, List.cons_append, List.append_assoc, List.singleton_append]
        · cases hmembers : Doc.membersFrom fuel true rest with
          | mk docs ending =>
            rw [hmembers] at h
            cases ending with
            | broken _ _ => cases h
            | closed behind =>
              obtain rfl := Except.ok.inj h
              obtain ⟨inside, members, rfl, hinside⟩ := members_of_membersFrom hmembers
              refine ⟨_, .object hinside, ?_⟩
              rw [hc, List.cons_append, List.append_assoc, List.singleton_append]
        · cases h
      exact ⟨blanks, v, hblanks, hv, hrest ▸ hcs⟩

theorem items_of_itemsFrom : ∀ {fuel : Nat} {first : Bool} {cs stop : List Char} {docs : List Doc},
    Doc.itemsFrom fuel first cs = (docs, .closed stop) →
    ∃ text items, cs = text ++ ']' :: stop ∧ Items first text items
  | 0, _, _, _, _, h => by cases h
  | fuel + 1, first, cs, stop, docs, h => by
    rcases itemsFrom_eq_closed h with hnext | ⟨inside, behind, more, hnext, hout, hmore⟩
    · obtain ⟨blanks, hblanks, rfl⟩ := nextItem_eq_closed_iff.mp hnext
      exact ⟨blanks, [], rfl, .done hblanks⟩
    · obtain ⟨parting, hparting, rfl⟩ := parting_of_nextItem hnext
      obtain ⟨blanks, v, hblanks, hv, rfl⟩ := isValue_of_value hout
      obtain ⟨text, items, rfl, hitems⟩ := items_of_itemsFrom hmore
      refine ⟨_, _, ?_, .item (hparting.append hblanks) hv hitems⟩
      simp only [List.append_assoc]

theorem members_of_membersFrom : ∀ {fuel : Nat} {first : Bool} {cs stop : List Char}
    {docs : List (Key × Doc)}, Doc.membersFrom fuel first cs = (docs, .closed stop) →
    ∃ text members, cs = text ++ '\x7d' :: stop ∧ Members first text members
  | 0, _, _, _, _, h => by cases h
  | fuel + 1, first, cs, stop, docs, h => by
    rcases membersFrom_eq_closed h with ⟨-, hnext⟩ |
      ⟨inside, name, behindName, value, behind, more, hnext, hscan, hskip, hout, hmore, -⟩
    · obtain ⟨blanks, hblanks, rfl⟩ := nextMember_eq_closed_iff.mp hnext
      exact ⟨blanks, [], rfl, .done hblanks⟩
    · obtain ⟨parting, hparting, rfl⟩ := nextMember_eq_part_iff.mp hnext
      obtain ⟨body, rfl, hbody⟩ := textBody_of_scanText hscan
      have hcolon : isBlank ':' = false := by decide
      obtain ⟨gap, hgap, rfl⟩ := (skipBlank_eq_cons_iff hcolon).mp hskip
      obtain ⟨blanks, v, hblanks, hv, rfl⟩ := isValue_of_value hout
      obtain ⟨text, members, rfl, hmembers⟩ := members_of_membersFrom hmore
      refine ⟨_, _, ?_, .member hparting hbody hgap hblanks hv hmembers⟩
      simp only [List.append_assoc, List.cons_append]

end

/-! ## Whole texts -/

/-- What is made out of a whole text is made out of a value, if nothing but blanks follows. -/
theorem surrounds_of_outcome {text : String} {stop : List Char}
    (h : (Doc.ofChars text.toList).outcome = .ok stop) (hstop : (skipBlank stop).isEmpty = true) :
    ∃ v, Surrounds text v ∧ IsValue v.toList := by
  obtain ⟨blanks, v, hblanks, hv, htext⟩ := isValue_of_value h
  have hofList : (String.ofList v).toList = v := String.toList_ofList
  refine ⟨String.ofList v, ⟨blanks, stop, hblanks, isEmpty_skipBlank_iff.mp hstop, ?_⟩, ?_⟩
  · rw [hofList]
    exact htext
  · rw [hofList]
    exact hv

/-- **A text can be skipped just when it is a value**, with nothing but blanks around it. -/
theorem skip_eq_ok_iff {text : String} :
    readWith Doc.skip text = .ok () ↔ ∃ v, Surrounds text v ∧ IsValue v.toList := by
  rw [readWith_eq_ok]
  constructor
  · rintro ⟨-, stop, hout, hstop⟩
    exact surrounds_of_outcome hout hstop
  · rintro ⟨v, hv, hvalue⟩
    obtain ⟨hdoc, hstop⟩ := hv.ofChars (placed_of_isValue hvalue)
    exact ⟨hdoc.1, hstop⟩

/-- Members that stand for values have names, and are those of an object. -/
theorem exists_named {raw : List (List Char × List Char)} {js : List (String × Json)}
    (h : List.Forall₂ (fun m x => Quoted m.1 x.1.toList ∧ (Doc.ofChars m.2).Spells x.2) raw js) :
    ∃ members, List.Forall₂ (fun r m => Quoted r.1 m.1.toList ∧ r.2 = m.2.toList) raw members ∧
      Stand members js := by
  induction h with
  | nil => exact ⟨[], .nil, .nil⟩
  | @cons m x raw js hm _ ih =>
    obtain ⟨members, hraw, hstand⟩ := ih
    have hofList : (String.ofList m.2).toList = m.2 := String.toList_ofList
    refine ⟨(x.1, String.ofList m.2) :: members, .cons ⟨hm.1, hofList.symm⟩ hraw,
      .cons ⟨rfl, ?_⟩ hstand⟩
    rw [hofList]
    exact hm.2

/-- **A text is parsed as an object just when it is one whose members stand for its members**, no
deeper than a reader goes. -/
theorem parse_eq_object_iff {text : String} {js : List (String × Json)} :
    parse text = .ok (.object js) ↔
      depthMembers js + 1 < Doc.depthLimit ∧ ∃ members, ObjectText text members ∧ Stand members js := by
  constructor
  · intro h
    obtain ⟨hspells, hdepth, stop, hout, hstop⟩ := parse_eq_ok_iff.mp h
    refine ⟨hdepth, ?_⟩
    obtain ⟨start, docs, stop', hdoc, hdocs⟩ := hspells.eq_object
    obtain ⟨_, blanks, rest, hblanks, htext, hmembers⟩ := Doc.members_of_value hdoc
    obtain ⟨inside, raw, rfl, hinside⟩ := members_of_membersFrom hmembers
    rw [hdoc] at hout
    obtain rfl := Except.ok.inj hout
    -- What is made out of the object in the grammar is what has been made out of the text.
    have hv : Surrounds text (String.ofList ('\x7b' :: (inside ++ ['\x7d']))) := by
      refine ⟨blanks, stop', hblanks, hstop, ?_⟩
      rw [htext, String.toList_ofList, List.cons_append, List.append_assoc, List.singleton_append]
    have hplaced := placed_object hinside (placed_of_members hinside)
    rw [← String.toList_ofList (l := '\x7b' :: (inside ++ ['\x7d']))] at hplaced
    obtain ⟨⟨_, docs', _, hsame, hall⟩, -⟩ := hv.ofChars hplaced
    rw [hdoc, Doc.object.injEq] at hsame
    obtain ⟨-, rfl, -⟩ := hsame
    obtain ⟨members, hraw, hstand⟩ := exists_named
      ((membersSpell_iff (fun m s => Quoted m.1 s.toList) Prod.snd hall).mp hdocs)
    exact ⟨members, ⟨_, hv, inside, raw, String.toList_ofList, hinside, hraw⟩, hstand⟩
  · rintro ⟨hdepth, members, htext, hstand⟩
    obtain ⟨doc, ⟨start, docs, stop, rfl, hdocs⟩, hread⟩ := htext.readWith_eq_ok
    refine hread.mpr ?_
    have hspells := (membersSpell_iff_stand hdocs).mpr hstand
    exact json_of_spells (.object start stop hspells) _ hdepth

end Lineage.Json
