import Lineage.Proofs.Json.Reading
import Lineage.Proofs.Success
import Mathlib.Data.List.Forall2
/-
  What decoders accept.

  A text that is parsed as a value has a document of that value in it, no deeper than a reader
  goes, and a reader does with the text what it does with that document (`spells_of_parse`).  So it
  can be told from the value alone what a decoder accepts and what it makes of it:
  `Decoder.Accepts`, for every document of the value and in both modes.

  It is shown of a decoder by its parts, as decoders are built.  A record gathers its members by
  name, so their order is of no account; the others are passed over, and none of its own may be
  there twice (`Record.Accepts.object`).  A tagged record is what the tag says, with the other
  members (`tagged_eq_ok`).
-/

namespace Lineage.Json

/-! ## Parsed texts -/

theorem deeper_eq_ok {start : List Char} {depth inner : Nat} :
    Doc.deeper start depth = .ok inner ↔ 1 < depth ∧ inner = depth - 1 := by
  unfold Doc.deeper
  by_cases h : depth ≤ 1
  · rw [if_pos h]
    refine iff_of_false (fun hok => by cases hok) ?_
    rintro ⟨hlt, -⟩
    exact absurd h (Nat.not_le.mpr hlt)
  · rw [if_neg h]
    constructor
    · intro hok
      exact ⟨Nat.not_le.mp h, (Except.ok.inj hok).symm⟩
    · rintro ⟨-, rfl⟩
      rfl

theorem Ending.read_eq_ok {ending : Ending} (h : ending.read = .ok ()) :
    ∃ stop, ending = .closed stop := by
  cases ending with
  | closed stop => exact ⟨stop, rfl⟩
  | broken read skipped => cases h

mutual

/-- A document that is read as a value is one of that value. -/
theorem spells_of_json : ∀ {doc : Doc} {depth : Nat} {j : Json}, 0 < depth →
    doc.json depth = .ok j → doc.Spells j ∧ j.depth < depth
  | .null start stop, depth, j, hpos, h => by
    cases h
    exact ⟨.null start stop, hpos⟩
  | .bool start b stop, depth, j, hpos, h => by
    cases h
    exact ⟨.bool start stop b, hpos⟩
  | .number start value stop, depth, j, hpos, h => by
    obtain ⟨n, rfl, rfl⟩ := map_eq_ok.mp h
    exact ⟨.number start stop n, hpos⟩
  | .text start value stop, depth, j, hpos, h => by
    obtain ⟨s, rfl, rfl⟩ := map_eq_ok.mp h
    exact ⟨.text start stop s, hpos⟩
  | .array start docs ending, depth, j, hpos, h => by
    obtain ⟨inner, hinner, h⟩ := bind_eq_ok.mp h
    obtain ⟨hdepth, rfl⟩ := deeper_eq_ok.mp hinner
    obtain ⟨items, hitems, h⟩ := bind_eq_ok.mp h
    obtain ⟨_, hend, h⟩ := bind_eq_ok.mp h
    obtain ⟨stop, rfl⟩ := Ending.read_eq_ok hend
    cases h
    obtain ⟨hspells, hlt⟩ := spells_of_jsonItems (Nat.sub_pos_of_lt hdepth) hitems
    exact ⟨.array start stop hspells, Nat.add_lt_of_lt_sub hlt⟩
  | .object start docs ending, depth, j, hpos, h => by
    obtain ⟨inner, hinner, h⟩ := bind_eq_ok.mp h
    obtain ⟨hdepth, rfl⟩ := deeper_eq_ok.mp hinner
    obtain ⟨members, hmembers, h⟩ := bind_eq_ok.mp h
    obtain ⟨_, hend, h⟩ := bind_eq_ok.mp h
    obtain ⟨stop, rfl⟩ := Ending.read_eq_ok hend
    cases h
    obtain ⟨hspells, hlt⟩ := spells_of_jsonMembers (Nat.sub_pos_of_lt hdepth) hmembers
    exact ⟨.object start stop hspells, Nat.add_lt_of_lt_sub hlt⟩
  | .broken start read skipped, depth, j, hpos, h => by cases h

theorem spells_of_jsonItems : ∀ {docs : List Doc} {depth : Nat} {items : List Json}, 0 < depth →
    Doc.jsonItems depth docs = .ok items → ItemsSpell docs items ∧ depthItems items < depth
  | [], depth, items, hpos, h => by
    cases h
    exact ⟨.nil, hpos⟩
  | doc :: docs, depth, items, hpos, h => by
    obtain ⟨j, hj, h⟩ := bind_eq_ok.mp h
    obtain ⟨rest, hrest, h⟩ := bind_eq_ok.mp h
    cases h
    obtain ⟨hspells, hlt⟩ := spells_of_json hpos hj
    obtain ⟨hspellsRest, hltRest⟩ := spells_of_jsonItems hpos hrest
    exact ⟨.cons hspells hspellsRest, Nat.max_lt.mpr ⟨hlt, hltRest⟩⟩

theorem spells_of_jsonMembers : ∀ {docs : List (Key × Doc)} {depth : Nat}
    {members : List (String × Json)}, 0 < depth → Doc.jsonMembers depth docs = .ok members →
      MembersSpell docs members ∧ depthMembers members < depth
  | [], depth, members, hpos, h => by
    cases h
    exact ⟨.nil, hpos⟩
  | (⟨key, gap⟩, doc) :: docs, depth, members, hpos, h => by
    obtain ⟨name, rfl, hjson⟩ := bind_eq_ok.mp h
    obtain ⟨j, hj, hothers⟩ := bind_eq_ok.mp hjson
    obtain ⟨rest, hrest, hmembers⟩ := bind_eq_ok.mp hothers
    cases hmembers
    obtain ⟨hspells, hlt⟩ := spells_of_json hpos hj
    obtain ⟨hspellsRest, hltRest⟩ := spells_of_jsonMembers hpos hrest
    exact ⟨.cons name gap hspells hspellsRest, Nat.max_lt.mpr ⟨hlt, hltRest⟩⟩

end

/-- A text is read if its document is, and nothing but blanks stands behind it. -/
theorem readWith_eq_ok {α : Type} {reader : Doc → Except Trouble α} {text : String} {a : α} :
    readWith reader text = .ok a ↔ reader (Doc.ofChars text.toList) = .ok a ∧
      ∃ stop, (Doc.ofChars text.toList).outcome = .ok stop ∧ (skipBlank stop).isEmpty = true := by
  unfold readWith
  cases hreader : reader (Doc.ofChars text.toList) with
  | error t =>
    simp only [hreader]
    exact iff_of_false (fun h => by cases h) (by rintro ⟨h, -⟩; cases h)
  | ok b =>
    cases hstop : (Doc.ofChars text.toList).outcome with
    | error t =>
      simp only [hreader, hstop]
      exact iff_of_false (fun h => by cases h) (by rintro ⟨-, _, hok, -⟩; cases hok)
    | ok stop =>
      by_cases hblank : (skipBlank stop).isEmpty = true
      · simp only [hreader, hstop, bind, Except.bind, if_pos hblank]
        constructor
        · intro h
          cases h
          exact ⟨rfl, stop, rfl, hblank⟩
        · rintro ⟨h, -⟩
          cases h
          rfl
      · simp only [hreader, hstop, bind, Except.bind, if_neg hblank]
        constructor
        · exact fun h => by cases h
        · rintro ⟨-, _, h, hempty⟩
          cases h
          exact absurd hempty hblank

/-- **A text that is parsed as a value has a document of that value**, and readers do with the text
what they do with the document. -/
theorem spells_of_parse {text : String} {j : Json} (h : parse text = .ok j) :
    (Doc.ofChars text.toList).Spells j ∧ j.depth < Doc.depthLimit ∧
      ∀ {α : Type} (reader : Doc → Except Trouble α) (a : α),
        readWith reader text = .ok a ↔ reader (Doc.ofChars text.toList) = .ok a := by
  have hlimit : 0 < Doc.depthLimit := by decide
  obtain ⟨hjson, hstop⟩ := readWith_eq_ok.mp h
  obtain ⟨hspells, hdepth⟩ := spells_of_json hlimit hjson
  refine ⟨hspells, hdepth, fun reader a => ?_⟩
  rw [readWith_eq_ok]
  exact and_iff_left hstop

mutual

/-- A document of a value can be skipped. -/
theorem skip_of_spells : ∀ {doc : Doc} {j : Json}, doc.Spells j → doc.skip = .ok ()
  | _, _, .null _ _ => rfl
  | _, _, .bool _ _ _ => rfl
  | _, _, .number _ _ _ => rfl
  | _, _, .text _ _ _ => rfl
  | _, _, @Doc.Spells.array docs items start stop h => by
    show (Doc.skipItems docs).bind _ = _
    rw [skipItems_of_spells h]
    rfl
  | _, _, @Doc.Spells.object docs members start stop h => by
    show (Doc.skipMembers docs).bind _ = _
    rw [skipMembers_of_spells h]
    rfl

theorem skipItems_of_spells : ∀ {docs : List Doc} {items : List Json}, ItemsSpell docs items →
    Doc.skipItems docs = .ok ()
  | _, _, .nil => rfl
  | _, _, @ItemsSpell.cons doc j docs items h hrest => by
    show (doc.skip).bind _ = _
    rw [skip_of_spells h]
    exact skipItems_of_spells hrest

theorem skipMembers_of_spells : ∀ {docs : List (Key × Doc)} {members : List (String × Json)},
    MembersSpell docs members → Doc.skipMembers docs = .ok ()
  | _, _, .nil => rfl
  | _, _, @MembersSpell.cons doc j docs members name gap h hrest => by
    show (doc.skip).bind _ = _
    rw [skip_of_spells h]
    exact skipMembers_of_spells hrest

end

/-- In either mode a document of a value can be passed over. -/
theorem pass_of_spells (m : Mode) {doc : Doc} {j : Json} (h : doc.Spells j) :
    m.pass doc = .ok () := by
  cases m with
  | direct depth => exact skip_of_spells h
  | held => rfl

/-! ## Single values -/

/-- The decoder makes of the documents of a value just what the relation says. -/
def Decoder.Accepts {α : Type} (d : Decoder α) (R : Json → α → Prop) : Prop :=
  ∀ m doc j a, m.Allows j.depth → doc.Spells j → (d m doc = .ok a ↔ R j a)

/-- What is accepted is read. -/
theorem Decoder.Accepts.reads {α : Type} {d : Decoder α} {R : Json → α → Prop} (h : d.Accepts R)
    {j : Json} {a : α} (hj : R j a) : d.Reads j a :=
  fun m doc hm hdoc => (h m doc j a hm hdoc).mpr hj

namespace Decoder

variable {α β : Type}

theorem accepts_text : text.Accepts fun j s => j = .text s := by
  intro m doc j s _ hdoc
  cases hdoc with
  | text start stop t =>
    show Except.ok t = .ok s ↔ Json.text t = .text s
    rw [Except.ok.injEq, Json.text.injEq]
  | _ => exact iff_of_false (fun h => by cases h) fun h => by cases h

theorem accepts_bool : bool.Accepts fun j b => j = .bool b := by
  intro m doc j b _ hdoc
  cases hdoc with
  | bool start stop c =>
    show Except.ok c = .ok b ↔ Json.bool c = .bool b
    rw [Except.ok.injEq, Json.bool.injEq]
  | _ => exact iff_of_false (fun h => by cases h) fun h => by cases h

theorem accepts_unit : unit.Accepts fun j _ => j = .null := by
  intro m doc j _ _ hdoc
  cases hdoc with
  | null start stop => exact ⟨fun _ => rfl, fun _ => rfl⟩
  | _ => exact iff_of_false (fun h => by cases h) fun h => by cases h

theorem accepts_natural : natural.Accepts fun j n => j = .number (.unsigned n) := by
  intro m doc j n _ hdoc
  cases hdoc with
  | number start stop k =>
    cases k with
    | unsigned k =>
      show Except.ok k = .ok n ↔ Json.number (.unsigned k) = .number (.unsigned n)
      rw [Except.ok.injEq, Json.number.injEq, Number.unsigned.injEq]
    | negative k => exact iff_of_false (fun h => by cases h) fun h => by cases h
    | float x => exact iff_of_false (fun h => by cases h) fun h => by cases h
  | _ => exact iff_of_false (fun h => by cases h) fun h => by cases h

/-- Any number is accepted as the double nearest to it. -/
theorem accepts_binary64 :
    binary64.Accepts fun j x => ∃ n, j = .number n ∧ Number.toBinary64 n = x := by
  intro m doc j x _ hdoc
  cases hdoc with
  | number start stop n =>
    show Except.ok (Number.toBinary64 n) = .ok x ↔ _
    rw [Except.ok.injEq]
    constructor
    · exact fun h => ⟨n, rfl, h⟩
    · rintro ⟨_, hn, h⟩
      cases hn
      exact h
  | _ => exact iff_of_false (fun h => by cases h) (by rintro ⟨_, hno, -⟩; cases hno)

theorem Accepts.map {d : Decoder α} {R : Json → α → Prop} (h : d.Accepts R) (f : α → β) :
    (d.map f).Accepts fun j b => ∃ a, R j a ∧ f a = b := by
  intro m doc j b hm hdoc
  show (d m doc).map f = .ok b ↔ _
  rw [map_eq_ok]
  exact exists_congr fun a => and_congr_left fun _ => h m doc j a hm hdoc

/-- `null` is none, and everything else is what the decoder for the value makes of it. -/
theorem Accepts.option {d : Decoder α} {R : Json → α → Prop} (h : d.Accepts R) :
    d.option.Accepts fun j o => j = .null ∧ o = none ∨ j ≠ .null ∧ ∃ a, R j a ∧ some a = o := by
  intro m doc j o hm hdoc
  by_cases hnull : j = .null
  · subst hnull
    cases hdoc with
    | null start stop =>
      show Except.ok none = .ok o ↔ _
      rw [Except.ok.injEq]
      constructor
      · exact fun ho => .inl ⟨rfl, ho.symm⟩
      · rintro (⟨-, ho⟩ | ⟨hne, -⟩)
        · exact ho.symm
        · exact absurd rfl hne
  · have hsome : d.option m doc = (d m doc).map some := by
      cases hdoc with
      | null start stop => exact absurd rfl hnull
      | _ => rfl
    rw [hsome, map_eq_ok]
    constructor
    · rintro ⟨a, ha, ho⟩
      exact .inr ⟨hnull, a, (h m doc j a hm hdoc).mp ha, ho⟩
    · rintro (⟨heq, -⟩ | ⟨-, a, ha, ho⟩)
      · exact absurd heq hnull
      · exact ⟨a, (h m doc j a hm hdoc).mpr ha, ho⟩

end Decoder

/-- What stands inside an array or object is read directly, too. -/
theorem direct_of_inside {start : List Char} {depth : Nat} {inner : Mode}
    (h : Mode.inside start (.direct depth) = .ok inner) : ∃ inside, inner = .direct inside := by
  rw [Mode.inside] at h
  obtain ⟨inside, -, hinner⟩ := map_eq_ok.mp h
  exact ⟨inside, hinner.symm⟩

section Lists

variable {α : Type} {d : Decoder α} {m : Mode}

/-- Items are read one by one. -/
theorem items_eq_ok_iff : ∀ {docs : List Doc} {as : List α},
    Decoder.items d m docs = .ok as ↔ List.Forall₂ (fun doc a => d m doc = .ok a) docs as
  | [], as => by
    rw [List.forall₂_nil_left_iff]
    show Except.ok [] = .ok as ↔ _
    rw [Except.ok.injEq]
    exact eq_comm
  | doc :: docs, as => by
    rw [List.forall₂_cons_left_iff]
    show (d m doc >>= fun a => Decoder.items d m docs >>= fun rest => .ok (a :: rest)) = .ok as ↔ _
    simp only [bind_eq_ok, items_eq_ok_iff, Except.ok.injEq]
    constructor
    · rintro ⟨a, ha, rest, hrest, rfl⟩
      exact ⟨a, rest, ha, hrest, rfl⟩
    · rintro ⟨a, rest, ha, hrest, rfl⟩
      exact ⟨a, ha, rest, hrest, rfl⟩

/-- A list is read directly from an array, item by item. -/
theorem list_eq_ok_iff {depth : Nat} (hdepth : 1 < depth) {start stop : List Char}
    {docs : List Doc} {as : List α} :
    Decoder.list d (.direct depth) (.array start docs (.closed stop)) = .ok as ↔
      List.Forall₂ (fun doc a => d (.direct (depth - 1)) doc = .ok a) docs as := by
  have hinside : Mode.inside start (.direct depth) = .ok (.direct (depth - 1)) := by
    rw [Mode.inside, deeper_of_lt hdepth]
    rfl
  show (Mode.inside start (.direct depth) >>= fun inner => Decoder.items d inner docs >>= fun as =>
    .ok as) = .ok as ↔ _
  rw [hinside, ← items_eq_ok_iff]
  show (Decoder.items d (.direct (depth - 1)) docs >>= fun as => .ok as) = .ok as ↔ _
  rw [bind_eq_ok]
  simp only [Except.ok.injEq, exists_eq_right]

end Lists

/-! ## Alternatives -/

/-- What goes with the name of an alternative is accepted as the relation says. -/
def Payload.Accepts {α : Type} (payload : Payload α) (R : Json → α → Prop) : Prop :=
  ∀ m doc j a, m.Allows j.depth → doc.Spells j → (payload.read m doc = .ok a ↔ R j a)

theorem chosen_eq_ok {β : Type} {m : Mode} {p : Place} {alts : List (String × β)} {name : String}
    {b : β} : chosen m p alts name = .ok b ↔ alts.lookup name = some b := by
  unfold chosen
  cases alts.lookup name with
  | some c =>
    show Except.ok c = .ok b ↔ _
    rw [Except.ok.injEq, Option.some.injEq]
  | none => exact iff_of_false (fun h => by cases h) fun h => by cases h

/-- Behind the only member of an object that is closed there is nothing. -/
theorem onlyMember_eq_ok {doc : Doc} {more : List (Key × Doc)} {stop : List Char} :
    onlyMember doc more (.closed stop) = .ok () ↔ more = [] := by
  cases more with
  | nil => exact ⟨fun _ => rfl, fun _ => rfl⟩
  | cons x more =>
    refine iff_of_false (fun h => ?_) fun h => by cases h
    unfold onlyMember at h
    cases hout : doc.outcome with
    | error t =>
      rw [hout] at h
      cases h
    | ok behind =>
      rw [hout] at h
      simp only at h
      split at h
      · cases h
      · cases h

/-- In both modes the only member of an object is chosen from the alternatives and then read. -/
theorem alternatives_member_eq_ok {α : Type} {alts : List (String × Payload α)} {m inner : Mode}
    {start stop gap : List Char} {name : String} {doc : Doc} {docs : List (Key × Doc)} {a : α}
    (hinner : m.inside start = .ok inner) :
    alternatives alts m (.object start ((⟨.ok name, gap⟩, doc) :: docs) (.closed stop)) = .ok a ↔
      docs = [] ∧ ∃ payload, alts.lookup name = some payload ∧ payload.read inner doc = .ok a := by
  cases m with
  | direct depth =>
    show (Mode.inside start (.direct depth) >>= fun inner =>
      chosen inner (here gap) alts name >>= fun payload => payload.read inner doc >>= fun a =>
        onlyMember doc docs (.closed stop) >>= fun _ => .ok a) = .ok a ↔ _
    rw [hinner]
    show (chosen inner (here gap) alts name >>= _) = .ok a ↔ _
    rw [bind_eq_ok]
    constructor
    · rintro ⟨payload, hpayload, hrest⟩
      obtain ⟨b, hb, hrest⟩ := bind_eq_ok.mp hrest
      obtain ⟨_, honly, hab⟩ := bind_eq_ok.mp hrest
      cases hab
      exact ⟨onlyMember_eq_ok.mp honly, payload, chosen_eq_ok.mp hpayload, hb⟩
    · rintro ⟨rfl, payload, hpayload, ha⟩
      have honly : onlyMember doc [] (.closed stop) = .ok () := onlyMember_eq_ok.mpr rfl
      refine ⟨payload, chosen_eq_ok.mpr hpayload, ?_⟩
      exact bind_eq_ok.mpr ⟨a, ha, bind_eq_ok.mpr ⟨(), honly, rfl⟩⟩
  | held =>
    obtain rfl : Mode.held = inner := Except.ok.inj hinner
    cases docs with
    | nil =>
      show (chosen .held (here gap) alts name >>= _) = .ok a ↔ _
      rw [bind_eq_ok]
      constructor
      · rintro ⟨payload, hpayload, ha⟩
        exact ⟨rfl, payload, chosen_eq_ok.mp hpayload, ha⟩
      · rintro ⟨-, payload, hpayload, ha⟩
        exact ⟨payload, chosen_eq_ok.mpr hpayload, ha⟩
    | cons x more => exact iff_of_false (fun h => by cases h) (by rintro ⟨hno, -⟩; cases hno)

/-- A text is the name of an alternative without anything. -/
theorem alternatives_text_eq_ok {α : Type} {alts : List (String × Payload α)} {m : Mode}
    {start stop : List Char} {name : String} {a : α} :
    alternatives alts m (.text start (.ok name) stop) = .ok a ↔
      alts.lookup name = some (.bare a) := by
  show chosen m (here stop) alts name >>= _ = .ok a ↔ _
  rw [bind_eq_ok]
  constructor
  · rintro ⟨payload, hpayload, ha⟩
    cases payload with
    | bare b =>
      cases ha
      exact chosen_eq_ok.mp hpayload
    | carrying d => cases ha
  · intro hlookup
    exact ⟨.bare a, chosen_eq_ok.mpr hlookup, rfl⟩

/-- An object without members is none of the alternatives. -/
theorem alternatives_empty_ne_ok {α : Type} {alts : List (String × Payload α)} {m : Mode}
    {start stop : List Char} {a : α} :
    alternatives alts m (.object start [] (.closed stop)) ≠ .ok a := by
  intro hok
  cases m with
  | direct depth =>
    obtain ⟨inner, -, herror⟩ := bind_eq_ok.mp hok
    cases herror
  | held => cases hok

/-- What the alternatives make of a value: one without anything is written by its name, and one
with a value as the only member of an object. -/
def Alternative {α : Type} (alts : List (String × Payload α)) (R : String → Json → α → Prop)
    (j : Json) (a : α) : Prop :=
  match j with
  | .text name => alts.lookup name = some (.bare a)
  | .object [(name, k)] => (alts.lookup name).isSome ∧ R name k a
  | _ => False

/-- **Alternatives are accepted by their names, or as objects with one member.** -/
theorem accepts_alternatives {α : Type} {alts : List (String × Payload α)}
    {R : String → Json → α → Prop}
    (h : ∀ name payload, alts.lookup name = some payload → payload.Accepts (R name)) :
    (alternatives alts).Accepts (Alternative alts R) := by
  intro m doc j a hm hdoc
  cases hdoc with
  | null start stop => cases m <;> exact iff_of_false (fun h => by cases h) id
  | bool start stop b => cases m <;> exact iff_of_false (fun h => by cases h) id
  | number start stop n => cases m <;> exact iff_of_false (fun h => by cases h) id
  | array start stop hdocs => cases m <;> exact iff_of_false (fun h => by cases h) id
  | text start stop name => exact alternatives_text_eq_ok
  | @object docs members start stop hdocs =>
    cases hdocs with
    | nil => exact iff_of_false alternatives_empty_ne_ok id
    | @cons doc j docs members name gap hdoc hrest =>
      obtain ⟨inner, hinner, hroom⟩ := inside_of_allows hm start
      have hpayload : ∀ payload, alts.lookup name = some payload →
          (payload.read inner doc = .ok a ↔ R name j a) := fun payload hlookup =>
        h name payload hlookup inner doc j a (hroom.mono (Nat.le_max_left ..)) hdoc
      rw [alternatives_member_eq_ok hinner]
      cases hrest with
      | nil =>
        show _ ↔ (alts.lookup name).isSome ∧ R name j a
        cases hlookup : alts.lookup name with
        | none =>
          refine iff_of_false ?_ ?_
          · rintro ⟨-, _, hno, -⟩
            cases hno
          · rintro ⟨hno, -⟩
            cases hno
        | some payload =>
          constructor
          · rintro ⟨-, _, hsome, hok⟩
            cases hsome
            exact ⟨rfl, (hpayload payload hlookup).mp hok⟩
          · rintro ⟨-, hR⟩
            exact ⟨rfl, payload, rfl, (hpayload payload hlookup).mpr hR⟩
      | cons name' gap' hdoc' hrest' => exact iff_of_false (by rintro ⟨hno, -⟩; cases hno) id

/-! ## Records -/

/-- The documents that are found under names are those of the members, and there are no others. -/
structure Shows (m : Mode) (find : String → Option Doc) (members : List (String × Json)) :
    Prop where
  finds : Finds m find members
  absent : ∀ name, members.lookup name = none → find name = none

/-- The record gathers just what the relation says, and its checks let pass what it gathers. -/
structure Record.Accepts {α : Type} (r : Record α) (R : List (String × Json) → α → Prop) :
    Prop where
  gathers : ∀ m p find members a, Shows m find members →
    (r.gather m p find = .ok a ↔ R members a)
  checks : ∀ m p find a, r.gather m p find = .ok a → ∀ name check doc,
    r.fields.lookup name = some check → find name = some doc → check m doc = .ok ()

/-- The value of a member, or the one it has when it is missing. -/
def Field.Value {α : Type} (f : Field α) (R : Json → α → Prop) (members : List (String × Json))
    (a : α) : Prop :=
  match members.lookup f.name with
  | some j => R j a
  | none => f.absent = some a

section Records

variable {α β : Type}

theorem Field.accepts {f : Field α} {R : Json → α → Prop} (h : f.decode.Accepts R) :
    f.record.Accepts (f.Value R) where
  gathers m p find members a hshows := by
    unfold Field.Value
    cases hlookup : members.lookup f.name with
    | some j =>
      obtain ⟨doc, hdoc, hspells, hm⟩ := hshows.finds f.name j hlookup
      simp only [Field.record, hdoc]
      exact h m doc j a hm hspells
    | none =>
      simp only [Field.record, hshows.absent f.name hlookup]
      cases f.absent with
      | some b =>
        show Except.ok b = .ok a ↔ _
        rw [Except.ok.injEq, Option.some.injEq]
      | none => exact iff_of_false (fun h => by cases h) fun h => by cases h
  checks m p find a hok name check doc hcheck hdoc := by
    by_cases hname : name = f.name
    · subst hname
      simp only [Field.record, List.lookup_cons_self, Option.some.injEq] at hcheck
      simp only [Field.record, hdoc] at hok
      rw [← hcheck, Decoder.map, hok]
      rfl
    · have hne : (name == f.name) = false := beq_eq_false_iff_ne.mpr hname
      simp only [Field.record, List.lookup_cons, hne, List.lookup_nil] at hcheck
      cases hcheck

theorem Field.value_iff {f : Field α} {R : Json → α → Prop} {members : List (String × Json)}
    {a : α} : f.Value R members a ↔ (∃ j, members.lookup f.name = some j ∧ R j a) ∨
      members.lookup f.name = none ∧ f.absent = some a := by
  unfold Field.Value
  cases members.lookup f.name with
  | some j =>
    constructor
    · exact fun h => .inl ⟨j, rfl, h⟩
    · rintro (⟨_, hj, h⟩ | ⟨hno, -⟩)
      · exact Option.some.inj hj ▸ h
      · cases hno
  | none =>
    constructor
    · exact fun h => .inr ⟨rfl, h⟩
    · rintro (⟨_, hno, -⟩ | ⟨-, h⟩)
      · cases hno
      · exact h

/-- A member that has to be there, in the only form of its value. -/
theorem Field.value_required {d : Decoder α} {name : String} {form : α → Json}
    {members : List (String × Json)} {a : α} :
    Field.Value ⟨name, d, none, none⟩ (fun j a => j = form a) members a ↔
      members.lookup name = some (form a) := by
  unfold Field.Value
  cases members.lookup name with
  | some j => exact Option.some_inj.symm
  | none => exact iff_of_false (fun h => by cases h) fun h => by cases h

/-- A member tells what it has one form for; where it is missing or `null`, there is nothing. -/
def Told (form : α → Json) (member : Option Json) : Option α → Prop
  | some a => member = some (form a)
  | none => member = none ∨ member = some .null

/-- A member that may be missing, in the only form of its value. -/
theorem Field.value_optional {d : Decoder α} {name : String} {form : α → Json}
    (hform : ∀ a, form a ≠ .null) {members : List (String × Json)} {o : Option α}
    {cutOff : Option (Option α)} :
    Field.Value ⟨name, d.option, some none, cutOff⟩
        (fun j o => j = .null ∧ o = none ∨ j ≠ .null ∧ ∃ a, j = form a ∧ some a = o) members o ↔
      Told form (members.lookup name) o := by
  unfold Field.Value Told
  cases members.lookup name with
  | none =>
    cases o with
    | none => exact ⟨fun _ => .inl rfl, fun _ => rfl⟩
    | some a => exact iff_of_false (fun h => by cases h) fun h => by cases h
  | some j =>
    cases o with
    | none =>
      constructor
      · rintro (⟨hnull, -⟩ | ⟨-, _, -, hsome⟩)
        · exact .inr (congrArg some hnull)
        · cases hsome
      · rintro (hno | hnull)
        · cases hno
        · exact .inl ⟨Option.some.inj hnull, rfl⟩
    | some a =>
      constructor
      · rintro (⟨-, hno⟩ | ⟨-, b, hj, hb⟩)
        · cases hno
        · rw [hj, Option.some.inj hb]
      · intro h
        obtain rfl := Option.some.inj h
        exact .inr ⟨hform a, a, rfl, rfl⟩

theorem Record.Accepts.and {r : Record α} {q : Record β} {R : List (String × Json) → α → Prop}
    {Q : List (String × Json) → β → Prop} (hr : r.Accepts R) (hq : q.Accepts Q) :
    (r.and q).Accepts fun members x => R members x.1 ∧ Q members x.2 where
  gathers m p find members x hshows := by
    show (r.gather m p find >>= fun a => q.gather m p find >>= fun b => .ok (a, b)) = .ok x ↔ _
    rw [bind_eq_ok]
    constructor
    · rintro ⟨a, ha, hrest⟩
      obtain ⟨b, hb, hx⟩ := bind_eq_ok.mp hrest
      cases hx
      exact ⟨(hr.gathers m p find members a hshows).mp ha,
        (hq.gathers m p find members b hshows).mp hb⟩
    · rintro ⟨ha, hb⟩
      refine ⟨x.1, (hr.gathers m p find members x.1 hshows).mpr ha, ?_⟩
      exact bind_eq_ok.mpr ⟨x.2, (hq.gathers m p find members x.2 hshows).mpr hb, rfl⟩
  checks m p find x hok name check doc hcheck hdoc := by
    obtain ⟨a, ha, hrest⟩ := bind_eq_ok.mp hok
    obtain ⟨b, hb, -⟩ := bind_eq_ok.mp hrest
    have happend : (r.fields.lookup name).or (q.fields.lookup name) = some check :=
      List.lookup_append.symm.trans hcheck
    rcases Option.or_eq_some_iff.mp happend with hmine | ⟨-, hyours⟩
    · exact hr.checks m p find a ha name check doc hmine hdoc
    · exact hq.checks m p find b hb name check doc hyours hdoc

theorem Record.Accepts.map {r : Record α} {R : List (String × Json) → α → Prop} (h : r.Accepts R)
    (f : α → β) : (r.map f).Accepts fun members b => ∃ a, R members a ∧ f a = b where
  gathers m p find members b hshows := by
    show (r.gather m p find).map f = .ok b ↔ _
    rw [map_eq_ok]
    exact exists_congr fun a => and_congr_left fun _ => h.gathers m p find members a hshows
  checks m p find b hok name check doc hcheck hdoc := by
    obtain ⟨a, ha, -⟩ := map_eq_ok.mp hok
    exact h.checks m p find a ha name check doc hcheck hdoc

theorem Record.Accepts.congr {r : Record α} {R Q : List (String × Json) → α → Prop}
    (h : r.Accepts R) (hRQ : ∀ members a, R members a ↔ Q members a) : r.Accepts Q where
  gathers m p find members a hshows :=
    (h.gathers m p find members a hshows).trans (hRQ members a)
  checks := h.checks

end Records

theorem memberNamed_of_absent {name : String} :
    ∀ {docs : List (Key × Doc)} {members : List (String × Json)}, MembersSpell docs members →
      members.lookup name = none → memberNamed docs name = none
  | _, _, .nil, _ => rfl
  | _, _, @MembersSpell.cons doc k docs members first gap hdoc hrest, h => by
    by_cases hname : first = name
    · subst hname
      rw [List.lookup_cons_self] at h
      cases h
    · have hne : (name == first) = false := beq_eq_false_iff_ne.mpr fun h => hname h.symm
      rw [List.lookup_cons, hne] at h
      exact (if_neg hname).trans (memberNamed_of_absent hrest h)

theorem shows_of_spells {m : Mode} {docs : List (Key × Doc)} {members : List (String × Json)}
    (h : MembersSpell docs members) (hm : m.Allows (depthMembers members)) :
    Shows m (memberNamed docs) members where
  finds name j hlookup := by
    obtain ⟨doc, hdoc, hspells, hdepth⟩ := memberNamed_of_spells h hlookup
    exact ⟨doc, hdoc, hspells, hm.mono hdepth⟩
  absent _ := memberNamed_of_absent h

/-- The names of the members that a record has checks for. -/
def ownNames (fields : List (String × Decoder Unit)) (members : List (String × Json)) :
    List String := (members.map Prod.fst).filter fun name => (fields.lookup name).isSome

theorem ownNames_cons_of_some {fields : List (String × Decoder Unit)} {name : String}
    {check : Decoder Unit} (h : fields.lookup name = some check) (j : Json)
    (members : List (String × Json)) :
    ownNames fields ((name, j) :: members) = name :: ownNames fields members :=
  List.filter_cons_of_pos (by rw [h]; rfl)

theorem ownNames_cons_of_none {fields : List (String × Decoder Unit)} {name : String}
    (h : fields.lookup name = none) (j : Json) (members : List (String × Json)) :
    ownNames fields ((name, j) :: members) = ownNames fields members :=
  List.filter_cons_of_neg (by rw [h]; exact Bool.false_ne_true)

theorem mem_ownNames {fields : List (String × Decoder Unit)} {members : List (String × Json)}
    {name : String} {check : Decoder Unit} (hthere : members.lookup name ≠ none)
    (hcheck : fields.lookup name = some check) : name ∈ ownNames fields members := by
  obtain ⟨j, hj⟩ := Option.ne_none_iff_exists'.mp hthere
  obtain ⟨before, after, rfl, -⟩ := List.lookup_eq_some_iff.mp hj
  refine List.mem_filter.mpr ⟨?_, by rw [hcheck]; rfl⟩
  exact List.mem_map_of_mem (f := Prod.fst) (List.mem_append_right before List.mem_cons_self)

section Checking

variable {m : Mode} {fields : List (String × Decoder Unit)} {seen : List String} {name : String}
  {gap : List Char} {doc : Doc} {docs : List (Key × Doc)}

theorem checkMembers_other (h : fields.lookup name = none) {j : Json} (hdoc : doc.Spells j) :
    checkMembers m fields seen ((⟨.ok name, gap⟩, doc) :: docs) =
      checkMembers m fields seen docs := by
  simp only [checkMembers, bind, Except.bind, h, pass_of_spells m hdoc]

theorem checkMembers_own {check : Decoder Unit} (h : fields.lookup name = some check)
    (hnew : name ∉ seen) :
    checkMembers m fields seen ((⟨.ok name, gap⟩, doc) :: docs) =
      check m doc >>= fun _ => checkMembers m fields (name :: seen) docs := by
  have hcontains : ¬ seen.contains name = true := by
    rw [List.contains_eq_mem, decide_eq_true_iff]
    exact hnew
  simp only [checkMembers, bind, Except.bind, h, if_neg hcontains]

theorem checkMembers_again {check : Decoder Unit} (h : fields.lookup name = some check)
    (hseen : name ∈ seen) :
    checkMembers m fields seen ((⟨.ok name, gap⟩, doc) :: docs) ≠ .ok () := by
  have hcontains : seen.contains name = true := by
    rw [List.contains_eq_mem, decide_eq_true_iff]
    exact hseen
  simp only [checkMembers, bind, Except.bind, h, if_pos hcontains]
  intro h
  cases h

/-- Members that pass the checks have none of the checked names twice. -/
theorem nodup_of_checkMembers {m : Mode} {fields : List (String × Decoder Unit)} :
    ∀ {docs : List (Key × Doc)} {members : List (String × Json)} {seen : List String},
      MembersSpell docs members → checkMembers m fields seen docs = .ok () →
      (ownNames fields members).Nodup ∧ ∀ name ∈ ownNames fields members, name ∉ seen
  | _, _, _, .nil, _ => ⟨List.nodup_nil, fun _ h => absurd h List.not_mem_nil⟩
  | _, _, seen, @MembersSpell.cons doc j docs members name gap hdoc hrest, h => by
    cases hlookup : fields.lookup name with
    | none =>
      rw [checkMembers_other hlookup hdoc] at h
      rw [ownNames_cons_of_none hlookup]
      exact nodup_of_checkMembers hrest h
    | some check =>
      by_cases hseen : name ∈ seen
      · exact absurd h (checkMembers_again hlookup hseen)
      · rw [checkMembers_own hlookup hseen] at h
        obtain ⟨_, -, h⟩ := bind_eq_ok.mp h
        obtain ⟨hnodup, hnew⟩ := nodup_of_checkMembers hrest h
        rw [ownNames_cons_of_some hlookup]
        refine ⟨List.nodup_cons.mpr ⟨fun hmem => ?_, hnodup⟩, fun other hother => ?_⟩
        · exact hnew name hmem List.mem_cons_self
        · rcases List.mem_cons.mp hother with rfl | hother
          · exact hseen
          · exact fun hmem => hnew other hother (List.mem_cons_of_mem _ hmem)

/-- Members pass the checks if no checked name is there twice and what is found under each of them
passes. -/
theorem checkMembers_of_nodup {m : Mode} {fields : List (String × Decoder Unit)} :
    ∀ {docs : List (Key × Doc)} {members : List (String × Json)} {seen : List String},
      MembersSpell docs members →
      (∀ name check doc, fields.lookup name = some check → memberNamed docs name = some doc →
        check m doc = .ok ()) →
      (ownNames fields members).Nodup → (∀ name ∈ ownNames fields members, name ∉ seen) →
      checkMembers m fields seen docs = .ok ()
  | _, _, _, .nil, _, _, _ => rfl
  | _, _, seen, @MembersSpell.cons doc j docs members name gap hdoc hrest, hpass, hnodup, hnew => by
    -- What is found further on is found here, unless it has the name of the first member.
    have hbehind : ∀ other check doc', other ≠ name → fields.lookup other = some check →
        memberNamed docs other = some doc' → check m doc' = .ok () := by
      intro other check doc' hne hcheck hdoc'
      exact hpass other check doc' hcheck ((if_neg fun h => hne h.symm).trans hdoc')
    cases hlookup : fields.lookup name with
    | none =>
      rw [ownNames_cons_of_none hlookup] at hnodup hnew
      rw [checkMembers_other hlookup hdoc]
      refine checkMembers_of_nodup hrest (fun other check doc' hcheck hdoc' => ?_) hnodup hnew
      refine hbehind other check doc' ?_ hcheck hdoc'
      rintro rfl
      cases hlookup.symm.trans hcheck
    | some check =>
      rw [ownNames_cons_of_some hlookup] at hnodup hnew
      obtain ⟨honce, hnodup⟩ := List.nodup_cons.mp hnodup
      rw [checkMembers_own hlookup (hnew name List.mem_cons_self),
        hpass name check doc hlookup (if_pos rfl)]
      refine checkMembers_of_nodup hrest (fun other check' doc' hcheck hdoc' => ?_) hnodup ?_
      · refine hbehind other check' doc' ?_ hcheck hdoc'
        rintro rfl
        have hthere : members.lookup other ≠ none := by
          intro hnone
          cases hdoc'.symm.trans (memberNamed_of_absent hrest hnone)
        exact honce (mem_ownNames hthere hlookup)
      · intro other hother hmem
        rcases List.mem_cons.mp hmem with rfl | hmem
        · exact honce hother
        · exact hnew other (List.mem_cons_of_mem _ hother) hmem

end Checking

/-- **A record is read from an object** just when none of its own members is there twice and it
gathers the members; their order and other members are of no account. -/
theorem Record.Accepts.object {α : Type} {r : Record α} {R : List (String × Json) → α → Prop}
    (h : r.Accepts R) (title : String) {m : Mode} {start stop : List Char}
    {docs : List (Key × Doc)} {members : List (String × Json)} {a : α}
    (hm : m.Allows (depthMembers members + 1)) (hdocs : MembersSpell docs members) :
    r.decoder title m (.object start docs (.closed stop)) = .ok a ↔
      (ownNames r.fields members).Nodup ∧ R members a := by
  obtain ⟨inner, hinner, hroom⟩ := inside_of_allows hm start
  have hshows := shows_of_spells hdocs hroom
  show (m.inside start >>= fun inner => checkMembers inner r.fields [] docs >>= fun _ =>
    r.gather inner (here stop) (memberNamed docs)) = .ok a ↔ _
  rw [hinner]
  show (checkMembers inner r.fields [] docs >>= _) = .ok a ↔ _
  rw [bind_eq_ok]
  constructor
  · rintro ⟨_, hpass, hgather⟩
    exact ⟨(nodup_of_checkMembers hdocs hpass).1, (h.gathers _ _ _ _ _ hshows).mp hgather⟩
  · rintro ⟨hnodup, hR⟩
    have hgather := (h.gathers inner (here stop) _ _ a hshows).mpr hR
    have hpass : ∀ name check doc, r.fields.lookup name = some check →
        memberNamed docs name = some doc → check inner doc = .ok () :=
      h.checks inner (here stop) _ a hgather
    have hnone : ∀ name ∈ ownNames r.fields members, name ∉ ([] : List String) :=
      fun _ _ => List.not_mem_nil
    exact ⟨(), checkMembers_of_nodup hdocs hpass hnodup hnone, hgather⟩

/-! ## Tags -/

/-- The name of an alternative is a text. -/
theorem accepts_tagName {β : Type} (alts : List (String × β)) :
    (tagName alts).Accepts fun j b => ∃ name, j = .text name ∧ alts.lookup name = some b := by
  intro m doc j b _ hdoc
  cases hdoc with
  | text start stop name =>
    show chosen m (here stop) alts name = .ok b ↔ _
    rw [chosen_eq_ok]
    constructor
    · exact fun h => ⟨name, rfl, h⟩
    · rintro ⟨_, hname, h⟩
      cases hname
      exact h
  | _ => exact iff_of_false (fun h => by cases h) (by rintro ⟨_, hno, -⟩; cases hno)

/-- The documents of some members, and of others behind them. -/
theorem membersSpell_append {before after : List (String × Json)} :
    ∀ {docs : List (Key × Doc)}, MembersSpell docs (before ++ after) →
      ∃ first second, docs = first ++ second ∧ MembersSpell first before ∧
        MembersSpell second after := by
  induction before with
  | nil => exact fun {docs} h => ⟨[], docs, rfl, .nil, h⟩
  | cons m before ih =>
    intro docs h
    cases h with
    | cons name gap hdoc hrest =>
      obtain ⟨first, second, rfl, hfirst, hsecond⟩ := ih hrest
      exact ⟨_ :: first, second, rfl, .cons name gap hdoc hfirst, hsecond⟩

theorem membersSpell_of_append {first second : List (Key × Doc)}
    {before after : List (String × Json)} (h : MembersSpell first before)
    (k : MembersSpell second after) : MembersSpell (first ++ second) (before ++ after) := by
  induction before generalizing first with
  | nil =>
    cases h
    exact k
  | cons m before ih =>
    cases h with
    | cons name gap hdoc hrest => exact .cons name gap hdoc (ih hrest)

section Tags

variable {α β : Type} {depth : Nat} {tag : String}

/-- Members in front that are not the tag are set apart as they are. -/
theorem splitTag_append {alts : List (String × β)} {found : Option β}
    {first second : List (Key × Doc)} {before : List (String × Json)}
    (h : MembersSpell first before) (hdepth : depthMembers before < depth)
    (htag : tag ∉ before.map Prod.fst) :
    splitTag depth tag alts found (first ++ second) =
      (splitTag depth tag alts found second).map fun x => (x.1, first ++ x.2) := by
  induction before generalizing first with
  | nil =>
    cases h
    show splitTag depth tag alts found second = (splitTag depth tag alts found second).map id
    cases splitTag depth tag alts found second <;> rfl
  | cons m before ih =>
    cases h with
    | @cons doc j docs _ name gap hdoc hrest =>
      rw [depthMembers, Nat.max_lt] at hdepth
      rw [List.map_cons, List.mem_cons, not_or] at htag
      have hne : ¬ name = tag := fun h => htag.1 h.symm
      have hjson := json_of_spells hdoc depth hdepth.1
      simp only [List.cons_append, splitTag, bind, Except.bind, if_neg hne, hjson,
        ih hrest hdepth.2 htag.2]
      cases splitTag depth tag alts found second <;> rfl

/-- Members without the tag are set apart as they are. -/
theorem splitTag_of_absent {alts : List (String × β)} {found : Option β} {docs : List (Key × Doc)}
    {members : List (String × Json)} (h : MembersSpell docs members)
    (hdepth : depthMembers members < depth) (htag : tag ∉ members.map Prod.fst) :
    splitTag depth tag alts found docs = .ok (found, docs) := by
  have hall : splitTag depth tag alts found (docs ++ []) = _ := splitTag_append h hdepth htag
  rw [List.append_nil] at hall
  rw [hall]
  show Except.ok (found, docs ++ []) = _
  rw [List.append_nil]

theorem depthMembers_le {n : Nat} : ∀ {members : List (String × Json)},
    (∀ x ∈ members, x.2.depth ≤ n) → depthMembers members ≤ n
  | [], _ => Nat.zero_le n
  | _ :: _, h => by
    obtain ⟨hfirst, hrest⟩ := List.forall_mem_cons.mp h
    exact Nat.max_le.mpr ⟨hfirst, depthMembers_le hrest⟩

theorem depthMembers_append (before after : List (String × Json)) :
    depthMembers (before ++ after) = max (depthMembers before) (depthMembers after) := by
  induction before with
  | nil => exact (Nat.zero_max _).symm
  | cons m before ih =>
    show max m.2.depth (depthMembers (before ++ after)) = max (max m.2.depth _) _
    rw [ih, Nat.max_assoc]

variable {alts : List (String × Decoder α)} {title : String} {start stop : List Char}
  {docs : List (Key × Doc)} {a : α}

/-- Without its tag nothing is read. -/
theorem tagged_of_absent {members : List (String × Json)} (h : MembersSpell docs members)
    (hdepth : depthMembers members + 1 < depth) (htag : tag ∉ members.map Prod.fst) :
    tagged title tag alts depth (.object start docs (.closed stop)) ≠ .ok a := by
  intro hok
  obtain ⟨inner, hinner, hok⟩ := bind_eq_ok.mp hok
  obtain ⟨-, rfl⟩ := deeper_eq_ok.mp hinner
  obtain ⟨⟨found, others⟩, hsplit, hok⟩ := bind_eq_ok.mp hok
  rw [splitTag_of_absent h (Nat.lt_sub_of_add_lt hdepth) htag] at hsplit
  cases hsplit
  cases hok

/-- **A tagged record is what its tag says, with the members before and behind the tag.** -/
theorem tagged_eq_ok {before after : List (String × Json)} {j : Json}
    (h : MembersSpell docs (before ++ (tag, j) :: after))
    (hdepth : depthMembers (before ++ (tag, j) :: after) + 1 < depth)
    (hbefore : tag ∉ before.map Prod.fst) (hafter : tag ∉ after.map Prod.fst) :
    ∃ others, MembersSpell others (before ++ after) ∧ ∀ a,
      tagged title tag alts depth (.object start docs (.closed stop)) = .ok a ↔
        ∃ name d, j = .text name ∧ alts.lookup name = some d ∧
          d .held (.object start others (.closed stop)) = .ok a := by
  obtain ⟨first, second, rfl, hfirst, hsecond⟩ := membersSpell_append h
  cases hsecond with
  | @cons doc _ docs _ _ gap hdoc hrest =>
    have hinside := Nat.lt_sub_of_add_lt hdepth
    rw [depthMembers_append, depthMembers, Nat.max_lt, Nat.max_lt] at hinside
    obtain ⟨hdepthBefore, hdepthTag, hdepthAfter⟩ := hinside
    refine ⟨first ++ docs, membersSpell_of_append hfirst hrest, fun a => ?_⟩
    have hsplit : splitTag (depth - 1) tag alts none (first ++ (⟨.ok tag, gap⟩, doc) :: docs) =
        (tagName alts (.direct (depth - 1)) doc).map fun d => (some d, first ++ docs) := by
      rw [splitTag_append hfirst hdepthBefore hbefore]
      simp only [splitTag, bind, Except.bind, if_true]
      cases tagName alts (.direct (depth - 1)) doc with
      | error t => rfl
      | ok d =>
        show (splitTag (depth - 1) tag alts (some d) docs).map _ = _
        rw [splitTag_of_absent hrest hdepthAfter hafter]
        rfl
    have htag := accepts_tagName alts (.direct (depth - 1)) doc j
    show (Doc.deeper start depth >>= _) = .ok a ↔ _
    rw [deeper_of_lt hdepth]
    show (splitTag (depth - 1) tag alts none (first ++ (⟨.ok tag, gap⟩, doc) :: docs) >>= _) =
      .ok a ↔ _
    rw [hsplit, bind_eq_ok]
    constructor
    · rintro ⟨x, hx, hok⟩
      obtain ⟨d, hd, rfl⟩ := map_eq_ok.mp hx
      obtain ⟨name, hname, hlookup⟩ := (htag d hdepthTag hdoc).mp hd
      exact ⟨name, d, hname, hlookup, hok⟩
    · rintro ⟨name, d, hname, hlookup, hok⟩
      exact ⟨_, map_eq_ok.mpr ⟨d, (htag d hdepthTag hdoc).mpr ⟨name, hname, hlookup⟩, rfl⟩, hok⟩

end Tags

end Lineage.Json
