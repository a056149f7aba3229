import Lineage.Json.Decoder
import Lineage.Proofs.Json.Printed
/-
  Reading what was printed.

  A printed value is parsed as what comes back of it, if that is no deeper than a reader goes
  (`parse_back`): as that value, if there are no doubles in it (`parse_render`).  A decoder that
  makes something of the documents of such a value makes it of the printed value
  (`readText_render`).

  What a decoder makes of a value is `Decoder.Reads`: of every document of the value, and in both
  modes.  It is shown of a decoder by its parts, as decoders are built: of texts and numbers, of
  lists from their items, and of records from their members (`Gathers`), each of which has to be
  read by the check of its name as well.
-/

namespace Lineage.Json

/-! ## Depth -/

mutual

/-- How many arrays and objects stand inside each other. -/
def depth : Json → Nat
  | .null | .bool _ | .number _ | .text _ => 0
  | .array items => depthItems items + 1
  | .object members => depthMembers members + 1

/-- The depth of the deepest item. -/
def depthItems : List Json → Nat
  | [] => 0
  | j :: rest => max j.depth (depthItems rest)

/-- The depth of the deepest member. -/
def depthMembers : List (String × Json) → Nat
  | [] => 0
  | (_, j) :: rest => max j.depth (depthMembers rest)

end

theorem deeper_of_lt {n depth : Nat} (h : n + 1 < depth) (start : List Char) :
    Doc.deeper start depth = .ok (depth - 1) := by
  have hdeep : ¬ depth ≤ 1 := by omega
  rw [Doc.deeper, if_neg hdeep]

/-! ## Objects of texts -/

/-- The members with these names and texts. -/
def texts (entries : List (String × String)) : List (String × Json) :=
  entries.map fun (key, value) => (key, .text value)

/-- An object of texts has no doubles in it, and nothing below its members. -/
theorem wholeMembers_texts : ∀ entries : List (String × String), WholeMembers (texts entries)
  | [] => trivial
  | _ :: rest => ⟨trivial, wholeMembers_texts rest⟩

theorem depthMembers_texts : ∀ entries : List (String × String), depthMembers (texts entries) = 0
  | [] => rfl
  | _ :: rest => (Nat.zero_max _).trans (depthMembers_texts rest)

/-- If no item has a double in it or passes a depth, neither do the items together. -/
theorem whole_items {n : Nat} : ∀ {items : List Json}, (∀ j ∈ items, j.Whole ∧ j.depth ≤ n) →
    WholeItems items ∧ depthItems items ≤ n
  | [], _ => ⟨trivial, Nat.zero_le n⟩
  | _ :: _, h => by
    obtain ⟨⟨hwhole, hdepth⟩, hrest⟩ := List.forall_mem_cons.mp h
    obtain ⟨hwholeRest, hdepthRest⟩ := whole_items hrest
    exact ⟨⟨hwhole, hwholeRest⟩, Nat.max_le.mpr ⟨hdepth, hdepthRest⟩⟩

/-! ## Parsing -/

mutual

/-- The document of a value is read as that value. -/
theorem json_of_spells : ∀ {doc : Doc} {j : Json}, doc.Spells j → ∀ depth, j.depth < depth →
    doc.json depth = .ok j
  | _, _, .null _ _, _, _ => rfl
  | _, _, .bool _ _ _, _, _ => rfl
  | _, _, .number _ _ _, _, _ => rfl
  | _, _, .text _ _ _, _, _ => rfl
  | _, _, @Doc.Spells.array docs items start stop h, depth, hdepth => by
    have hitems := jsonItems_of_spells h (depth - 1) (Nat.lt_sub_of_add_lt hdepth)
    show (Doc.deeper start depth).bind _ = _
    rw [deeper_of_lt hdepth]
    show (Doc.jsonItems (depth - 1) docs).bind _ = _
    rw [hitems]
    rfl
  | _, _, @Doc.Spells.object docs members start stop h, depth, hdepth => by
    have hmembers := jsonMembers_of_spells h (depth - 1) (Nat.lt_sub_of_add_lt hdepth)
    show (Doc.deeper start depth).bind _ = _
    rw [deeper_of_lt hdepth]
    show (Doc.jsonMembers (depth - 1) docs).bind _ = _
    rw [hmembers]
    rfl

theorem jsonItems_of_spells : ∀ {docs : List Doc} {items : List Json}, ItemsSpell docs items →
    ∀ depth, depthItems items < depth → Doc.jsonItems depth docs = .ok items
  | _, _, .nil, _, _ => rfl
  | _, _, @ItemsSpell.cons doc j docs items h hrest, depth, hdepth => by
    rw [depthItems, Nat.max_lt] at hdepth
    show (doc.json depth).bind _ = _
    rw [json_of_spells h depth hdepth.1]
    show (Doc.jsonItems depth docs).bind _ = _
    rw [jsonItems_of_spells hrest depth hdepth.2]
    rfl

theorem jsonMembers_of_spells : ∀ {docs : List (Key × Doc)} {members : List (String × Json)},
    MembersSpell docs members → ∀ depth, depthMembers members < depth →
    Doc.jsonMembers depth docs = .ok members
  | _, _, .nil, _, _ => rfl
  | _, _, @MembersSpell.cons doc j docs members name gap h hrest, depth, hdepth => by
    rw [depthMembers, Nat.max_lt] at hdepth
    show (doc.json depth).bind _ = _
    rw [json_of_spells h depth hdepth.1]
    show (Doc.jsonMembers depth docs).bind _ = _
    rw [jsonMembers_of_spells hrest depth hdepth.2]
    rfl

end

/-- A printed value has a document of what comes back of it, and nothing stands behind. -/
theorem spells_render {j : Json} (h : j.Signed) :
    (Doc.ofChars j.render.toList).SpellsUpTo j.back [] := by
  have hends : Stops [] := fun c hc => nomatch hc
  have hprinted := value_printed j h hends (Nat.le_add_right _ 2)
  have htext : j.render.toList = j.print := String.toList_ofList
  rw [List.append_nil] at hprinted
  rw [htext]
  exact hprinted

/-- What a reader makes of every document of what comes back of a value, it makes of the printed
value. -/
theorem readWith_back {α : Type} {reader : Doc → Except Trouble α} {j : Json} {a : α}
    (hsigned : j.Signed) (h : ∀ doc, doc.Spells j.back → reader doc = .ok a) :
    readWith reader j.render = .ok a := by
  obtain ⟨hspells, hout⟩ := spells_render hsigned
  rw [readWith]
  simp only [h _ hspells, hout]
  rfl

/-- What a reader makes of every document of a value without doubles, it makes of the printed
value. -/
theorem readWith_render {α : Type} {reader : Doc → Except Trouble α} {j : Json} {a : α}
    (hwhole : j.Whole) (h : ∀ doc, doc.Spells j → reader doc = .ok a) :
    readWith reader j.render = .ok a := by
  obtain ⟨hsigned, hback⟩ := back_of_whole hwhole
  exact readWith_back hsigned fun doc hdoc => h doc (hback ▸ hdoc)

/-- **A printed value is parsed as what comes back of it.** -/
theorem parse_back {j : Json} (hsigned : j.Signed) (hdepth : j.back.depth < Doc.depthLimit) :
    parse j.render = .ok j.back :=
  readWith_back hsigned fun _ h => json_of_spells h Doc.depthLimit hdepth

/-- **A printed value without doubles is parsed as that value.** -/
theorem parse_render {j : Json} (hwhole : j.Whole) (hdepth : j.depth < Doc.depthLimit) :
    parse j.render = .ok j :=
  readWith_render hwhole fun _ h => json_of_spells h Doc.depthLimit hdepth

/-! ## What decoders make of values -/

/-- The mode leaves room for a value of this depth. -/
def Mode.Allows : Mode → Nat → Prop
  | .direct depth, n => n < depth
  | .held, _ => True

theorem Mode.Allows.mono {m : Mode} {n k : Nat} (h : m.Allows k) (hle : n ≤ k) : m.Allows n := by
  cases m with
  | direct depth => exact Nat.lt_of_le_of_lt hle h
  | held => trivial

/-- Where there is room for an array or object, there is room inside for what it holds. -/
theorem inside_of_allows {m : Mode} {n : Nat} (h : m.Allows (n + 1)) (start : List Char) :
    ∃ inner, m.inside start = .ok inner ∧ inner.Allows n := by
  cases m with
  | direct depth =>
    refine ⟨.direct (depth - 1), ?_, Nat.lt_sub_of_add_lt h⟩
    rw [Mode.inside, deeper_of_lt h]
    rfl
  | held => exact ⟨.held, rfl, trivial⟩

/-- The decoder makes `a` of every document of the value. -/
def Decoder.Reads {α : Type} (d : Decoder α) (j : Json) (a : α) : Prop :=
  ∀ m doc, m.Allows j.depth → doc.Spells j → d m doc = .ok a

/-- **What a decoder makes of a value, it makes of the printed value.** -/
theorem readText_render {α : Type} {d : Decoder α} {j : Json} {a : α} (h : d.Reads j a)
    (hwhole : j.Whole) (hdepth : j.depth < Doc.depthLimit) : d.readText j.render = .ok a :=
  readWith_render hwhole fun doc hdoc => h (.direct Doc.depthLimit) doc hdepth hdoc

namespace Decoder

variable {α β : Type}

theorem reads_text (s : String) : text.Reads (.text s) s := by
  intro m doc _ hdoc
  cases hdoc with
  | text start stop s => rfl

theorem reads_bool (b : Bool) : bool.Reads (.bool b) b := by
  intro m doc _ hdoc
  cases hdoc with
  | bool start stop b => rfl

theorem reads_natural (n : UInt64) : natural.Reads (.number (.unsigned n)) n := by
  intro m doc _ hdoc
  cases hdoc with
  | number start stop n => rfl

theorem Reads.map {d : Decoder α} {j : Json} {a : α} (h : d.Reads j a) (f : α → β) :
    (d.map f).Reads j (f a) := by
  intro m doc hm hdoc
  rw [Decoder.map, h m doc hm hdoc]
  rfl

/-- An alternative without a value is read from its name. -/
theorem reads_bare {alts : List (String × Payload α)} {name : String} {a : α}
    (h : alts.lookup name = some (.bare a)) : (alternatives alts).Reads (.text name) a := by
  intro m doc _ hdoc
  cases hdoc with
  | text start stop name =>
    show (chosen m (here stop) alts name).bind _ = _
    rw [chosen, h]
    rfl

theorem items_of_reads {d : Decoder α} {f : α → Json} (h : ∀ a, d.Reads (f a) a) {m : Mode} :
    ∀ {as : List α} {docs : List Doc}, m.Allows (depthItems (as.map f)) →
      ItemsSpell docs (as.map f) → items d m docs = .ok as
  | [], _, _, .nil => rfl
  | a :: as, _, hm, @ItemsSpell.cons doc _ docs _ hdoc hrest => by
    rw [List.map_cons, depthItems] at hm
    show (d m doc).bind _ = _
    rw [h a m doc (hm.mono (Nat.le_max_left ..)) hdoc]
    show (items d m docs).bind _ = _
    rw [items_of_reads h (hm.mono (Nat.le_max_right ..)) hrest]
    rfl

/-- A list is read item by item. -/
theorem reads_list {d : Decoder α} {f : α → Json} (h : ∀ a, d.Reads (f a) a) (as : List α) :
    (list d).Reads (.array (as.map f)) as := by
  intro m doc hm hdoc
  cases hdoc with
  | @array docs items start stop hdocs =>
    obtain ⟨inner, hinner, hroom⟩ := inside_of_allows hm start
    show (m.inside start).bind _ = _
    rw [hinner]
    show (Decoder.items d inner docs).bind _ = _
    rw [items_of_reads h hroom hdocs]
    rfl

end Decoder

/-! ## Records -/

/-- Under every name the documents have one for the member that the value has. -/
def Finds (m : Mode) (find : String → Option Doc) (members : List (String × Json)) : Prop :=
  ∀ name j, members.lookup name = some j →
    ∃ doc, find name = some doc ∧ doc.Spells j ∧ m.Allows j.depth

/-- The record makes `a` of the members. -/
def Record.Gathers {α : Type} (r : Record α) (members : List (String × Json)) (a : α) : Prop :=
  ∀ m p find, Finds m find members → r.gather m p find = .ok a

section Records

variable {α β : Type} {members : List (String × Json)}

theorem Field.gathers {f : Field α} {j : Json} {a : α} (hlookup : members.lookup f.name = some j)
    (h : f.decode.Reads j a) : f.record.Gathers members a := by
  intro m p find hfind
  obtain ⟨doc, hdoc, hspells, hm⟩ := hfind f.name j hlookup
  simp only [Field.record, hdoc]
  exact h m doc hm hspells

theorem Record.Gathers.and {r : Record α} {q : Record β} {a : α} {b : β} (hr : r.Gathers members a)
    (hq : q.Gathers members b) : (r.and q).Gathers members (a, b) := by
  intro m p find hfind
  show (r.gather m p find).bind _ = _
  rw [hr m p find hfind]
  show (q.gather m p find).bind _ = _
  rw [hq m p find hfind]
  rfl

theorem Record.Gathers.map {r : Record α} {a : α} (hr : r.Gathers members a) (f : α → β) :
    (r.map f).Gathers members (f a) := by
  intro m p find hfind
  show (r.gather m p find).map f = _
  rw [hr m p find hfind]
  rfl

end Records

/-- The document under a name is that of the member of that name. -/
theorem memberNamed_of_spells {name : String} {j : Json} :
    ∀ {docs : List (Key × Doc)} {members : List (String × Json)}, MembersSpell docs members →
      members.lookup name = some j →
      ∃ doc, memberNamed docs name = some doc ∧ doc.Spells j ∧ j.depth ≤ depthMembers members
  | _, _, @MembersSpell.cons doc k docs members first gap hdoc hrest, h => by
    by_cases hname : first = name
    · subst hname
      rw [List.lookup_cons_self] at h
      obtain rfl := Option.some.inj h
      exact ⟨doc, if_pos rfl, hdoc, Nat.le_max_left ..⟩
    · have hne : (name == first) = false := beq_eq_false_iff_ne.mpr fun h => hname h.symm
      rw [List.lookup_cons, hne] at h
      obtain ⟨doc', hdoc', hspells, hdepth⟩ := memberNamed_of_spells hrest h
      have hle := Nat.le_trans hdepth (Nat.le_max_right k.depth (depthMembers members))
      exact ⟨doc', (if_neg hname).trans hdoc', hspells, hle⟩

/-- The member of each name is read by the check of that name. -/
def Checks (fields : List (String × Decoder Unit)) (members : List (String × Json)) : Prop :=
  ∀ m ∈ members, ∃ check, fields.lookup m.1 = some check ∧ check.Reads m.2 ()

/-- Members that have checks pass them, if there are no two of one name. -/
theorem checkMembers_of_checks {m : Mode} {fields : List (String × Decoder Unit)} :
    ∀ {docs : List (Key × Doc)} {members : List (String × Json)} {seen : List String},
      MembersSpell docs members → Checks fields members → m.Allows (depthMembers members) →
      (∀ x ∈ members, x.1 ∉ seen) → (members.map Prod.fst).Nodup →
      checkMembers m fields seen docs = .ok ()
  | _, _, _, .nil, _, _, _, _ => rfl
  | _, _, seen, @MembersSpell.cons doc j docs members name gap hdoc hrest, hchecks, hm, hseen,
    hnodup => by
    obtain ⟨check, hlookup, hcheck⟩ := hchecks (name, j) List.mem_cons_self
    have hnew : seen.contains name = false := by
      rw [List.contains_eq_mem, decide_eq_false_iff_not]
      exact hseen (name, j) List.mem_cons_self
    rw [depthMembers] at hm
    rw [List.map_cons, List.nodup_cons] at hnodup
    -- The name of this member is not that of a later one.
    have hlater : ∀ x ∈ members, x.1 ∉ name :: seen := by
      intro x hx hmem
      rcases List.mem_cons.mp hmem with hname | hmem
      · have hfirst : x.1 ∈ members.map Prod.fst := List.mem_map_of_mem hx
        exact hnodup.1 (hname ▸ hfirst)
      · exact hseen x (List.mem_cons_of_mem _ hx) hmem
    have hothers := checkMembers_of_checks hrest
      (fun x hx => hchecks x (List.mem_cons_of_mem _ hx)) (hm.mono (Nat.le_max_right ..)) hlater
      hnodup.2
    have hthis := hcheck m doc (hm.mono (Nat.le_max_left ..)) hdoc
    simp only [checkMembers, bind, Except.bind, hlookup, hnew, hthis, Bool.false_eq_true, if_false]
    exact hothers

/-- **A record is read from an object** whose members have checks and gather to it. -/
theorem Record.reads {α : Type} {r : Record α} {members : List (String × Json)} {a : α}
    (hnodup : (members.map Prod.fst).Nodup) (hchecks : Checks r.fields members)
    (hgathers : r.Gathers members a) (title : String) :
    (r.decoder title).Reads (.object members) a := by
  intro m doc hm hdoc
  cases hdoc with
  | @object docs members start stop hdocs =>
    obtain ⟨inner, hinner, hroom⟩ := inside_of_allows hm start
    have hnone : ∀ x ∈ members, x.1 ∉ ([] : List String) := fun x _ => List.not_mem_nil
    have hpass := checkMembers_of_checks hdocs hchecks hroom hnone hnodup
    have hfinds : Finds inner (memberNamed docs) members := by
      intro name j hlookup
      obtain ⟨doc, hdoc, hspells, hdepth⟩ := memberNamed_of_spells hdocs hlookup
      exact ⟨doc, hdoc, hspells, hroom.mono hdepth⟩
    show (m.inside start).bind _ = _
    rw [hinner]
    show (checkMembers inner r.fields [] docs).bind _ = _
    rw [hpass]
    exact hgathers inner _ _ hfinds

end Lineage.Json
