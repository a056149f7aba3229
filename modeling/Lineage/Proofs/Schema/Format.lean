import Lineage.Proofs.Dataset.DescriptorText
import Lineage.Proofs.Entries
import Lineage.Proofs.Json.Passing
import Mathlib.Data.List.Perm.Basic
/-
  The format of a schema.

  A schema has two forms in JSON: a text with the members of each column in the order of
  declaration, and a dictionary, where they are ordered by name.  Read as a value, the text is the
  dictionary; read as a schema, it is the schema (`Schema.json_agrees`).

  It stays so after editing.  A column is told by its type, its name and its requirement, wherever
  they stand in the object and whatever else stands there (`ColumnSpec.record_accepts`), and where
  the requirement is missing it holds.  So the members may be reordered, others may be put between
  them, and a requirement that holds may be left out (`ColumnSpec.EditedMembers`); but a type or a
  name may not.
-/

namespace Lineage

open Json

/-! ## Dictionaries -/

namespace Json

/-- Puts a member into a dictionary that is ordered by name, in the place of the one with its name
if there is one. -/
def enter (m : String × Json) : List (String × Json) → List (String × Json)
  | [] => [m]
  | n :: rest =>
    if n.1 < m.1 then n :: enter m rest
    else if n.1 = m.1 then m :: rest
    else m :: n :: rest

mutual

/-- The value with dictionaries for its objects: they are ordered by name, and of members with one
name the last one counts. -/
def keyed : Json → Json
  | .null => .null
  | .bool b => .bool b
  | .number n => .number n
  | .text s => .text s
  | .array items => .array (keyedItems items)
  | .object members => .object (keyedMembers [] members)

/-- The items with dictionaries for their objects. -/
def keyedItems : List Json → List Json
  | [] => []
  | j :: rest => j.keyed :: keyedItems rest

/-- The dictionary with further members put into it. -/
def keyedMembers (dict : List (String × Json)) : List (String × Json) → List (String × Json)
  | [] => dict
  | (name, j) :: rest => keyedMembers (enter (name, j.keyed) dict) rest

end

theorem keyedItems_eq : ∀ items : List Json, keyedItems items = items.map keyed
  | [] => rfl
  | j :: items => congrArg (j.keyed :: ·) (keyedItems_eq items)

end Json

/-! ## Types -/

theorem ColumnType.lookup_named_iff {s : String} {t : ColumnType} :
    named.lookup s = some t ↔ s = t.name := by
  constructor
  · intro h
    have hall : ∀ x ∈ named, x.1 = x.2.name := by decide
    exact hall (s, t) (mem_of_lookup h)
  · rintro rfl
    cases t <;> rfl

/-- A type is accepted by its name, and as an object with nothing under its name. -/
theorem ColumnType.accepts :
    decoder.Accepts fun j t => j = t.toJson ∨ j = .object [(t.name, .null)] := by
  have hlookup : ∀ s, (named.map fun x => (x.1, Payload.bare x.2)).lookup s =
      (named.lookup s).map .bare := fun s => lookup_map Payload.bare s named
  have hpayload : ∀ s payload, (named.map fun x => (x.1, Payload.bare x.2)).lookup s =
      some payload → payload.Accepts fun j t => j = .null ∧ s = t.name := by
    intro s payload h
    rw [hlookup, Option.map_eq_some_iff] at h
    obtain ⟨t, ht, rfl⟩ := h
    obtain rfl := lookup_named_iff.mp ht
    intro m doc j u hm hdoc
    show ((Decoder.unit m doc).map fun _ => t) = .ok u ↔ _
    rw [map_eq_ok]
    constructor
    · rintro ⟨_, hunit, rfl⟩
      exact ⟨(Decoder.accepts_unit m doc j () hm hdoc).mp hunit, rfl⟩
    · rintro ⟨hj, hname⟩
      have hsame : some t = some u :=
        (lookup_named_iff.mpr rfl).symm.trans (lookup_named_iff.mpr hname)
      exact ⟨(), (Decoder.accepts_unit m doc j () hm hdoc).mpr hj, Option.some.inj hsame⟩
  intro m doc j t hm hdoc
  refine (accepts_alternatives hpayload m doc j t hm hdoc).trans ?_
  unfold Json.Alternative toJson
  split
  · rename_i s
    rw [hlookup, Option.map_eq_some_iff]
    constructor
    · rintro ⟨u, hu, hut⟩
      obtain rfl := Payload.bare.inj hut
      exact .inl (congrArg Json.text (lookup_named_iff.mp hu))
    · rintro (hs | hs)
      · exact ⟨t, lookup_named_iff.mpr (Json.text.inj hs), rfl⟩
      · cases hs
  · rename_i s k
    constructor
    · rintro ⟨-, rfl, rfl⟩
      exact .inr rfl
    · rintro (h | h)
      · cases h
      · cases h
        refine ⟨?_, rfl, rfl⟩
        rw [hlookup, lookup_named_iff.mpr rfl]
        rfl
  · rename_i hnoText hnoObject
    refine iff_of_false id ?_
    rintro (rfl | rfl)
    · exact hnoText _ rfl
    · exact hnoObject _ _ rfl

/-! ## Columns -/

namespace ColumnSpec

/-- A column is told by its type, its name and its requirement, which holds if it is missing. -/
def IsTold (members : List (String × Json)) (c : ColumnSpec) : Prop :=
  (∃ j, members.lookup "type" = some j ∧ (j = c.type.toJson ∨ j = .object [(c.type.name, .null)])) ∧
    members.lookup "name" = some (.text c.name) ∧
    (members.lookup "required" = some (.bool c.required) ∨
      members.lookup "required" = none ∧ c.required = true)

/-- A column is read from the members that tell it. -/
theorem record_accepts : record.Accepts IsTold := by
  have htype := Field.accepts (f := ⟨"type", ColumnType.decoder, none, none⟩) ColumnType.accepts
  have hname := Field.accepts (f := ⟨"name", Decoder.text, none, none⟩) Decoder.accepts_text
  have hrequired := Field.accepts (f := ⟨"required", Decoder.bool, some true, some true⟩)
    Decoder.accepts_bool
  have hrecord : record.Accepts _ :=
    ((htype.and hname).and hrequired).map fun x => ColumnSpec.mk x.1.1 x.1.2 x.2
  refine hrecord.congr fun members c => ?_
  constructor
  · rintro ⟨⟨⟨t, n⟩, required⟩, ⟨⟨ht, hn⟩, hr⟩, rfl⟩
    refine ⟨?_, Field.value_required.mp hn, ?_⟩
    · rcases Field.value_iff.mp ht with htold | ⟨-, hno⟩
      · exact htold
      · cases hno
    · rcases Field.value_iff.mp hr with ⟨_, hlookup, rfl⟩ | ⟨hnone, htrue⟩
      · exact .inl hlookup
      · exact .inr ⟨hnone, (Option.some.inj htrue).symm⟩
  · rintro ⟨ht, hn, hr⟩
    refine ⟨((c.type, c.name), c.required), ⟨⟨?_, Field.value_required.mpr hn⟩, ?_⟩, rfl⟩
    · exact Field.value_iff.mpr (.inl ht)
    · rcases hr with hlookup | ⟨hnone, htrue⟩
      · exact Field.value_iff.mpr (.inl ⟨_, hlookup, rfl⟩)
      · exact Field.value_iff.mpr (.inr ⟨hnone, congrArg some htrue.symm⟩)

/-- What a column is read from are its own members. -/
theorem record_local : record.Local :=
  (((Field.local ⟨"type", ColumnType.decoder, none, none⟩).and
    (Field.local ⟨"name", Decoder.text, none, none⟩)).and
      (Field.local ⟨"required", Decoder.bool, some true, some true⟩)).map _

/-- A column has a type and a name. -/
theorem record_requires : record.Requires "type" ∧ record.Requires "name" := by
  have htype := Field.requires (f := ⟨"type", ColumnType.decoder, none, none⟩) rfl
  have hname := Field.requires (f := ⟨"name", Decoder.text, none, none⟩) rfl
  exact ⟨((htype.and_left _).and_left _).map _, ((hname.and_right _).and_left _).map _⟩

/-- The names of the members of a column. -/
def memberNames : List String := ["type", "name", "required"]

theorem isSome_lookup_fields (name : String) :
    (record.fields.lookup name).isSome = true ↔ name ∈ memberNames := by
  rw [Option.isSome_iff_ne_none, lookup_ne_none_iff]
  exact Iff.rfl

/-- What is kept of the members of a column: all of them, or all but a requirement that holds. -/
def Kept (c : ColumnSpec) (js : List (String × Json)) : Prop :=
  js = c.members ∨ c.required = true ∧ js = [("type", c.type.toJson), ("name", .text c.name)]

/-- The members of a column after editing: what is kept of them, each written in any way that is
read as its value, and others that may be anything, in any order. -/
def EditedMembers (c : ColumnSpec) (members : List (String × String)) : Prop :=
  ∃ js kept added, c.Kept js ∧ List.Forall₂ (fun m x => m.1 = x.1 ∧ parse m.2 = .ok x.2) kept js ∧
    (∀ m ∈ added, m.1 ∉ memberNames) ∧ members.Perm (kept ++ added)

theorem Kept.isTold {c : ColumnSpec} {js : List (String × Json)} (h : c.Kept js) : c.IsTold js := by
  rcases h with rfl | ⟨htrue, rfl⟩
  · exact ⟨⟨_, rfl, .inl rfl⟩, rfl, .inl rfl⟩
  · exact ⟨⟨_, rfl, .inl rfl⟩, rfl, .inr ⟨rfl, htrue⟩⟩

theorem Kept.nodup {c : ColumnSpec} {js : List (String × Json)} (h : c.Kept js) :
    (js.map Prod.fst).Nodup := by
  rcases h with rfl | ⟨-, rfl⟩
  · show ["type", "name", "required"].Nodup
    decide
  · show ["type", "name"].Nodup
    decide

theorem Kept.mem {c : ColumnSpec} {js : List (String × Json)} (h : c.Kept js) :
    ∀ x ∈ js, x.1 ∈ memberNames ∧ x.2.Whole ∧ x.2.depth = 0 := by
  rcases h with rfl | ⟨-, rfl⟩ <;>
    simp [members, memberNames, ColumnType.toJson, Whole, depth]

/-- The order of different members is of no account. -/
theorem IsTold.perm {c : ColumnSpec} {js ks : List (String × Json)} (h : c.IsTold js)
    (hnodup : (js.map Prod.fst).Nodup) (hperm : js.Perm ks) : c.IsTold ks := by
  unfold IsTold at h ⊢
  rwa [lookup_perm hnodup hperm, lookup_perm hnodup hperm, lookup_perm hnodup hperm] at h

/-- **A column is read from its members after editing.** -/
theorem decoder_edited {c : ColumnSpec} {members : List (String × String)}
    (h : c.EditedMembers members) {doc : Doc} (hdoc : doc.HasMembers members) {n : Nat}
    (hn : 1 < n) : decoder (.direct n) doc = .ok c := by
  obtain ⟨js, kept, added, hkept, hwritten, hadded, hperm⟩ := h
  have hstand : Stand kept js := hwritten.imp fun m x hm => ⟨hm.1, (spells_of_parse hm.2).1⟩
  have hnames : kept.map Prod.fst = js.map Prod.fst := hstand.names.symm
  -- The members of its own are those that are kept.
  have hown : (members.filter fun m => (record.fields.lookup m.1).isSome).Perm kept := by
    refine (hperm.filter _).trans ?_
    have hmine : ∀ m ∈ kept, (record.fields.lookup m.1).isSome = true := by
      intro m hm
      have hmem : m.1 ∈ js.map Prod.fst := hnames ▸ List.mem_map_of_mem hm
      obtain ⟨x, hx, hname⟩ := List.mem_map.mp hmem
      exact (isSome_lookup_fields m.1).mpr (hname ▸ (hkept.mem x hx).1)
    have hothers : ∀ m ∈ added, ¬ (record.fields.lookup m.1).isSome = true := fun m hm hsome =>
      hadded m hm ((isSome_lookup_fields m.1).mp hsome)
    rw [List.filter_append, List.filter_eq_self.mpr hmine, List.filter_eq_nil_iff.mpr hothers,
      List.append_nil]
  obtain ⟨ks, hks, hreordered⟩ : ∃ ks, Stand (members.filter fun m =>
      (record.fields.lookup m.1).isSome) ks ∧ ks.Perm js := by
    obtain ⟨ks, hks, hreordered⟩ := List.perm_comp_forall₂ hown hstand
    exact ⟨ks, hks, hreordered⟩
  have hdepth : depthMembers ks ≤ 0 := by
    refine depthMembers_le fun x hx => ?_
    exact Nat.le_of_eq (hkept.mem x (hreordered.mem_iff.mp hx)).2.2
  have hnodup : (ks.map Prod.fst).Nodup := (hreordered.map Prod.fst).nodup_iff.mpr hkept.nodup
  refine (record_accepts.hasMembers record_local hdoc hks (by omega)).mpr ⟨hnodup.filter _, ?_⟩
  exact hkept.isTold.perm hkept.nodup hreordered.symm

/-- What is written for a column is edited in no way. -/
theorem editedMembers_written (c : ColumnSpec) :
    c.EditedMembers (c.members.map fun m => (m.1, m.2.render)) := by
  have hkept : c.Kept c.members := .inl rfl
  have hlimit : 0 < Doc.depthLimit := by decide
  refine ⟨c.members, c.members.map fun m => (m.1, m.2.render), [], hkept, ?_, by simp, by simp⟩
  rw [List.forall₂_map_left_iff, List.forall₂_same]
  intro x hx
  obtain ⟨-, hwhole, hdepth⟩ := hkept.mem x hx
  exact ⟨rfl, parse_render hwhole (hdepth.symm ▸ hlimit)⟩

/-- A column without a type or without a name is not read. -/
theorem decoder_ne_ok {members : List (String × String)} (h : "type" ∉ members.map Prod.fst ∨
    "name" ∉ members.map Prod.fst) {doc : Doc} (hdoc : doc.HasMembers members) (n : Nat)
    (c : ColumnSpec) : decoder (.direct n) doc ≠ .ok c := by
  rcases h with htype | hname
  · exact record_requires.1.hasMembers hdoc htype
  · exact record_requires.2.hasMembers hdoc hname

/-- As a dictionary, a column has its members ordered by name. -/
theorem keyed_toJson (c : ColumnSpec) : c.toJson.keyed = .dict c.members := by
  have hname : ¬ "type" < "name" := by decide
  have hrequired : "name" < "required" := by decide
  have htype : ¬ "type" < "required" := by decide
  rw [dict_members]
  simp only [toJson, members, sortedMembers, ColumnType.toJson, keyed, keyedMembers, enter,
    if_neg hname, if_pos hrequired, if_neg htype, String.reduceEq, if_false]

end ColumnSpec

/-! ## Schemas -/

namespace Schema

/-- The text of a schema after editing: an array of objects with the members of the columns after
editing, in order. -/
def EditedText (s : Schema) (text : String) : Prop :=
  ∃ items, ArrayText text items ∧
    List.Forall₂ (fun c v => ∃ members, ObjectOf v members ∧ c.EditedMembers members) s.columns items

/-- A schema is read from an array just when its columns are from the items. -/
theorem readText_array {text : String} {items : List String} (h : ArrayText text items) :
    ∃ docs, List.Forall₂ (fun v d => ∀ members, ObjectOf v members → Doc.HasMembers d members)
        items docs ∧
      ∀ s, decoder.readText text = .ok s ↔ List.Forall₂ (fun doc c =>
        ColumnSpec.decoder (.direct (Doc.depthLimit - 1)) doc = .ok c) docs s.columns := by
  obtain ⟨_, ⟨start, docs, stop, rfl, hdocs⟩, hreader⟩ := h.readWith_eq_ok
  have hlimit : 1 < Doc.depthLimit := by decide
  refine ⟨docs, hdocs, fun s => ?_⟩
  rw [← list_eq_ok_iff hlimit]
  refine hreader.trans (map_eq_ok.trans ?_)
  constructor
  · rintro ⟨columns, hcolumns, rfl⟩
    exact hcolumns
  · exact fun hcolumns => ⟨s.columns, hcolumns, rfl⟩

theorem readText_edited {s : Schema} {text : String} (h : s.EditedText text) :
    decoder.readText text = .ok s := by
  obtain ⟨items, htext, hitems⟩ := h
  obtain ⟨docs, hdocs, hread⟩ := readText_array htext
  have hlimit : 1 < Doc.depthLimit - 1 := by decide
  rw [hread]
  refine forall₂_through (fun c v doc hc hdoc => ?_) hitems hdocs
  obtain ⟨members, hmembers, hedited⟩ := hc
  exact ColumnSpec.decoder_edited hedited (hdoc members hmembers) hlimit

theorem readText_ne_ok {text v : String} {items : List String} {members : List (String × String)}
    (h : ArrayText text items) (hv : v ∈ items) (hmembers : ObjectOf v members)
    (hnames : "type" ∉ members.map Prod.fst ∨ "name" ∉ members.map Prod.fst) (s : Schema) :
    decoder.readText text ≠ .ok s := by
  obtain ⟨docs, hdocs, hread⟩ := readText_array h
  intro hok
  obtain ⟨doc, hdoc, hobject⟩ := exists_mem_of_forall₂ hdocs v hv
  obtain ⟨c, -, hc⟩ := exists_mem_of_forall₂ ((hread s).mp hok) doc hdoc
  exact ColumnSpec.decoder_ne_ok hnames (hobject members hmembers) _ c hc

theorem whole_toJson (s : Schema) : s.toJson.Whole ∧ s.toJson.depth ≤ 2 := by
  have hcolumn : ∀ c : ColumnSpec, c.toJson.Whole ∧ c.toJson.depth ≤ 1 := fun _ =>
    ⟨⟨trivial, trivial, trivial, trivial⟩, Nat.le_refl 1⟩
  obtain ⟨hwhole, hdepth⟩ := whole_items (List.forall_mem_map.mpr fun c (_ : c ∈ s.columns) =>
    hcolumn c)
  exact ⟨hwhole, Nat.succ_le_succ hdepth⟩

/-- What is written for a schema is edited in no way. -/
theorem editedText_render (s : Schema) : s.EditedText s.toJson.render := by
  obtain ⟨hsigned, -⟩ := backItems_of_whole s.whole_toJson.1
  refine ⟨_, arrayText_render hsigned, ?_⟩
  rw [List.forall₂_map_right_iff, List.forall₂_map_right_iff, List.forall₂_same]
  intro c _
  exact ⟨_, objectOf_render ⟨trivial, trivial, trivial, trivial⟩, c.editedMembers_written⟩

/-- Read as a value with dictionaries, the text of a schema is its dictionary. -/
theorem parse_toJson (s : Schema) : (parse s.toJson.render).map keyed = .ok s.toDict := by
  obtain ⟨hwhole, hdepth⟩ := s.whole_toJson
  have hlimit : 2 < Doc.depthLimit := by decide
  have hparse : parse s.toJson.render = .ok s.toJson :=
    parse_render hwhole (Nat.lt_of_le_of_lt hdepth hlimit)
  have hkeyed : s.toJson.keyed = s.toDict := by
    show Json.array (keyedItems (s.columns.map ColumnSpec.toJson)) = _
    rw [keyedItems_eq, List.map_map]
    exact congrArg Json.array (List.map_congr_left fun c _ => c.keyed_toJson)
  rw [hparse, ← hkeyed]
  rfl

/-- **A schema and its JSON agree.**  Read as a value, its text is its dictionary.  Read as a
schema, its text is the schema, and so is every text that comes of it by editing: by reordering the
members of columns, putting any others between them, and leaving out requirements that hold.  But no
array is read as a schema if one of its objects lacks a type or a name. -/
theorem json_agrees (s : Schema) :
    (parse s.toJson.render).map keyed = .ok s.toDict ∧
    decoder.readText s.toJson.render = .ok s ∧
    s.EditedText s.toJson.render ∧
    (∀ text, s.EditedText text → decoder.readText text = .ok s) ∧
    ∀ {text v : String} {items : List String} {members : List (String × String)},
      ArrayText text items → v ∈ items → ObjectOf v members →
      ("type" ∉ members.map Prod.fst ∨ "name" ∉ members.map Prod.fst) →
      ∀ t, decoder.readText text ≠ .ok t :=
  ⟨s.parse_toJson, readText_edited s.editedText_render, s.editedText_render,
    fun _ => readText_edited, readText_ne_ok⟩

/-- A column with a member more, in another order and without its requirement; and one without its
type. -/
theorem edited_column_read :
    EditedText ⟨[⟨.long, "n", true⟩]⟩ "[\x7b\"x\":null,\"name\":\"n\",\"type\":\"long\"\x7d]" ∧
      decoder.readText "[\x7b\"x\":null,\"name\":\"n\",\"type\":\"long\"\x7d]" =
        .ok ⟨[⟨.long, "n", true⟩]⟩ ∧
      ∀ t, decoder.readText "[\x7b\"name\":\"n\"\x7d]" ≠ .ok t := by
  have hlimit : 0 < Doc.depthLimit := by decide
  have harray : ∀ members text, SignedMembers members →
      (Json.array [.object members]).render = text →
      ArrayText text [(Json.object members).render] ∧
        ObjectOf (Json.object members).render (members.map fun m => (m.1, m.2.render)) := by
    rintro members _ hsigned rfl
    have hitems : SignedItems [.object members] := ⟨hsigned, trivial⟩
    exact ⟨arrayText_render hitems, objectOf_render hsigned⟩
  have hedited : EditedText ⟨[⟨.long, "n", true⟩]⟩
      "[\x7b\"x\":null,\"name\":\"n\",\"type\":\"long\"\x7d]" := by
    obtain ⟨htext, hobject⟩ := harray [("x", .null), ("name", .text "n"), ("type", .text "long")]
      "[\x7b\"x\":null,\"name\":\"n\",\"type\":\"long\"\x7d]" ⟨trivial, trivial, trivial, trivial⟩
      (by decide)
    have hname : parse (Json.text "n").render = .ok (.text "n") := parse_render trivial hlimit
    have htype : parse (Json.text "long").render = .ok (.text "long") := parse_render trivial hlimit
    exact ⟨_, htext, .cons ⟨_, hobject, [("type", .text "long"), ("name", .text "n")],
      [("type", (Json.text "long").render), ("name", (Json.text "n").render)],
      [("x", Json.null.render)], .inr ⟨rfl, rfl⟩, .cons ⟨rfl, htype⟩ (.cons ⟨rfl, hname⟩ .nil),
      by decide, by decide⟩ .nil⟩
  obtain ⟨-, -, -, hread, hlacking⟩ := json_agrees ⟨[⟨.long, "n", true⟩]⟩
  obtain ⟨htext, hobject⟩ := harray [("name", .text "n")] "[\x7b\"name\":\"n\"\x7d]"
    ⟨trivial, trivial⟩ (by decide)
  exact ⟨hedited, hread _ hedited, hlacking htext List.mem_cons_self hobject (.inl (by decide))⟩

end Schema

end Lineage
