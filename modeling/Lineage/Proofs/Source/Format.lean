import Lineage.Proofs.Entries
import Lineage.Proofs.Json.PlainNumbers
import Lineage.Source
/-
  The format of a source.

  What a reader makes of an object depends on its members alone: on the kind, and on the reference
  of a table, or the place and the version of a table with versions (`Source.IsTold`).  A reference
  or a place is an object with the kind of it as the only member, and a version is missing, `null`
  or a number of 64 bits without a sign.

  The kind is looked for first, and the members before and behind it are then read as a record
  (`decoder_object`).  They are found there as in the whole object, since they have other names.
-/

namespace Lineage

open Json

/-! ## References and places -/

/-- A name of an alternative with a text is looked up with what is made of the text. -/
theorem Json.lookup_texts {α : Type} (alts : List (String × (String → α))) (name : String) :
    (alts.map fun x => (x.1, Payload.carrying (Decoder.text.map x.2))).lookup name =
      (alts.lookup name).map fun f => .carrying (Decoder.text.map f) :=
  lookup_map (fun f => Payload.carrying (Decoder.text.map f)) name alts

/-- Alternatives with a text each are objects with one member, a text under one of the names. -/
theorem Json.accepts_texts {α : Type} (alts : List (String × (String → α))) :
    (alternatives (alts.map fun x => (x.1, .carrying (Decoder.text.map x.2)))).Accepts fun j a =>
      ∃ name f s, j = .object [(name, .text s)] ∧ alts.lookup name = some f ∧ f s = a := by
  have hpayload : ∀ name payload,
      (alts.map fun x => (x.1, Payload.carrying (Decoder.text.map x.2))).lookup name =
        some payload →
      payload.Accepts fun k a => ∃ f s, alts.lookup name = some f ∧ k = .text s ∧ f s = a := by
    intro name payload hpayload
    rw [lookup_texts, Option.map_eq_some_iff] at hpayload
    obtain ⟨f, hf, rfl⟩ := hpayload
    intro m doc k a hm hdoc
    show Decoder.text.map f m doc = .ok a ↔ _
    rw [Decoder.accepts_text.map f m doc k a hm hdoc]
    constructor
    · rintro ⟨s, hk, ha⟩
      exact ⟨f, s, hf, hk, ha⟩
    · rintro ⟨g, s, hg, hk, ha⟩
      cases hf.symm.trans hg
      exact ⟨s, hk, ha⟩
  intro m doc j a hm hdoc
  rw [accepts_alternatives hpayload m doc j a hm hdoc]
  constructor
  · intro h
    unfold Alternative at h
    split at h
    · rename_i name
      rw [lookup_texts, Option.map_eq_some_iff] at h
      obtain ⟨f, -, hf⟩ := h
      cases hf
    · obtain ⟨-, f, s, hf, rfl, ha⟩ := h
      exact ⟨_, f, s, rfl, hf, ha⟩
    · exact h.elim
  · rintro ⟨name, f, s, rfl, hf, ha⟩
    refine ⟨?_, f, s, hf, rfl, ha⟩
    rw [lookup_texts, hf]
    rfl

/-- A reference is accepted in the form it has in JSON, and in no other. -/
theorem TableRef.accepts : decoder.Accepts fun j r => j = r.toJson := by
  intro m doc j r hm hdoc
  have htexts := accepts_texts [("path", path), ("table_name", tableName), ("sql", sql)]
  rw [show decoder m doc = .ok r ↔ _ from htexts m doc j r hm hdoc]
  constructor
  · rintro ⟨name, f, s, rfl, hf, rfl⟩
    have hmem := mem_of_lookup hf
    simp only [List.mem_cons, List.not_mem_nil, or_false, Prod.mk.injEq] at hmem
    rcases hmem with ⟨rfl, rfl⟩ | ⟨rfl, rfl⟩ | ⟨rfl, rfl⟩ <;> rfl
  · rintro rfl
    cases r with
    | path p => exact ⟨"path", path, p, rfl, rfl, rfl⟩
    | tableName n => exact ⟨"table_name", tableName, n, rfl, rfl, rfl⟩
    | sql q => exact ⟨"sql", sql, q, rfl, rfl, rfl⟩

/-- So is a place. -/
theorem VersionedLocation.accepts : decoder.Accepts fun j l => j = l.toJson := by
  intro m doc j l hm hdoc
  have htexts := accepts_texts [("path", path), ("table_name", tableName)]
  rw [show decoder m doc = .ok l ↔ _ from htexts m doc j l hm hdoc]
  constructor
  · rintro ⟨name, f, s, rfl, hf, rfl⟩
    have hmem := mem_of_lookup hf
    simp only [List.mem_cons, List.not_mem_nil, or_false, Prod.mk.injEq] at hmem
    rcases hmem with ⟨rfl, rfl⟩ | ⟨rfl, rfl⟩ <;> rfl
  · rintro rfl
    cases l with
    | path p => exact ⟨"path", path, p, rfl, rfl, rfl⟩
    | tableName n => exact ⟨"table_name", tableName, n, rfl, rfl, rfl⟩

/-! ## Records -/

/-- The object that holds a reference has it as a member. -/
theorem TableRef.record_accepts :
    record.Accepts fun members r => members.lookup "table" = some r.toJson := by
  have hfield : record.Accepts _ := Field.accepts (f := ⟨"table", decoder, none, none⟩) accepts
  exact hfield.congr fun members r => Field.value_required

/-- A member tells a version: it is a number, or missing or `null` if there is none. -/
def VersionedTable.VersionTold (member : Option Json) : Option UInt64 → Prop
  | some v => member = some (.number (.unsigned v))
  | none => member = none ∨ member = some .null

/-- The member for the version is read as the members tell it. -/
theorem VersionedTable.value_version {members : List (String × Json)} {v : Option UInt64} :
    Field.Value ⟨"version", Decoder.natural.option, some none, none⟩
        (fun j o => j = .null ∧ o = none ∨ j ≠ .null ∧ ∃ n, j = .number (.unsigned n) ∧ some n = o)
        members v ↔ VersionTold (members.lookup "version") v := by
  have hform : ∀ n : UInt64, Json.number (.unsigned n) ≠ .null := fun _ h => by cases h
  refine (Field.value_optional hform).trans ?_
  cases v <;> exact Iff.rfl

/-- A table with versions has its place as a member, and tells its version. -/
theorem VersionedTable.record_accepts : record.Accepts fun members t =>
    members.lookup "location" = some t.location.toJson ∧
      VersionTold (members.lookup "version") t.version := by
  have hlocation := Field.accepts (f := ⟨"location", VersionedLocation.decoder, none, none⟩)
    VersionedLocation.accepts
  have hversion := Field.accepts (f := ⟨"version", Decoder.natural.option, some none, none⟩)
    Decoder.accepts_natural.option
  have hrecord : record.Accepts _ :=
    (hlocation.and hversion).map fun x => VersionedTable.mk x.1 x.2
  refine hrecord.congr fun members t => ?_
  constructor
  · rintro ⟨⟨l, v⟩, ⟨hl, hv⟩, rfl⟩
    exact ⟨Field.value_required.mp hl, value_version.mp hv⟩
  · rintro ⟨hl, hv⟩
    exact ⟨(t.location, t.version), ⟨Field.value_required.mpr hl, value_version.mpr hv⟩, rfl⟩

section Objects

variable {m : Mode} {start stop : List Char} {docs : List (Key × Doc)}
  {members : List (String × Json)}

theorem TableRef.recordDecoder_object (hm : m.Allows (depthMembers members + 1))
    (hdocs : MembersSpell docs members) (hnodup : (members.map Prod.fst).Nodup) (r : TableRef) :
    recordDecoder m (.object start docs (.closed stop)) = .ok r ↔
      members.lookup "table" = some r.toJson := by
  have hnames : (ownNames record.fields members).Nodup := hnodup.filter _
  exact (record_accepts.object "struct TableSource" hm hdocs).trans (and_iff_right hnames)

theorem VersionedTable.decoder_object (hm : m.Allows (depthMembers members + 1))
    (hdocs : MembersSpell docs members) (hnodup : (members.map Prod.fst).Nodup)
    (t : VersionedTable) : decoder m (.object start docs (.closed stop)) = .ok t ↔
      members.lookup "location" = some t.location.toJson ∧
        VersionTold (members.lookup "version") t.version := by
  have hnames : (ownNames record.fields members).Nodup := hnodup.filter _
  exact (record_accepts.object "struct VersionedTableSource" hm hdocs).trans (and_iff_right hnames)

end Objects

/-! ## Sources -/

namespace Source

/-- The members of an object tell the source: its kind, and what belongs to a source of that
kind. -/
def IsTold (members : List (String × Json)) : Source → Prop
  | table r => members.lookup "kind" = some (.text "table") ∧
      members.lookup "table" = some r.toJson
  | versioned t => members.lookup "kind" = some (.text "versioned") ∧
      members.lookup "location" = some t.location.toJson ∧
      VersionedTable.VersionTold (members.lookup "version") t.version

/-- Members with another name are found as if there was no kind. -/
theorem lookup_append_kind {name : String} (hname : name ≠ "kind")
    (before after : List (String × Json)) (j : Json) :
    (before ++ ("kind", j) :: after).lookup name = (before ++ after).lookup name := by
  have hne : (name == "kind") = false := beq_eq_false_iff_ne.mpr hname
  rw [List.lookup_append, List.lookup_append, List.lookup_cons, hne]

/-- The two kinds, with the decoders of what belongs to them. -/
def kinds : List (String × Decoder Source) :=
  [("table", TableRef.recordDecoder.map table), ("versioned", VersionedTable.decoder.map versioned)]

/-- What stands beside the kind is read as the record of that kind. -/
theorem read_kind_iff {before after : List (String × Json)} {j : Json} {s : Source}
    {start stop : List Char} {others : List (Key × Doc)}
    (hkind : (before ++ ("kind", j) :: after).lookup "kind" = some j)
    (hothers : MembersSpell others (before ++ after))
    (hnodup : ((before ++ after).map Prod.fst).Nodup) :
    (∃ name d, j = .text name ∧ kinds.lookup name = some d ∧
      d .held (.object start others (.closed stop)) = .ok s) ↔
      s.IsTold (before ++ ("kind", j) :: after) := by
  have htable : ∀ r, TableRef.recordDecoder .held (.object start others (.closed stop)) =
      .ok r ↔ _ := TableRef.recordDecoder_object trivial hothers hnodup
  have hversioned : ∀ t, VersionedTable.decoder .held (.object start others (.closed stop)) =
      .ok t ↔ _ := VersionedTable.decoder_object trivial hothers hnodup
  rw [← lookup_append_kind (by decide) before after j] at htable
  rw [← lookup_append_kind (by decide) before after j,
    ← lookup_append_kind (by decide) before after j] at hversioned
  constructor
  · rintro ⟨name, d, rfl, hlookup, hread⟩
    have hmem := mem_of_lookup hlookup
    simp only [kinds, List.mem_cons, List.not_mem_nil, or_false, Prod.mk.injEq] at hmem
    rcases hmem with ⟨rfl, rfl⟩ | ⟨rfl, rfl⟩
    · obtain ⟨r, hr, rfl⟩ := map_eq_ok.mp hread
      exact ⟨hkind, (htable r).mp hr⟩
    · obtain ⟨t, ht, rfl⟩ := map_eq_ok.mp hread
      exact ⟨hkind, (hversioned t).mp ht⟩
  · intro htold
    cases s with
    | table r =>
      cases Option.some.inj (hkind.symm.trans htold.1)
      exact ⟨"table", _, rfl, rfl, map_eq_ok.mpr ⟨r, (htable r).mpr htold.2, rfl⟩⟩
    | versioned t =>
      cases Option.some.inj (hkind.symm.trans htold.1)
      exact ⟨"versioned", _, rfl, rfl, map_eq_ok.mpr ⟨t, (hversioned t).mpr htold.2, rfl⟩⟩

/-- **A reader makes a source of an object just when the members tell it.** -/
theorem decoder_object {doc : Doc} {members : List (String × Json)} {depth : Nat} {s : Source}
    (hdoc : doc.Spells (.object members)) (hdepth : (Json.object members).depth < depth)
    (hnodup : (members.map Prod.fst).Nodup) :
    decoder depth doc = .ok s ↔ s.IsTold members := by
  cases hdoc with
  | @object docs _ start stop hdocs =>
    cases hkind : members.lookup "kind" with
    | none =>
      have hno : decoder depth (.object start docs (.closed stop)) ≠ .ok s :=
        tagged_of_absent hdocs hdepth fun hmem => lookup_ne_none_iff.mpr hmem hkind
      refine ⟨fun h => absurd h hno, fun h => ?_⟩
      cases s with
      | table r => cases hkind.symm.trans h.1
      | versioned t => cases hkind.symm.trans h.1
    | some j =>
      obtain ⟨before, after, rfl, -⟩ := List.lookup_eq_some_iff.mp hkind
      rw [List.map_append, List.map_cons, List.perm_middle.nodup_iff, List.nodup_cons,
        List.mem_append, not_or, ← List.map_append] at hnodup
      obtain ⟨⟨hbefore, hafter⟩, hothersNodup⟩ := hnodup
      obtain ⟨others, hothers, htagged⟩ := tagged_eq_ok hdocs hdepth hbefore hafter
      exact (htagged s).trans (read_kind_iff hkind hothers hothersNodup)

/-- In a text with these members the source is spelled out: the kind and the only member of the
reference or the place, and a version as plain digits, as `null` or not at all. -/
def IsSpelled (text : String) (members : List (String × Json)) : Source → Prop
  | table r => members.lookup "kind" = some (.text "table") ∧
      members.lookup "table" = some (.object [(r.entry.1, .text r.entry.2)])
  | versioned t => members.lookup "kind" = some (.text "versioned") ∧
      members.lookup "location" = some (.object [(t.location.entry.1, .text t.location.entry.2)]) ∧
      match t.version with
      | some v => memberText text "version" = some (Nat.toDigits 10 v.toNat)
      | none => members.lookup "version" = none ∨ members.lookup "version" = some .null

theorem isSpelled_iff {text : String} {members : List (String × Json)}
    (h : parse text = .ok (.object members)) (s : Source) :
    s.IsSpelled text members ↔ s.IsTold members := by
  cases s with
  | table r => exact Iff.rfl
  | versioned t =>
    obtain ⟨location, version⟩ := t
    cases version with
    | none => exact Iff.rfl
    | some v => exact and_congr_right fun _ => and_congr_right fun _ => memberText_plain h "version" v

/-- A text that is an object is read as what its members tell. -/
theorem read_object {text : String} {members : List (String × Json)}
    (h : parse text = .ok (.object members)) (hnodup : (members.map Prod.fst).Nodup) (s : Source) :
    read text = .ok s ↔ s.IsTold members := by
  obtain ⟨hspells, hdepth, hreaders⟩ := spells_of_parse h
  rw [read, hreaders]
  exact decoder_object hspells hdepth hnodup

/-- **A source is read from exactly the objects that spell it out.**  Their members may stand in
any order and with others between them: two objects with the same kind, table, place and version
are read as the same source. -/
theorem read_iff_spelled {text : String} {members : List (String × Json)}
    (h : parse text = .ok (.object members)) (hnodup : (members.map Prod.fst).Nodup) :
    (∀ s, read text = .ok s ↔ s.IsSpelled text members) ∧
      ∀ {other : String} {others : List (String × Json)}, parse other = .ok (.object others) →
        (others.map Prod.fst).Nodup →
        (∀ name ∈ ["kind", "table", "location", "version"],
          others.lookup name = members.lookup name) →
        ∀ s, read other = .ok s ↔ read text = .ok s := by
  constructor
  · intro s
    rw [read_object h hnodup, isSpelled_iff h]
  · intro other others hother hothers hsame s
    have hkind := hsame "kind" (by decide)
    have htable := hsame "table" (by decide)
    have hlocation := hsame "location" (by decide)
    have hversion := hsame "version" (by decide)
    rw [read_object hother hothers, read_object h hnodup]
    cases s with
    | table r =>
      unfold IsTold
      rw [hkind, htable]
    | versioned t =>
      unfold IsTold
      rw [hkind, hlocation, hversion]

/-- An object with the members of a source in another order and one member more. -/
def shuffled : List (String × Json) :=
  [("version", .number (.unsigned 7)), ("owner", .array [.null, .object []]),
    ("location", .object [("path", .text "a\"b")]), ("kind", .text "versioned")]

theorem shuffled_read :
    parse (Json.object shuffled).render = .ok (.object shuffled) ∧
      (shuffled.map Prod.fst).Nodup ∧
      read (Json.object shuffled).render = .ok (.versioned ⟨.path "a\"b", some 7⟩) := by
  have hdepth : (Json.object shuffled).depth < Doc.depthLimit := by decide
  have hparse : parse (Json.object shuffled).render = .ok (.object shuffled) :=
    parse_render ⟨trivial, ⟨trivial, trivial, trivial⟩, ⟨trivial, trivial⟩, trivial, trivial⟩ hdepth
  have hnodup : (shuffled.map Prod.fst).Nodup := by decide
  have htold : (versioned ⟨.path "a\"b", some 7⟩).IsTold shuffled := ⟨rfl, rfl, rfl⟩
  have hspelled := (isSpelled_iff hparse (versioned ⟨.path "a\"b", some 7⟩)).mpr htold
  exact ⟨hparse, hnodup, ((read_iff_spelled hparse hnodup).1 _).mpr hspelled⟩

end Source
end Lineage
