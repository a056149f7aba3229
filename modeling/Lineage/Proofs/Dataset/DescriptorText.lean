import Lineage.Proofs.Dataset.DescriptorParts
import Lineage.Proofs.Json.Reading
/-
  The text of a descriptor loses nothing.

  A descriptor holds texts, some of which are JSON themselves: the source, the schema and the
  profile.  All of them are printed values without doubles, and not deep, so each can be read back
  as what it was printed from, and so can the descriptor itself, which is printed around them.

  The text of a source does not say of which kind it is.  But the kind stands beside it, and within
  a kind the names of the members tell the place: so no two sources have the same kind and the same
  text (`Source.eq_of_text`).
-/

namespace Lineage

open Json Dialogue

/-! ## Dictionaries -/

/-- Two members stand in the order of their names. -/
theorem Json.dict_pair {m n : String × Json} (h : ¬ n.1 < m.1) :
    Json.dict [m, n] = .object [m, n] := by
  simp only [dict, sortByName, List.foldr_cons, List.foldr_nil, insertByName, if_neg h]

/-! ## Sources -/

namespace Source

theorem toDict_latest (l : VersionedLocation) :
    (versioned ⟨l, none⟩).toDict = .object [(l.entry.1, .text l.entry.2)] := rfl

theorem toDict_pinned (l : VersionedLocation) (v : UInt64) :
    (versioned ⟨l, some v⟩).toDict =
      .object [(l.entry.1, .text l.entry.2), ("version", versionJson v)] := by
  have hpath : ¬ "version" < "path" := by decide
  have hname : ¬ "version" < "table_name" := by decide
  cases l with
  | path p => exact dict_pair hpath
  | tableName n => exact dict_pair hname

/-- The text of a source is read back as what it was printed from. -/
theorem parse_toDict (s : Source) : Json.parse s.toDict.render = .ok s.toDict := by
  have hdepth : 1 < Doc.depthLimit := by decide
  cases s with
  | table r => exact parse_render ⟨trivial, trivial⟩ hdepth
  | versioned t =>
    obtain ⟨l, v⟩ := t
    cases v with
    | none => exact parse_render ⟨trivial, trivial⟩ hdepth
    | some v =>
      rw [toDict_pinned]
      exact parse_render ⟨trivial, trivial, trivial⟩ hdepth

/-- A reference is determined by its member. -/
theorem tableRef_of_entry {r q : TableRef} (h : r.entry = q.entry) : r = q := by
  cases r <;> cases q <;> simp_all [TableRef.entry]

/-- A place is determined by its member. -/
theorem location_of_entry {l k : VersionedLocation} (h : l.entry = k.entry) : l = k := by
  cases l <;> cases k <;> simp_all [VersionedLocation.entry]

/-- The members of an object that begins with a text, taken apart. -/
theorem object_text_inj {m n : String × String} {rest more : List (String × Json)}
    (h : Json.object ((m.1, .text m.2) :: rest) = .object ((n.1, .text n.2) :: more)) :
    m = n ∧ rest = more := by
  injection h with h
  injection h with hfirst hrest
  injection hfirst with hname htext
  injection htext with htext
  exact ⟨Prod.ext hname htext, hrest⟩

/-- A table with versions is determined by its members. -/
theorem versioned_of_toDict {t u : VersionedTable}
    (h : (versioned t).toDict = (versioned u).toDict) : t = u := by
  obtain ⟨l, v⟩ := t
  obtain ⟨k, z⟩ := u
  cases v with
  | none =>
    cases z with
    | none =>
      obtain ⟨hentry, -⟩ := object_text_inj h
      have hplace : l = k := location_of_entry hentry
      rw [hplace]
    | some z =>
      -- One of the two has a member for the version, the other has not.
      rw [toDict_latest, toDict_pinned] at h
      obtain ⟨-, hrest⟩ := object_text_inj h
      cases hrest
  | some v =>
    cases z with
    | none =>
      rw [toDict_latest, toDict_pinned] at h
      obtain ⟨-, hrest⟩ := object_text_inj h
      cases hrest
    | some z =>
      rw [toDict_pinned, toDict_pinned] at h
      obtain ⟨hentry, hrest⟩ := object_text_inj h
      cases hrest
      rw [location_of_entry hentry]

/-- **The kind of a source and its text determine it.** -/
theorem eq_of_text {s t : Source} (hkind : s.typeName = t.typeName)
    (htext : s.toDict.render = t.toDict.render) : s = t := by
  have hdict : s.toDict = t.toDict := by
    have hparse := s.parse_toDict
    rw [htext, t.parse_toDict] at hparse
    exact (Except.ok.inj hparse).symm
  have hkinds : "table" ≠ "versioned_table" := by decide
  cases s with
  | table r =>
    cases t with
    | versioned u => exact absurd hkind hkinds
    | table q =>
      obtain ⟨hentry, -⟩ := object_text_inj hdict
      rw [tableRef_of_entry hentry]
  | versioned u =>
    cases t with
    | table q => exact absurd hkind.symm hkinds
    | versioned w => rw [versioned_of_toDict hdict]

end Source

/-! ## Schemas and profiles -/

/-- The type of a column is read from its name. -/
theorem ColumnType.reads (t : ColumnType) : ColumnType.decoder.Reads t.toJson t := by
  cases t <;> exact Decoder.reads_bare rfl

namespace ColumnSpec

/-- The members of a column, ordered by name. -/
def sortedMembers (c : ColumnSpec) : List (String × Json) :=
  [("name", .text c.name), ("required", .bool c.required), ("type", c.type.toJson)]

theorem dict_members (c : ColumnSpec) : Json.dict c.members = .object c.sortedMembers := by
  have hrequired : ¬ "required" < "name" := by decide
  have hname : "name" < "type" := by decide
  have htype : "required" < "type" := by decide
  simp only [members, sortedMembers, dict, sortByName, List.foldr_cons, List.foldr_nil,
    insertByName, if_neg hrequired, if_pos hname, if_pos htype]

/-- A column is read from its members in the order of their names. -/
theorem reads (c : ColumnSpec) : decoder.Reads (.dict c.members) c := by
  rw [dict_members]
  have hnodup : (c.sortedMembers.map Prod.fst).Nodup := by
    show ["name", "required", "type"].Nodup
    decide
  have hchecks : Checks record.fields c.sortedMembers := by
    intro m hm
    simp only [sortedMembers, List.mem_cons, List.not_mem_nil, or_false] at hm
    rcases hm with rfl | rfl | rfl
    · exact ⟨_, rfl, (Decoder.reads_text c.name).map _⟩
    · exact ⟨_, rfl, (Decoder.reads_bool c.required).map _⟩
    · exact ⟨_, rfl, c.type.reads.map _⟩
  have hgathers : record.Gathers c.sortedMembers c := by
    have htype : c.sortedMembers.lookup "type" = some c.type.toJson := rfl
    have hname : c.sortedMembers.lookup "name" = some (.text c.name) := rfl
    have hrequired : c.sortedMembers.lookup "required" = some (.bool c.required) := rfl
    have hfirst := Field.gathers (f := ⟨"type", ColumnType.decoder, none, none⟩) htype c.type.reads
    have hsecond := Field.gathers (f := ⟨"name", Decoder.text, none, none⟩) hname
      (Decoder.reads_text c.name)
    have hthird := Field.gathers (f := ⟨"required", Decoder.bool, some true, some true⟩) hrequired
      (Decoder.reads_bool c.required)
    exact ((hfirst.and hsecond).and hthird).map _
  exact Record.reads hnodup hchecks hgathers "struct ColSpec"

end ColumnSpec

/-- A schema is read from its columns. -/
theorem Schema.reads (s : Schema) : Schema.decoder.Reads s.toDict s :=
  (Decoder.reads_list ColumnSpec.reads s.columns).map Schema.mk

/-- A profile is read from its only member. -/
theorem Profile.reads (p : Profile) : Profile.decoder.Reads p.toJson p := by
  have hchecks : Checks [("approx_count", Decoder.natural.map fun _ => ())]
      [("approx_count", .number (.unsigned p.approxCount))] := by
    intro m hm
    obtain rfl := List.mem_singleton.mp hm
    exact ⟨_, rfl, (Decoder.reads_natural p.approxCount).map _⟩
  have hlookup : List.lookup "approx_count" [("approx_count", number (.unsigned p.approxCount))] =
      some (.number (.unsigned p.approxCount)) := rfl
  have hcount := Field.gathers (f := ⟨"approx_count", Decoder.natural, none, none⟩) hlookup
    (Decoder.reads_natural p.approxCount)
  have hnodup : ["approx_count"].Nodup := by decide
  refine Record.reads ?_ hchecks (hcount.map Profile.mk) "struct DatasetProfile"
  exact hnodup

/-- The text of a profile is read back. -/
theorem Profile.readText_toJson (p : Profile) :
    Profile.decoder.readText p.toJson.render = .ok p := by
  have hdepth : 1 < Doc.depthLimit := by decide
  exact readText_render p.reads ⟨trivial, trivial⟩ hdepth

/-- Columns have no doubles in them, and nothing below their members. -/
theorem ColumnSpec.whole_dict (c : ColumnSpec) :
    (Json.dict c.members).Whole ∧ (Json.dict c.members).depth ≤ 1 := by
  rw [dict_members]
  exact ⟨⟨trivial, trivial, trivial, trivial⟩, Nat.le_refl 1⟩

theorem Schema.whole_toDict (s : Schema) : s.toDict.Whole ∧ s.toDict.depth ≤ 2 := by
  obtain ⟨hwhole, hdepth⟩ := whole_items (List.forall_mem_map.mpr fun c _ =>
    ColumnSpec.whole_dict c)
  exact ⟨hwhole, Nat.succ_le_succ hdepth⟩

/-- The columns of a schema are read back from their text. -/
theorem Schema.readText_toDict (s : Schema) : Schema.decoder.readText s.toDict.render = .ok s := by
  obtain ⟨hwhole, hdepth⟩ := s.whole_toDict
  have hlimit : 2 < Doc.depthLimit := by decide
  exact readText_render s.reads hwhole (Nat.lt_of_le_of_lt hdepth hlimit)

/-- The text of a schema is an object with the columns in it. -/
theorem Schema.parse_schemaText (s : Schema) :
    Json.parse (Descriptor.schemaText s) = .ok (.object [(Descriptor.columnsKey, s.toDict)]) := by
  obtain ⟨hwhole, hdepth⟩ := s.whole_toDict
  have hlimit : 3 < Doc.depthLimit := by decide
  have hobject : (Json.object [(Descriptor.columnsKey, s.toDict)]).depth ≤ 3 :=
    Nat.succ_le_succ (Nat.max_le.mpr ⟨hdepth, Nat.zero_le 2⟩)
  exact parse_render ⟨hwhole, trivial⟩ (Nat.lt_of_le_of_lt hobject hlimit)

/-! ## Descriptors -/

namespace Descriptor

/-- The text under a key. -/
def get? (x : Descriptor) (key : String) : Option String := x.entries.lookup key

/-- What a descriptor tells of a dataset, its digest, its schema and its profile: all of it can be
had back from the texts. -/
structure Tells {F : Type} (x : Descriptor) (d : Dataset F) (digest : String)
    (schema : Option Schema) (profile : Profile) : Prop where
  keys_sorted : x.keys.Pairwise (· < ·)
  mem_keys : ∀ key, key ∈ x.keys ↔
    key ∈ ["name", "digest", "source", "source_type", "profile"] ∨ key = "schema" ∧ schema.isSome
  name : x.get? "name" = some d.name
  digest : x.get? "digest" = some digest
  kind : x.get? "source_type" = some d.source.typeName
  source : x.get? "source" = some d.source.toDict.render ∧
    Json.parse d.source.toDict.render = .ok d.source.toDict ∧
    ∀ other : Source, other.typeName = d.source.typeName →
      other.toDict.render = d.source.toDict.render → other = d.source
  schema : ∀ s, schema = some s → ∃ text columns, x.get? "schema" = some text ∧
    Json.parse text = .ok (.object [(columnsKey, columns)]) ∧
    Schema.decoder.readText columns.render = .ok s
  profile : ∃ text, x.get? "profile" = some text ∧ Profile.decoder.readText text = .ok profile
  text : Json.parse x.toJson.render =
    .ok (.object (x.entries.map fun (key, value) => (key, .text value)))

/-- The text of a descriptor is read back as the object of its entries. -/
theorem parse_toJson (x : Descriptor) : Json.parse x.toJson.render = .ok x.toJson := by
  have hlimit : 1 < Doc.depthLimit := by decide
  have hdepth : x.toJson.depth = 1 := congrArg (· + 1) (depthMembers_texts x.entries)
  exact parse_render (wholeMembers_texts x.entries) (hdepth.symm ▸ hlimit)

/-- The descriptor of a dataset tells what it is made of. -/
theorem tells_of {F : Type} (d : Dataset F) (digest : String) (schema : Option Schema)
    (profile : Profile) : (of d digest schema profile).Tells d digest schema profile where
  keys_sorted := by
    cases schema with
    | none =>
      show ["digest", "name", "profile", "source", "source_type"].Pairwise (· < ·)
      decide
    | some s =>
      show ["digest", "name", "profile", "schema", "source", "source_type"].Pairwise (· < ·)
      decide
  mem_keys key := by
    cases schema with
    | none =>
      show key ∈ ["digest", "name", "profile", "source", "source_type"] ↔ _
      simp only [List.mem_cons, List.not_mem_nil, Option.isSome_none, Bool.false_eq_true, and_false]
      tauto
    | some s =>
      show key ∈ ["digest", "name", "profile", "schema", "source", "source_type"] ↔ _
      simp only [List.mem_cons, List.not_mem_nil, Option.isSome_some, and_true]
      tauto
  name := rfl
  digest := rfl
  kind := by cases schema <;> rfl
  source := by
    refine ⟨?_, d.source.parse_toDict, fun other => Source.eq_of_text⟩
    cases schema <;> rfl
  schema := by
    rintro s rfl
    exact ⟨schemaText s, s.toDict, rfl, s.parse_schemaText, s.readText_toDict⟩
  profile := ⟨profile.toJson.render, rfl, profile.readText_toJson⟩
  text := parse_toJson _

end Descriptor

namespace Dataset

variable {F : Type}

/-- **A descriptor loses nothing.**  Whatever stands in the name, the digest, the source and the
columns: a descriptor that comes has the five keys, and one for the schema if there is a schema;
under them stand the dataset's name, the digest and the schema that it answers with from then on,
and the only count that was made for it.  Each text is read back as what it was printed from; the
source is the only one of its kind with its text; and the descriptor in JSON, which comes in the
same exchanges, is read back as the object of its entries. -/
theorem descriptor_loses_nothing {d d' : Dataset F} {said : List (Exchange F)} {x : Descriptor}
    (h : Runs (descriptor d) said (.ok x, d')) :
    ∃ digest schema n,
      Dataset.digest d' = pure (.ok digest, d') ∧ Dataset.schema d' = pure (schema, d') ∧
      counts said = [⟨.countRows d.frame d.options.timeout d.options.confidence, .ok n⟩] ∧
      x.Tells d digest schema ⟨n⟩ ∧
      Runs (descriptorText d) said (.ok x.toJson.render, d') := by
  have hcourse := runs_descriptor.mp h
  rcases hcourse.ends with ⟨f, -, hx, -⟩ | ⟨digest, schema, reply, hdigest, hschema, hcounts, hx⟩
  · cases hx
  · cases reply with
    | error f => cases hx
    | ok n =>
      obtain rfl : x = Descriptor.of d digest schema ⟨n⟩ := Except.ok.inj hx
      refine ⟨digest, schema, n, ?_, ?_, hcounts, Descriptor.tells_of d digest schema ⟨n⟩, ?_⟩
      · simp only [Dataset.digest, hdigest]
      · simp only [Dataset.schema, hschema]
      · exact runs_descriptorText.mpr ⟨_, hcourse, rfl⟩

/-- A dataset over a stand-in for a frame, with characters in its name, its digest and its source
that are not printed as they are. -/
def awkward : Dataset Unit :=
  fresh () (.versioned ⟨.path "C:\\data\n\"x\"", some 3⟩)
    ⟨none, some "\t\u0007", some "\"\\\u007f\""⟩ .standard

/-- The schema of that dataset. -/
def awkwardSchema : Schema := ⟨[⟨.long, "a\"\u0000", true⟩, ⟨.string, "", true⟩]⟩

theorem awkward_descriptor_loses_nothing :
    Runs (descriptor awkward)
        [⟨.columns (), .ok [("a\"\u0000", .i64), ("", .str)]⟩,
         ⟨.countRows () awkward.options.timeout awkward.options.confidence, .ok 5⟩]
        (.ok (Descriptor.of awkward "\"\\\u007f\"" (some awkwardSchema) ⟨5⟩),
          { awkward with knownSchema := some (some awkwardSchema) }) ∧
      ∃ digest schema n,
        (Descriptor.of awkward "\"\\\u007f\"" (some awkwardSchema) ⟨5⟩).Tells awkward digest schema
          ⟨n⟩ := by
  have hinferred : SchemaCourse awkward [⟨.columns (), .ok [("a\"\u0000", .i64), ("", .str)]⟩]
      (some awkwardSchema) { awkward with knownSchema := some (some awkwardSchema) } :=
    .inferred rfl (.standard rfl)
  have hcount : ProfileCourse { awkward with knownSchema := some (some awkwardSchema) }
      [⟨.countRows () awkward.options.timeout awkward.options.confidence, .ok 5⟩] (.ok ⟨5⟩) :=
    .counted (runs_pure.mpr ⟨rfl, rfl⟩)
  have hruns := runs_descriptor.mpr (.decided (.known rfl) hinferred hcount)
  obtain ⟨digest, schema, n, -, -, -, htells, -⟩ := descriptor_loses_nothing hruns
  exact ⟨hruns, digest, schema, n, htells⟩

end Dataset
end Lineage
