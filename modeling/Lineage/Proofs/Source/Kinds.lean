import Lineage.Proofs.Json.Tagging
import Lineage.Proofs.Source.ReadBack
/-
  Sources that are read by their kind, and what they are of on its own.

  A reference or a table with versions can be read on its own, as a record, or as a source, as the
  record that the kind says.  The two readers go through a text differently, but they agree: what
  the record is read as on its own is what the source is of (`Source.read_by_kind`).  It makes no
  difference how often a member is there, where the kind stands between them, how they are written,
  and whether they are what the record wants.
-/

namespace Lineage

open Json

/-- Alternatives with a text each have seen an object of texts. -/
theorem Json.sound_texts {α : Type} (alts : List (String × (String → α))) :
    (alternatives (alts.map fun x => (x.1, .carrying (Decoder.text.map x.2)))).Sound 1 := by
  refine sound_alternatives fun name payload hpayload => ?_
  rw [lookup_texts, Option.map_eq_some_iff] at hpayload
  obtain ⟨f, -, rfl⟩ := hpayload
  exact Decoder.sound_text.map f

theorem TableRef.sound : decoder.Sound 1 :=
  sound_texts [("path", path), ("table_name", tableName), ("sql", sql)]

theorem VersionedLocation.sound : decoder.Sound 1 :=
  sound_texts [("path", path), ("table_name", tableName)]

theorem TableRef.record_sound : record.Sound 1 :=
  Field.sound (f := ⟨"table", decoder, none, none⟩) sound

theorem VersionedTable.record_sound : record.Sound 1 := by
  have hlocation := Field.sound (f := ⟨"location", VersionedLocation.decoder, none, none⟩)
    VersionedLocation.sound
  have hversion := Field.sound (f := ⟨"version", Decoder.natural.option, some none, none⟩)
    (Decoder.sound_natural.option.mono (Nat.zero_le 1))
  exact (hlocation.and hversion).map fun x => VersionedTable.mk x.1 x.2

namespace Source

/-- The text is an object whose members all have one of the names, and the other text is that object
with its kind put somewhere between them. -/
def KindAdded (kind : String) (names : List String) (text other : String) : Prop :=
  ∃ before after k, ObjectText text (before ++ after) ∧ (∀ m ∈ before ++ after, m.1 ∈ names) ∧
    ObjectText other (before ++ ("kind", k) :: after) ∧ parse k = .ok (.text kind)

/-- A source of a kind is read as the record of that kind. -/
theorem read_kindAdded {α : Type} {r : Record α} {R : List (String × Json) → α → Prop}
    {title kind text other : String} {names : List String} {f : α → Source}
    (hf : Function.Injective f) (hr : r.Accepts R) (hsound : r.Sound 1)
    (hlookup : kinds.lookup kind = some ((r.decoder title).map f))
    (hfields : r.fields.lookup "kind" = none)
    (hnames : ∀ name ∈ names, (r.fields.lookup name).isSome)
    (h : KindAdded kind names text other) (a : α) :
    (r.decoder title).readText text = .ok a ↔ read other = .ok (f a) := by
  obtain ⟨before, after, k, htext, hmembers, hother, hk⟩ := h
  have hbound : 1 + 1 < Doc.depthLimit := by decide
  have hown : ∀ m ∈ before ++ after, (r.fields.lookup m.1).isSome :=
    fun m hm => hnames m.1 (hmembers m hm)
  have hread : read other = .ok (f a) ↔ ∃ b, (r.decoder title).readText text = .ok b ∧ f b = f a :=
    hr.tagged_iff_direct hsound hbound hfields hlookup htext hother hk hown
  rw [hread]
  constructor
  · exact fun ha => ⟨a, ha, rfl⟩
  · rintro ⟨b, hb, hsame⟩
    exact hf hsame ▸ hb

/-- **What is read by its kind is what is read on its own**, from every object whose members all
belong to the record: any number of each, in any order and with any values, and the kind anywhere
between them. -/
theorem read_by_kind (text other : String) :
    (KindAdded "versioned" ["location", "version"] text other → ∀ t,
      VersionedTable.decoder.readText text = .ok t ↔ read other = .ok (versioned t)) ∧
    (KindAdded "table" ["table"] text other → ∀ r,
      TableRef.recordDecoder.readText text = .ok r ↔ read other = .ok (table r)) := by
  constructor
  · intro h
    have hinjective : Function.Injective versioned := fun _ _ h => versioned.inj h
    have hnames : ∀ name ∈ ["location", "version"],
        (VersionedTable.record.fields.lookup name).isSome := by
      intro name hname
      simp only [List.mem_cons, List.not_mem_nil, or_false] at hname
      rcases hname with rfl | rfl <;> rfl
    exact read_kindAdded hinjective VersionedTable.record_accepts VersionedTable.record_sound rfl
      rfl hnames h
  · intro h
    have hinjective : Function.Injective table := fun _ _ h => table.inj h
    have hnames : ∀ name ∈ ["table"], (TableRef.record.fields.lookup name).isSome := by
      intro name hname
      rw [List.mem_singleton.mp hname]
      rfl
    exact read_kindAdded hinjective TableRef.record_accepts TableRef.record_sound rfl rfl hnames h

/-- A kind between a place and a version, and one behind a reference. -/
theorem late_kinds_read :
    (KindAdded "versioned" ["location", "version"]
        "\x7b\"location\":\x7b\"path\":\"a\"\x7d,\"version\":7\x7d"
        "\x7b\"location\":\x7b\"path\":\"a\"\x7d,\"kind\":\"versioned\",\"version\":7\x7d" ∧
      read "\x7b\"location\":\x7b\"path\":\"a\"\x7d,\"kind\":\"versioned\",\"version\":7\x7d" =
        .ok (versioned ⟨.path "a", some 7⟩)) ∧
    KindAdded "table" ["table"] "\x7b\"table\":\x7b\"sql\":\"q\"\x7d\x7d"
        "\x7b\"table\":\x7b\"sql\":\"q\"\x7d,\"kind\":\"table\"\x7d" ∧
      read "\x7b\"table\":\x7b\"sql\":\"q\"\x7d,\"kind\":\"table\"\x7d" = .ok (table (.sql "q")) := by
  have hobject : ∀ members text, SignedMembers members → (Json.object members).render = text →
      ObjectText text (members.map fun m => (m.1, m.2.render)) := by
    rintro members _ hsigned rfl
    exact objectText_render hsigned
  have hversioned : KindAdded "versioned" ["location", "version"]
      "\x7b\"location\":\x7b\"path\":\"a\"\x7d,\"version\":7\x7d"
      "\x7b\"location\":\x7b\"path\":\"a\"\x7d,\"kind\":\"versioned\",\"version\":7\x7d" := by
    refine ⟨[("location", "\x7b\"path\":\"a\"\x7d")], [("version", "7")], "\"versioned\"", ?_,
      by decide, ?_, parse_render (j := .text "versioned") trivial (by decide)⟩
    · exact hobject [("location", .object [("path", .text "a")]), ("version", .nat 7)] _
        ⟨⟨trivial, trivial⟩, trivial, trivial⟩ (by decide)
    · exact hobject [("location", .object [("path", .text "a")]), ("kind", .text "versioned"),
        ("version", .nat 7)] _ ⟨⟨trivial, trivial⟩, trivial, trivial, trivial⟩ (by decide)
  have htable : KindAdded "table" ["table"] "\x7b\"table\":\x7b\"sql\":\"q\"\x7d\x7d"
      "\x7b\"table\":\x7b\"sql\":\"q\"\x7d,\"kind\":\"table\"\x7d" := by
    refine ⟨[("table", "\x7b\"sql\":\"q\"\x7d")], [], "\"table\"", ?_, by decide, ?_,
      parse_render (j := .text "table") trivial (by decide)⟩
    · exact hobject [("table", .object [("sql", .text "q")])] _ ⟨⟨trivial, trivial⟩, trivial⟩
        (by decide)
    · exact hobject [("table", .object [("sql", .text "q")]), ("kind", .text "table")] _
        ⟨⟨trivial, trivial⟩, trivial, trivial⟩ (by decide)
  exact ⟨⟨hversioned, ((read_by_kind _ _).1 hversioned _).mp
      (VersionedTable.readText_toJson ⟨.path "a", some 7⟩)⟩,
    htable, ((read_by_kind _ _).2 htable _).mp (TableRef.readText_recordJson (.sql "q"))⟩

end Source
end Lineage
