import Lineage.Proofs.Source.Format
/-
  Sources that are written and read back.

  What is written for a source, a reference or a table with versions is an object that tells it
  (`isTold_members`), so it is read as what was written: whatever texts stand in it, also empty ones
  and those with characters that are not written as they are, and whatever the version is.
-/

namespace Lineage

open Json

/-- What is written for a reference is the reference itself. -/
theorem TableRef.readText_toJson (r : TableRef) : decoder.readText r.toJson.render = .ok r := by
  have hdepth : 1 < Doc.depthLimit := by decide
  exact readText_render (accepts.reads rfl) ⟨trivial, trivial⟩ hdepth

/-- What is written for the object that holds a reference is read as that reference. -/
theorem TableRef.readText_recordJson (r : TableRef) :
    recordDecoder.readText r.recordJson.render = .ok r := by
  have hdepth : 2 < Doc.depthLimit := by decide
  have hnodup : (r.members.map Prod.fst).Nodup := by
    show ["table"].Nodup
    decide
  have hreads : recordDecoder.Reads r.recordJson r := by
    intro m doc hm hdoc
    cases hdoc with
    | object start stop hdocs => exact (recordDecoder_object hm hdocs hnodup r).mpr rfl
  exact readText_render hreads ⟨⟨trivial, trivial⟩, trivial⟩ hdepth

namespace VersionedTable

/-- The version is told by what is written for it. -/
theorem versionTold_written (v : Option UInt64) :
    VersionTold (some (Json.ofOption Source.versionJson v)) v := by
  cases v with
  | none => exact .inr rfl
  | some n => rfl

/-- There are no doubles in what is written for a table with versions, and it is not deep. -/
theorem whole_members (t : VersionedTable) : WholeMembers t.members ∧ depthMembers t.members = 1 := by
  obtain ⟨location, version⟩ := t
  cases version with
  | none => exact ⟨⟨⟨trivial, trivial⟩, trivial, trivial⟩, rfl⟩
  | some v => exact ⟨⟨⟨trivial, trivial⟩, trivial, trivial⟩, rfl⟩

/-- What is written for a table with versions is read as that table. -/
theorem readText_toJson (t : VersionedTable) : decoder.readText t.toJson.render = .ok t := by
  obtain ⟨hwhole, hmembers⟩ := t.whole_members
  have hlimit : 2 < Doc.depthLimit := by decide
  have hdepth : t.toJson.depth = 2 := congrArg (· + 1) hmembers
  have hnodup : (t.members.map Prod.fst).Nodup := by
    show ["location", "version"].Nodup
    decide
  have hreads : decoder.Reads t.toJson t := by
    intro m doc hm hdoc
    cases hdoc with
    | object start stop hdocs =>
      exact (decoder_object hm hdocs hnodup t).mpr ⟨rfl, versionTold_written t.version⟩
  exact readText_render hreads hwhole (hdepth.symm ▸ hlimit)

end VersionedTable

namespace Source

/-- What is written for a source tells it. -/
theorem isTold_members (s : Source) : s.IsTold s.members := by
  cases s with
  | table r => exact ⟨rfl, rfl⟩
  | versioned t => exact ⟨rfl, rfl, VersionedTable.versionTold_written t.version⟩

theorem nodup_members (s : Source) : (s.members.map Prod.fst).Nodup := by
  cases s with
  | table r =>
    show ["kind", "table"].Nodup
    decide
  | versioned t =>
    show ["kind", "location", "version"].Nodup
    decide

theorem whole_members (s : Source) : WholeMembers s.members ∧ depthMembers s.members ≤ 1 := by
  cases s with
  | table r => exact ⟨⟨trivial, ⟨trivial, trivial⟩, trivial⟩, Nat.le_refl 1⟩
  | versioned t =>
    obtain ⟨hwhole, hdepth⟩ := t.whole_members
    refine ⟨⟨trivial, hwhole⟩, ?_⟩
    show max 0 (depthMembers t.members) ≤ 1
    rw [hdepth]
    exact Nat.le_refl 1

/-- What is written for a source is read as that source. -/
theorem read_toJson (s : Source) : read s.toJson.render = .ok s := by
  obtain ⟨hwhole, hdepth⟩ := s.whole_members
  have hlimit : 2 < Doc.depthLimit := by decide
  have hlt : (Json.object s.members).depth < Doc.depthLimit :=
    Nat.lt_of_le_of_lt (Nat.succ_le_succ hdepth) hlimit
  refine readWith_render hwhole fun doc hdoc => ?_
  exact (decoder_object hdoc hlt s.nodup_members).mpr s.isTold_members

/-- **Reading undoes writing**, for sources and for the parts of them that are written on their
own. -/
theorem reading_undoes_writing :
    (∀ s : Source, read s.toJson.render = .ok s) ∧
      (∀ r : TableRef, TableRef.recordDecoder.readText r.recordJson.render = .ok r) ∧
      (∀ t : VersionedTable, VersionedTable.decoder.readText t.toJson.render = .ok t) ∧
      ∀ r : TableRef, TableRef.decoder.readText r.toJson.render = .ok r :=
  ⟨read_toJson, TableRef.readText_recordJson, VersionedTable.readText_toJson,
    TableRef.readText_toJson⟩

end Source
end Lineage
