import Lineage.Inference
import Lineage.Proofs.Success
import Mathlib.Data.List.Nodup
import Mathlib.Data.Set.Insert
/-
  Schemas that are inferred from the columns of a frame.

  The tracking store has a type for some types of columns and none for others, nested ones among
  them.  What it has them for is said the other way round here, by the types of the store
  (`ColumnType.dtypes`); it does not matter in which unit and for which time zone moments are
  counted.  A schema comes just when every column has one of these types, and then it
  describes the columns one by one; otherwise the first column without such a type is the failure,
  whatever stands behind it (`Schema.infer_columns`).  Both follow from what a computation over a
  list does that stops at its first failure (`mapM_eq_ok_iff`, `mapM_eq_error_iff`).
-/

namespace Lineage

/-! ## Types -/

/-- The types of moments, in any unit, with any time zone or without one. -/
def Dtype.moments : Set Dtype := {d | ∃ unit zone, d = .datetime unit zone}

/-- The types of columns that a type of the tracking store stands for. -/
def ColumnType.dtypes : ColumnType → Set Dtype
  | boolean => {.bool}
  | integer => {.i8, .i16, .i32, .u8, .u16}
  | long => {.i64, .u32, .u64}
  | float => {.f32}
  | double => {.f64}
  | string => {.str}
  | binary => {.binary}
  | datetime => {.date} ∪ Dtype.moments

/-- The types of columns that the tracking store has a type for. -/
def Dtype.tracked : Set Dtype :=
  {.bool, .i8, .i16, .i32, .i64, .u8, .u16, .u32, .u64, .f32, .f64, .str, .binary, .date} ∪ moments

theorem ColumnType.ofDtype?_eq_some_iff {d : Dtype} {t : ColumnType} :
    ofDtype? d = some t ↔ d ∈ t.dtypes := by
  constructor
  · intro h
    cases d with
    | datetime unit zone =>
      cases h
      exact .inr ⟨unit, zone, rfl⟩
    | _ => cases h <;> simp [dtypes]
  · intro h
    cases t with
    | datetime =>
      rcases h with rfl | ⟨unit, zone, rfl⟩
      · rfl
      · rfl
    | integer => rcases h with rfl | rfl | rfl | rfl | rfl <;> rfl
    | long => rcases h with rfl | rfl | rfl <;> rfl
    | _ =>
      obtain rfl := h
      rfl

/-- The types that have one in the tracking store are those of all types there. -/
theorem Dtype.mem_tracked_iff {d : Dtype} : d ∈ tracked ↔ ∃ t : ColumnType, d ∈ t.dtypes := by
  simp only [← ColumnType.ofDtype?_eq_some_iff]
  constructor
  · rintro (h | ⟨unit, zone, rfl⟩)
    · -- Every type has one, or is none of those that are listed.
      cases d <;> first | exact ⟨_, rfl⟩ | simp at h
    · exact ⟨.datetime, rfl⟩
  · rintro ⟨t, ht⟩
    cases d with
    | datetime unit zone => exact .inr ⟨unit, zone, rfl⟩
    | _ => cases ht <;> simp [tracked]

/-! ## Columns -/

namespace ColumnSpec

/-- A specification describes a column: it has its name and a type for its type, and the column has
to be there. -/
structure Describes (spec : ColumnSpec) (column : String × Dtype) : Prop where
  name : spec.name = column.1
  type : column.2 ∈ spec.type.dtypes
  required : spec.required = true

theorem infer_eq_ok_iff {column : String × Dtype} {spec : ColumnSpec} :
    infer column = .ok spec ↔ spec.Describes column := by
  unfold infer
  constructor
  · intro h
    split at h
    · rename_i t ht
      obtain rfl := Except.ok.inj h
      exact ⟨rfl, ColumnType.ofDtype?_eq_some_iff.mp ht, rfl⟩
    · cases h
  · intro h
    obtain ⟨type, name, required⟩ := spec
    rw [ColumnType.ofDtype?_eq_some_iff.mpr h.type]
    simp only [h.name.symm, h.required.symm]

theorem infer_eq_error_iff {column : String × Dtype} {failure : Failure} :
    infer column = .error failure ↔
      column.2 ∉ Dtype.tracked ∧ failure = .unsupportedColumnType column.1 column.2.text := by
  rw [Dtype.mem_tracked_iff, not_exists]
  simp only [← ColumnType.ofDtype?_eq_some_iff]
  unfold infer
  cases ColumnType.ofDtype? column.2 with
  | some t => exact iff_of_false (fun h => by cases h) fun h => h.1 t rfl
  | none =>
    constructor
    · intro h
      exact ⟨fun t ht => (by cases ht), (Except.error.inj h).symm⟩
    · rintro ⟨-, rfl⟩
      rfl

/-- A column is described just when its type has one in the tracking store. -/
theorem exists_describes_iff {column : String × Dtype} :
    (∃ spec : ColumnSpec, spec.Describes column) ↔ column.2 ∈ Dtype.tracked := by
  rw [Dtype.mem_tracked_iff]
  constructor
  · rintro ⟨spec, h⟩
    exact ⟨spec.type, h.type⟩
  · rintro ⟨t, ht⟩
    exact ⟨⟨t, column.1, true⟩, rfl, ht, rfl⟩

end ColumnSpec

/-! ## Schemas -/

namespace Schema

theorem infer_eq_ok_iff {columns : FrameSchema} {s : Schema} :
    infer columns = .ok s ↔ List.Forall₂ (fun c spec => spec.Describes c) columns s.columns := by
  unfold infer
  rw [map_eq_ok]
  constructor
  · rintro ⟨specs, hspecs, rfl⟩
    exact (mapM_eq_ok_iff.mp hspecs).imp fun _ _ => ColumnSpec.infer_eq_ok_iff.mp
  · intro h
    exact ⟨s.columns, mapM_eq_ok_iff.mpr (h.imp fun _ _ => ColumnSpec.infer_eq_ok_iff.mpr), rfl⟩

theorem infer_eq_error_iff {columns : FrameSchema} {failure : Failure} :
    infer columns = .error failure ↔ ∃ before name d after, columns = before ++ (name, d) :: after ∧
      (∀ c ∈ before, c.2 ∈ Dtype.tracked) ∧ d ∉ Dtype.tracked ∧
      failure = .unsupportedColumnType name d.text := by
  unfold infer
  rw [map_eq_error, mapM_eq_error_iff]
  simp only [ColumnSpec.infer_eq_ok_iff, ColumnSpec.infer_eq_error_iff,
    ColumnSpec.exists_describes_iff, Prod.exists]

/-- A schema of described columns names them. -/
theorem names_of_describes {columns : FrameSchema} {s : Schema}
    (h : List.Forall₂ (fun c spec => spec.Describes c) columns s.columns) :
    s.names = columns.map Prod.fst := by
  have hnames : List.Forall₂ (fun spec c => spec.name = c.1) s.columns columns :=
    h.flip.imp fun _ _ hspec => hspec.name
  unfold names
  rwa [← List.forall₂_eq_eq_eq, List.forall₂_map_left_iff, List.forall₂_map_right_iff]

/-- Among different names each stands at its own place. -/
theorem indexOf?_of_getElem? {s : Schema} (hnodup : s.names.Nodup) {i : Nat} {name : String}
    (h : s.names[i]? = some name) : s.indexOf? name = some i := by
  obtain ⟨spec, hspec, rfl⟩ := Option.map_eq_some_iff.mp (List.getElem?_map.symm.trans h)
  obtain ⟨hlt, rfl⟩ := List.getElem?_eq_some_iff.mp hspec
  rw [indexOf?, List.findIdx?_eq_some_iff_getElem]
  refine ⟨hlt, decide_eq_true rfl, fun j hj hsame => ?_⟩
  -- Two places of one name would be the same place.
  have hjlt := Nat.lt_trans hj hlt
  have hplaces : s.names[j]? = s.names[i]? := by
    rw [h, names, List.getElem?_map, List.getElem?_eq_getElem hjlt]
    exact congrArg some (of_decide_eq_true hsame)
  have hlength : j < s.names.length := by rwa [names, List.length_map]
  exact Nat.ne_of_lt hj ((List.getElem?_inj hlength hnodup).mp hplaces)

theorem indexOf?_eq_none_iff {s : Schema} {name : String} :
    s.indexOf? name = none ↔ name ∉ s.names := by
  rw [indexOf?, List.findIdx?_eq_none_iff, names, List.mem_map, not_exists]
  simp only [decide_eq_false_iff_not, not_and]

/-- **A schema is inferred just when the tracking store has a type for the type of every column**,
and then it describes the columns in their order, each of which is found by its name at its own
place.  Otherwise the failure names the first column whose type has none there. -/
theorem infer_columns {columns : FrameSchema} (hnodup : (columns.map Prod.fst).Nodup) :
    ((∃ s, infer columns = .ok s) ↔ ∀ c ∈ columns, c.2 ∈ Dtype.tracked) ∧
    (∀ s, infer columns = .ok s →
      List.Forall₂ (fun c spec => spec.Describes c) columns s.columns ∧
      (∀ i c, columns[i]? = some c → s.indexOf? c.1 = some i) ∧
      ∀ name, name ∉ columns.map Prod.fst → s.indexOf? name = none) ∧
    ∀ failure, infer columns = .error failure ↔
      ∃ before name d after, columns = before ++ (name, d) :: after ∧
        (∀ c ∈ before, c.2 ∈ Dtype.tracked) ∧ d ∉ Dtype.tracked ∧
        failure = .unsupportedColumnType name d.text := by
  refine ⟨?_, fun s hs => ?_, fun failure => infer_eq_error_iff⟩
  · have hspecs : (∃ s, infer columns = .ok s) ↔ ∃ specs, columns.mapM ColumnSpec.infer = .ok specs := by
      unfold infer
      simp only [map_eq_ok]
      exact ⟨fun ⟨_, specs, h, _⟩ => ⟨specs, h⟩, fun ⟨specs, h⟩ => ⟨_, specs, h, rfl⟩⟩
    rw [hspecs, exists_mapM_eq_ok_iff]
    simp only [ColumnSpec.infer_eq_ok_iff, ColumnSpec.exists_describes_iff]
  · have hdescribes := infer_eq_ok_iff.mp hs
    have hnames := names_of_describes hdescribes
    refine ⟨hdescribes, fun i c hc => ?_, fun name hname => ?_⟩
    · refine indexOf?_of_getElem? (hnames.symm ▸ hnodup) ?_
      rw [hnames, List.getElem?_map, hc]
      rfl
    · exact indexOf?_eq_none_iff.mpr (hnames.symm ▸ hname)

/-- A schema of two columns, and one whose second column is nested, as is the third. -/
theorem nested_column_refused :
    (∃ s, infer [("day", .date), ("name", .str)] = .ok s) ∧
      infer [("day", .date), ("tags", .list .str), ("sizes", .list .i64)] =
        .error (.unsupportedColumnType "tags" (Dtype.list .str).text) := by
  have htwo : (([("day", .date), ("name", .str)] : FrameSchema).map Prod.fst).Nodup := by decide
  have hthree : (([("day", .date), ("tags", .list .str), ("sizes", .list .i64)] :
      FrameSchema).map Prod.fst).Nodup := by decide
  constructor
  · exact (infer_columns htwo).1.mpr (by simp [Dtype.tracked])
  · refine ((infer_columns hthree).2.2 _).mpr ⟨[("day", .date)], "tags", .list .str, _, rfl, ?_, ?_, rfl⟩
    · simp [Dtype.tracked]
    · simp [Dtype.tracked, Dtype.moments]

end Schema
end Lineage
