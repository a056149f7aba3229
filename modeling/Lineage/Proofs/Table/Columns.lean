import Lineage.Proofs.EngineFaults
import Lineage.Proofs.Success
import Lineage.Table.Plan
/-
  The columns of collected tables.

  A column is found by its name, at the first place where the name stands (`exists_place`); among
  different names there is no other place (`place_of_getElem?`).  All columns of a table are as high
  as the table (`Table.length_of_mem_series`).

  The columns of a plan are told before any row is looked at (`Plan.schema`).  A plan over a table
  in memory is collected step by step, and each step makes the columns that were told for it
  (`Step.columns_of_apply`); so the collected table has the columns of the plan
  (`Plan.columns_of_collect`).  Keeping the first rows only is one more step, and that leaves the
  columns alone (`Plan.columns_of_head`).
-/

namespace Lineage

/-! ## Places -/

/-- A column that is there has a place and a type. -/
theorem exists_place {name : String} : ∀ {columns : FrameSchema},
    columns.any (·.1 == name) = true → ∃ i d, Table.indexOf? columns name = some i ∧
      columns.lookup name = some d ∧ columns[i]? = some (name, d)
  | [], h => by cases h
  | (first, d) :: rest, h => by
    unfold Table.indexOf?
    rw [List.findIdx?_cons, List.lookup_cons]
    by_cases hfirst : first = name
    · subst hfirst
      exact ⟨0, d, by simp, by simp, rfl⟩
    · have hother : (name == first) = false := beq_eq_false_iff_ne.mpr (Ne.symm hfirst)
      have hnot : (first == name) = false := beq_eq_false_iff_ne.mpr hfirst
      rw [List.any_cons, hnot, Bool.false_or] at h
      obtain ⟨i, e, hindex, hlookup, hget⟩ := exists_place h
      refine ⟨i + 1, e, ?_, ?_, hget⟩
      · unfold Table.indexOf? at hindex
        simp only [hnot, hindex]
        rfl
      · simp only [hother, hlookup]

/-- A column that is not there has no place. -/
theorem indexOf?_eq_none {columns : FrameSchema} {name : String}
    (h : name ∉ columns.map Prod.fst) : Table.indexOf? columns name = none := by
  rw [Table.indexOf?, List.findIdx?_eq_none_iff]
  intro c hc
  exact beq_eq_false_iff_ne.mpr fun he => h (List.mem_map.mpr ⟨c, hc, he⟩)

/-- Among different names a column is found at the one place where it stands. -/
theorem place_of_getElem? {columns : FrameSchema} {i : Nat} {name : String} {dtype : Dtype}
    (hnames : (columns.map Prod.fst).Nodup) (h : columns[i]? = some (name, dtype)) :
    Table.indexOf? columns name = some i ∧ columns.lookup name = some dtype := by
  have hthere : columns.any (·.1 == name) = true :=
    List.any_eq_true.mpr ⟨(name, dtype), List.mem_of_getElem? h, beq_self_eq_true name⟩
  obtain ⟨j, found, hindex, hlookup, hget⟩ := exists_place hthere
  obtain ⟨hlt, -⟩ := List.getElem?_eq_some_iff.mp hget
  have hsame : j = i := by
    refine (List.getElem?_inj (by rwa [List.length_map]) hnames).mp ?_
    rw [List.getElem?_map, List.getElem?_map, hget, h]
    rfl
  subst hsame
  obtain ⟨-, rfl⟩ := Prod.ext_iff.mp (Option.some.inj (hget.symm.trans h))
  exact ⟨hindex, hlookup⟩

/-! ## Columns with their values -/

namespace Table

variable (t : Table)

/-- The column at a place, with its values. -/
theorem getElem?_series (j : Nat) :
    t.series[j]? = t.columns[j]?.map fun c => ⟨c.1, c.2, t.cells j⟩ := by
  rw [series, List.getElem?_map, List.getElem?_zipIdx, Option.map_map, Nat.zero_add]
  rfl

theorem length_cells (j : Nat) : (t.cells j).length = t.height := List.length_map _

/-- Every column is as high as the table. -/
theorem length_of_mem_series {c : Series} (h : c ∈ t.series) : c.cells.length = t.height := by
  obtain ⟨⟨column, j⟩, -, rfl⟩ := List.mem_map.mp h
  exact t.length_cells j

end Table

/-! ## Columns of what is collected -/

/-- A step makes a table with the columns that are told for it. -/
theorem Step.columns_of_apply {s : Step} {t t' : Table} (h : s.apply t = .ok t') :
    s.schema t.columns = .ok t'.columns := by
  obtain ⟨columns, hcolumns, hrest⟩ := bind_eq_ok.mp h
  obtain ⟨-, -, hmade⟩ := bind_eq_ok.mp hrest
  obtain rfl := Except.ok.inj hmade
  exact hcolumns

namespace Plan

/-- So do several steps. -/
theorem columns_of_runSteps : ∀ {steps : List Step} {t t' : Table}, runSteps steps t = .ok t' →
    steps.foldlM Step.schema t.columns = .ok t'.columns
  | [], t, t', h => by
    obtain rfl := Except.ok.inj h
    rfl
  | s :: steps, t, t', h => by
    unfold runSteps at h
    rw [List.foldlM_cons] at h ⊢
    obtain ⟨next, happly, hrest⟩ := bind_eq_ok.mp h
    exact bind_eq_ok.mpr ⟨next.columns, Step.columns_of_apply happly, columns_of_runSteps hrest⟩

variable {files : FileTree} {t t' : Table} {steps : List Step}

/-- **What is collected has the columns of the plan.** -/
theorem columns_of_collect (h : collect files (.ofTable t) ⟨.memory t, steps⟩ = .ok t') :
    schema (.ofTable t) ⟨.memory t, steps⟩ = .ok t'.columns := by
  obtain ⟨-, -, hrun⟩ := bind_eq_ok.mp h
  exact columns_of_runSteps hrun

/-- The columns after a further step. -/
theorem schema_andThen (seen : Look) (p : Plan) (s : Step) :
    (p.andThen s).schema seen = (p.schema seen).bind fun columns => s.schema columns := by
  unfold schema andThen
  rw [List.foldlM_append]
  cases p.steps.foldlM Step.schema seen.columns with
  | error f => rfl
  | ok columns =>
    show (s.schema columns >>= pure) = _
    exact bind_pure _

/-- Keeping the first rows changes no columns. -/
theorem schema_andThen_limit (seen : Look) (p : Plan) (n : Nat) :
    (p.andThen (.limit n)).schema seen = p.schema seen := by
  rw [schema_andThen]
  cases p.schema seen with
  | error f => rfl
  | ok columns => rfl

/-- The first rows have the columns of the plan. -/
theorem columns_of_head {n : Nat} (h : head files (.ofTable t) ⟨.memory t, steps⟩ n = .ok t') :
    schema (.ofTable t) ⟨.memory t, steps⟩ = .ok t'.columns := by
  rw [← schema_andThen_limit (.ofTable t) ⟨.memory t, steps⟩ (min n rowBound)]
  exact columns_of_collect h

theorem schema_engineOnly (seen : Look) (p : Plan) : EngineOnly (p.schema seen) :=
  .foldlM (fun columns s => s.schema_engineOnly columns) p.steps seen.columns

/-- The first rows of a table in memory are refused by the engine alone. -/
theorem head_engineOnly (files : FileTree) (t : Table) (steps : List Step) (n : Nat) :
    EngineOnly (head files (.ofTable t) ⟨.memory t, steps⟩ n) :=
  (schema_engineOnly _ _).bind fun _ => .foldlM Step.apply_engineOnly _ t

end Plan

end Lineage
