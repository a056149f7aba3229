import Lineage.Proofs.Table.Columns
/-
  Rows are counted and cut off by further steps.

  A plan is asked for the number of its rows by adding a step that counts, and for its first rows by
  adding a step that keeps no more.  A plan over a table in memory with a further step comes to what
  that step makes of the plan's own result, provided that the step does not mind the columns
  (`Plan.collect_andThen`); counting and keeping mind none.  So all three questions have one answer:
  the number of rows is the height of the result, and the first rows are the first of the result
  (`Plan.count_eq`, `Plan.head_eq`).
-/

namespace Lineage

/-! ## Counting and keeping -/

namespace Step

variable (t : Table)

/-- Keeping the first rows. -/
theorem apply_limit (n : Nat) : (limit n).apply t = .ok (t.take n) := rfl

/-- Counting rows. -/
theorem apply_count :
    (select [⟨.rowCount, none⟩]).apply t = .ok ⟨[("len", .u32)], [[.int t.height]]⟩ := rfl

end Step

/-- The first rows are as many as were asked for, if there are that many. -/
theorem Table.height_take (t : Table) (n : Nat) : (t.take n).height = min n t.height :=
  List.length_take

namespace Plan

variable {files : FileTree} {seen : Look} {t : Table} {steps : List Step} {s : Step}

/-! ## Further steps -/

theorem runSteps_append (first second : List Step) (t : Table) :
    runSteps (first ++ second) t = (runSteps first t).bind (runSteps second) := List.foldlM_append

/-- **A further step is carried out on the result**, if it does not mind the columns. -/
theorem collect_andThen (hs : ∀ columns, schema seen ⟨.memory t, steps⟩ = .ok columns →
      ∃ after, s.schema columns = .ok after) :
    (andThen ⟨.memory t, steps⟩ s).collect files seen =
      (collect files seen ⟨.memory t, steps⟩).bind s.apply := by
  have hschema := schema_andThen seen ⟨.memory t, steps⟩ s
  have hrun : runSteps (steps ++ [s]) t = (runSteps steps t).bind s.apply := by
    rw [runSteps_append]
    cases runSteps steps t with
    | error f => rfl
    | ok result => exact bind_pure _
  unfold collect
  rw [hschema]
  cases hcolumns : schema seen ⟨.memory t, steps⟩ with
  | error f => rfl
  | ok columns =>
    obtain ⟨after, hafter⟩ := hs columns hcolumns
    show (s.schema columns >>= fun _ => runSteps (steps ++ [s]) t) = (runSteps steps t).bind s.apply
    rw [hafter]
    exact hrun

/-- **The number of rows is the height of the result.** -/
theorem count_eq : count files seen ⟨.memory t, steps⟩ =
    (collect files seen ⟨.memory t, steps⟩).map fun r => UInt64.ofNat r.height := by
  unfold count counting
  rw [collect_andThen fun _ _ => ⟨_, rfl⟩]
  cases collect files seen ⟨.memory t, steps⟩ with
  | error f => rfl
  | ok r =>
    show ((Step.select [⟨.rowCount, none⟩]).apply r >>= counted) = .ok (UInt64.ofNat r.height)
    rw [Step.apply_count]
    rfl

/-- **The first rows are the first of the result.** -/
theorem head_eq (n : Nat) : head files seen ⟨.memory t, steps⟩ n =
    (collect files seen ⟨.memory t, steps⟩).map fun r => r.take (min n rowBound) := by
  unfold head
  rw [collect_andThen fun _ _ => ⟨_, rfl⟩]
  cases collect files seen ⟨.memory t, steps⟩ with
  | error f => rfl
  | ok r => exact Step.apply_limit r _

end Plan
end Lineage
