import Lineage.Proofs.Entries
import Lineage.Proofs.Table.FurtherSteps
import Mathlib.Data.List.Find
/-
  Selecting all columns changes nothing.

  Steps never make two columns of one name of columns with different names (`nodup_of_schemas`):
  what is selected is checked, and what is put beside other columns takes the place of one with its
  name.  Among different names each column is found at its own place, so what is selected is the
  list of all columns with their values (`Step.apply_whole`).  Rows are then put together anew, and
  each column is found in them again (`Table.map_cellAt_rowsOf`).

  Only a table without columns loses something, which is its height.  Whether selecting all columns
  makes a difference is said of any plan (`Plan.SelectsWhole`), also of one over files, where which
  columns are read depends on the steps.  It makes none for a table in memory with any steps
  (`Plan.selectsWhole_of_memory`), and none for files as they are (`Plan.selectsWhole_of_scan`).
-/

namespace Lineage

/-! ## Different names -/

theorem checkDistinct_eq_ok_iff {names : List String} :
    checkDistinct names = .ok () ↔ names.Nodup := by
  induction names with
  | nil => exact iff_of_true rfl List.nodup_nil
  | cons name rest ih =>
    rw [checkDistinct, List.nodup_cons, ← ih, ← List.contains_iff_mem]
    by_cases hagain : rest.contains name = true
    · rw [if_pos hagain]
      refine iff_of_false (fun h => ?_) fun h => h.1 hagain
      cases h
    · rw [if_neg hagain]
      exact (and_iff_right hagain).symm

namespace Step

variable {columns cs : FrameSchema}

/-- A column that is put in its place takes the place of the one with its name, or is new. -/
theorem nodup_putColumn (h : (columns.map Prod.fst).Nodup) (field : String × Dtype) :
    ((putColumn columns field).map Prod.fst).Nodup := by
  unfold putColumn
  by_cases hmem : field.1 ∈ columns.map Prod.fst
  · obtain ⟨c, hc, hname⟩ := List.mem_map.mp hmem
    have hthere : columns.any (·.1 == field.1) = true :=
      List.any_eq_true.mpr ⟨c, hc, beq_iff_eq.mpr hname⟩
    obtain ⟨i, d, hindex, -, hget⟩ := exists_place hthere
    have hplace : (columns.map Prod.fst)[i]? = some field.1 := by
      rw [List.getElem?_map, hget]
      rfl
    have hsame : (columns.map Prod.fst).set i field.1 = columns.map Prod.fst := by
      obtain ⟨hlt, hi⟩ := List.getElem?_eq_some_iff.mp hplace
      rw [← hi, List.set_getElem_self]
    simp only [hindex]
    rw [List.map_set, hsame]
    exact h
  · simp only [indexOf?_eq_none hmem]
    rw [List.map_append]
    refine List.nodup_append.mpr ⟨h, List.pairwise_singleton _ _, fun name hname other hother => ?_⟩
    rw [List.mem_singleton.mp hother]
    exact ne_of_mem_of_not_mem hname hmem

theorem nodup_foldl_putColumn : ∀ (fields : FrameSchema) {columns : FrameSchema},
    (columns.map Prod.fst).Nodup → ((fields.foldl putColumn columns).map Prod.fst).Nodup
  | [], _, h => h
  | field :: rest, _, h => nodup_foldl_putColumn rest (nodup_putColumn h field)

/-- What is selected has different names. -/
theorem nodup_fields {outputs : List Output} (h : fields columns outputs = .ok cs) :
    (cs.map Prod.fst).Nodup := by
  obtain ⟨made, -, hrest⟩ := bind_eq_ok.mp h
  obtain ⟨⟨⟩, hdistinct, hmade⟩ := bind_eq_ok.mp hrest
  obtain rfl := Except.ok.inj hmade
  exact checkDistinct_eq_ok_iff.mp hdistinct

/-- **A step makes different names of different names.** -/
theorem nodup_of_schema {s : Step} (h : s.schema columns = .ok cs)
    (hnames : (columns.map Prod.fst).Nodup) : (cs.map Prod.fst).Nodup := by
  cases s with
  | filter condition =>
    obtain ⟨-, -, hsame⟩ := bind_eq_ok.mp h
    obtain rfl := Except.ok.inj hsame
    exact hnames
  | sort keys =>
    obtain ⟨-, -, hsame⟩ := bind_eq_ok.mp h
    obtain rfl := Except.ok.inj hsame
    exact hnames
  | slice offset length =>
    obtain rfl := Except.ok.inj h
    exact hnames
  | distinct =>
    obtain rfl := Except.ok.inj h
    exact hnames
  | select outputs => exact nodup_fields h
  | extend outputs =>
    obtain ⟨made, -, hput⟩ := bind_eq_ok.mp h
    obtain rfl := Except.ok.inj hput
    exact nodup_foldl_putColumn made hnames
  | lead outputs =>
    obtain ⟨made, -, hput⟩ := bind_eq_ok.mp h
    obtain rfl := Except.ok.inj hput
    exact nodup_foldl_putColumn made hnames

end Step

/-- Several steps make different names of different names. -/
theorem nodup_of_schemas : ∀ {steps : List Step} {columns cs : FrameSchema},
    steps.foldlM Step.schema columns = .ok cs → (columns.map Prod.fst).Nodup →
      (cs.map Prod.fst).Nodup
  | [], _, _, h, hnames => by
    obtain rfl := Except.ok.inj h
    exact hnames
  | s :: rest, columns, cs, h, hnames => by
    rw [List.foldlM_cons] at h
    obtain ⟨next, hnext, hrest⟩ := bind_eq_ok.mp h
    exact nodup_of_schemas hrest (Step.nodup_of_schema hnext hnames)

/-! ## Tables that hold the same -/

namespace Table

/-- Columns that stand side by side are found in their rows again. -/
theorem map_cellAt_rowsOf {j : Nat} : ∀ {height : Nat} {columns : List (List Cell)}
    {column : List Cell}, (∀ c ∈ columns, c.length = height) → columns[j]? = some column →
      (rowsOf height columns).map (cellAt · j) = column
  | 0, columns, column, hheight, hget =>
    (List.length_eq_zero_iff.mp (hheight column (List.mem_of_getElem? hget))).symm
  | height + 1, columns, column, hheight, hget => by
    obtain ⟨c, rest, rfl⟩ := List.exists_cons_of_length_eq_add_one
      (hheight column (List.mem_of_getElem? hget))
    have hshorter : ∀ d ∈ columns.map (·.drop 1), d.length = height := by
      intro d hd
      obtain ⟨e, he, rfl⟩ := List.mem_map.mp hd
      rw [List.length_drop, hheight e he, Nat.add_sub_cancel]
    have hrest : (columns.map (·.drop 1))[j]? = some rest := by
      rw [List.getElem?_map, hget]
      rfl
    rw [rowsOf, List.map_cons, map_cellAt_rowsOf hshorter hrest, cellAt,
      List.getD_eq_getElem?_getD, List.getElem?_map, hget]
    rfl

theorem length_rowsOf : ∀ (height : Nat) (columns : List (List Cell)),
    (rowsOf height columns).length = height
  | 0, _ => rfl
  | height + 1, columns => by rw [rowsOf, List.length_cons, length_rowsOf height]

/-- Two tables hold the same: the same columns with the same values, and as many rows. -/
structure Same (t u : Table) : Prop where
  series : t.series = u.series
  height : t.height = u.height

/-- Tables with the same columns hold the same if they hold the same at each place. -/
theorem same_of_cells {t u : Table} (hcolumns : t.columns = u.columns)
    (hheight : t.height = u.height) (hcells : ∀ j < u.columns.length, t.cells j = u.cells j) : t.Same u := by
  refine ⟨List.ext_getElem? fun j => ?_, hheight⟩
  rw [getElem?_series, getElem?_series, hcolumns]
  cases hget : u.columns[j]? with
  | none => rfl
  | some c =>
    obtain ⟨hlt, -⟩ := List.getElem?_eq_some_iff.mp hget
    rw [hcells j hlt]

end Table

/-! ## Selecting all columns -/

namespace Step

/-- The step that selects all of some columns. -/
def whole (columns : FrameSchema) : Step := select (columns.map fun c => .column c.1)

variable {columns : FrameSchema}

/-- A column that is selected keeps its name, and has the type that is found under it. -/
theorem field_column {c : String × Dtype} (hc : c ∈ columns) :
    Output.field columns (.column c.1) = .ok (c.1, (columns.lookup c.1).getD c.2) := by
  obtain ⟨d, hd⟩ := Option.ne_none_iff_exists'.mp
    (lookup_ne_none_iff.mpr (List.mem_map.mpr ⟨c, hc, rfl⟩))
  have hdtype : (Expr.column c.1).dtype columns = .ok d := by
    show typeOfColumn columns c.1 = .ok d
    rw [typeOfColumn, hd]
  show ((Expr.column c.1).dtype columns >>= fun d => pure (c.1, d)) = _
  rw [hdtype, hd]
  rfl

theorem mapM_field_column (columns : FrameSchema) :
    (columns.map fun c => Output.column c.1).mapM (Output.field columns) =
      .ok (columns.map fun c => (c.1, (columns.lookup c.1).getD c.2)) := by
  rw [List.mapM_map]
  exact mapM_eq_ok fun c hc => field_column hc

/-- Among different names it is its own type. -/
theorem map_lookup_of_nodup (hnames : (columns.map Prod.fst).Nodup) :
    columns.map (fun c => (c.1, (columns.lookup c.1).getD c.2)) = columns := by
  refine (List.map_congr_left fun c hc => ?_).trans (List.map_id columns)
  obtain ⟨i, hi⟩ := List.mem_iff_getElem?.mp hc
  rw [(place_of_getElem? hnames hi).2]
  rfl

/-- The columns stay as they are. -/
theorem schema_whole (hnames : (columns.map Prod.fst).Nodup) :
    (whole columns).schema columns = .ok columns := by
  show fields columns (columns.map fun c => Output.column c.1) = _
  rw [fields, mapM_field_column, map_lookup_of_nodup hnames]
  show (checkDistinct (columns.map Prod.fst) >>= fun _ => pure columns) = _
  rw [checkDistinct_eq_ok_iff.mpr hnames]
  rfl

/-- All columns can be selected. -/
theorem check_whole (columns : FrameSchema) : (whole columns).check columns = .ok () := by
  have hexprs : ∀ cs : FrameSchema,
      ((cs.map fun c => Output.column c.1).map Output.expr).forM (Expr.check columns) = .ok () := by
    intro cs
    induction cs with
    | nil => rfl
    | cons c rest ih => exact ih
  show ((whole columns).exprs.forM (Expr.check columns) >>= fun _ => pure ()) = _
  rw [show (whole columns).exprs.forM (Expr.check columns) = .ok () from hexprs columns]
  rfl

/-- What is selected is each column with its values. -/
theorem rows_whole {t : Table} (hnames : (t.columns.map Prod.fst).Nodup) (hne : t.columns ≠ []) :
    (whole t.columns).rows t = Table.rowsOf t.height (t.series.map Series.cells) := by
  have hheight : (if (t.columns.map fun c => Output.column c.1).isEmpty then 0
      else if (t.columns.map fun c => Output.column c.1).any fun o => o.expr.usesRow then t.height
      else 1) = t.height := by
    obtain ⟨c, rest, hcons⟩ := List.exists_cons_of_ne_nil hne
    rw [hcons]
    rfl
  show selected t (t.columns.map fun c => Output.column c.1) = _
  unfold selected
  simp only [hheight]
  refine congrArg _ (List.ext_getElem? fun j => ?_)
  rw [List.getElem?_map, List.getElem?_map, List.getElem?_map, Table.getElem?_series]
  cases hget : t.columns[j]? with
  | none => rfl
  | some c =>
    obtain ⟨hindex, -⟩ := place_of_getElem? hnames hget
    show some (((Expr.column c.1).values t.columns t.rows).spread t.height) = some (t.cells j)
    rw [Expr.values, hindex]
    rfl

/-- **Selecting all columns changes nothing**, if there are any and they have different names. -/
theorem apply_whole {t : Table} (hnames : (t.columns.map Prod.fst).Nodup) (hne : t.columns ≠ []) :
    ∃ u, (whole t.columns).apply t = .ok u ∧ u.Same t := by
  have hrows := rows_whole hnames hne
  refine ⟨⟨t.columns, (whole t.columns).rows t⟩, ?_, Table.same_of_cells rfl ?_ ?_⟩
  · show ((whole t.columns).schema t.columns >>= fun columns => _) = _
    rw [schema_whole hnames]
    show ((whole t.columns).check t.columns >>= fun _ => _) = _
    rw [check_whole]
    rfl
  · show ((whole t.columns).rows t).length = t.height
    rw [hrows, Table.length_rowsOf]
  · intro j hj
    show ((whole t.columns).rows t).map (Table.cellAt · j) = t.cells j
    rw [hrows]
    refine Table.map_cellAt_rowsOf ?_ ?_
    · intro cells hcells
      obtain ⟨c, hc, rfl⟩ := List.mem_map.mp hcells
      exact t.length_of_mem_series hc
    · rw [List.getElem?_map, Table.getElem?_series, List.getElem?_eq_getElem hj]
      rfl

end Step

/-! ## Plans -/

/-- Two results are the same: the same failure, or tables that hold the same. -/
inductive SameResult : Except Failure Table → Except Failure Table → Prop
  | failure (f : Failure) : SameResult (.error f) (.error f)
  | table {t u : Table} (h : t.Same u) : SameResult (.ok t) (.ok u)

/-- Selecting all columns of a result makes no difference to it, if there are any and they have
different names. -/
theorem sameResult_whole {x : Except Failure Table} {columns : FrameSchema}
    (hnames : (columns.map Prod.fst).Nodup) (hne : columns ≠ [])
    (h : ∀ t, x = .ok t → t.columns = columns) :
    SameResult (x.bind fun t => (Step.whole columns).apply t) x := by
  cases x with
  | error f => exact .failure f
  | ok t =>
    obtain rfl := h t rfl
    obtain ⟨u, happly, hsame⟩ := Step.apply_whole hnames hne
    show SameResult ((Step.whole t.columns).apply t) (.ok t)
    rw [happly]
    exact .table hsame

namespace Plan

/-- Selecting all columns of a plan makes no difference to its result. -/
def SelectsWhole (files : FileTree) (seen : Look) (p : Plan) : Prop :=
  ∀ columns, p.schema seen = .ok columns →
    SameResult ((p.andThen (.whole columns)).collect files seen) (p.collect files seen)

variable {files : FileTree} {seen : Look}

/-- **Selecting all columns makes no difference to a table in memory**, whatever steps come
first. -/
theorem selectsWhole_of_memory {t : Table} {steps : List Step} (hnames : t.names.Nodup)
    (hne : schema (.ofTable t) ⟨.memory t, steps⟩ ≠ .ok []) :
    SelectsWhole files (.ofTable t) ⟨.memory t, steps⟩ := by
  intro columns hcolumns
  have hnodup : (columns.map Prod.fst).Nodup := nodup_of_schemas hcolumns hnames
  have hwhole : ∀ cs, schema (.ofTable t) ⟨.memory t, steps⟩ = .ok cs →
      ∃ after, (Step.whole columns).schema cs = .ok after := by
    intro cs hcs
    obtain rfl := Except.ok.inj (hcs.symm.trans hcolumns)
    exact ⟨cs, Step.schema_whole hnodup⟩
  rw [collect_andThen hwhole]
  refine sameResult_whole hnodup (fun h => hne (by rw [hcolumns, h])) fun r hr => ?_
  exact Except.ok.inj ((columns_of_collect hr).symm.trans hcolumns)

end Plan

/-! ## Files as they are -/

namespace Files

variable {expected : FrameSchema} {f g : String → Bool}

theorem Csv.rows_congr (h : ∀ c ∈ expected, f c.1 = g c.1) (text : String) :
    Csv.rows expected f text = Csv.rows expected g text := by
  -- A column of the file that is not expected is not read in any case.
  have hwanted : ∀ name, (if f name then expected.lookup name else none) =
      if g name then expected.lookup name else none := by
    intro name
    by_cases hmem : name ∈ expected.map Prod.fst
    · obtain ⟨c, hc, rfl⟩ := List.mem_map.mp hmem
      rw [h c hc]
    · rw [lookup_of_not_mem hmem, ite_self, ite_self]
  have hmissing : ∀ names : List String, (expected.find? fun c => f c.1 && !names.contains c.1) =
      expected.find? fun c => g c.1 && !names.contains c.1 := by
    intro names
    refine List.find?_congr fun c hc => ?_
    rw [h c hc]
  unfold Csv.rows
  simp only [hwanted, hmissing]

theorem Records.lineRows_congr (h : ∀ c ∈ expected, f c.1 = g c.1) (text : String) :
    Records.lineRows expected f text = Records.lineRows expected g text := by
  unfold Records.lineRows
  refine mapM_congr fun line _ => congrArg _ (funext fun row => mapM_congr fun c hc => ?_)
  rw [h c hc]

theorem rowsOfTable_congr (h : ∀ c ∈ expected, f c.1 = g c.1) (t : Table) :
    rowsOfTable expected f t = rowsOfTable expected g t := by
  unfold rowsOfTable
  rw [mapM_congr fun c hc => by rw [h c hc]]

/-- Which columns are needed matters only for the columns that are expected. -/
theorem read_congr {seen : Look} (h : ∀ c ∈ seen.columns, f c.1 = g c.1) (files : FileTree)
    (format : FileFormat) : read files format seen f = read files format seen g := by
  unfold read
  cases format with
  | csv => simp only [Csv.rows_congr h]
  | ndjson => simp only [Records.lineRows_congr h]
  | parquet => simp only [rowsOfTable_congr h]
  | json => rfl

end Files

namespace Step

/-- All columns are needed for selecting all columns, and so are the rows. -/
theorem trimAll_whole {columns : FrameSchema} (hnames : (columns.map Prod.fst).Nodup)
    (hne : columns ≠ []) :
    trimAll columns [whole columns] = (⟨some (columns.map Prod.fst), true⟩, [whole columns]) := by
  have hkept : neededOutputs .everything (columns.map fun c => Output.column c.1) =
      columns.map fun c => Output.column c.1 := by
    have hall : (columns.map fun c => Output.column c.1).filter
        (fun o => Demand.everything.includes o.name) = columns.map fun c => Output.column c.1 :=
      List.filter_eq_self.mpr fun _ _ => rfl
    unfold neededOutputs
    rw [hall]
    exact ite_self _
  have hused : used (columns.map fun c => Output.column c.1) = columns.map Prod.fst := by
    unfold used
    rw [List.flatMap_map]
    exact List.flatMap_pure_eq_map Prod.fst columns
  have hcounts : (whole columns).countsRows = false := by
    obtain ⟨c, rest, rfl⟩ := List.exists_cons_of_ne_nil hne
    cases rest with
    | nil => rfl
    | cons d rest => rfl
  have hlisted : (columns.map Prod.fst).isEmpty = false := by
    obtain ⟨c, rest, rfl⟩ := List.exists_cons_of_ne_nil hne
    rfl
  have htrim : trim columns .everything (whole columns) =
      (⟨some (columns.map Prod.fst), true⟩, some (whole columns)) := by
    unfold whole at hcounts ⊢
    simp only [trim, hcounts, hkept, hused, Demand.ofColumns, hlisted]
    rfl
  unfold trimAll
  simp only [schema_whole hnames, trimAll, htrim]
  rfl

end Step

namespace Plan

variable {files : FileTree} {seen : Look}

/-- Files of which all columns are selected are read as they are. -/
theorem runOverFiles_whole (hnames : (seen.columns.map Prod.fst).Nodup) (hne : seen.columns ≠ [])
    (format : FileFormat) :
    runOverFiles files seen format [.whole seen.columns] =
      (runOverFiles files seen format []).bind fun t => (Step.whole seen.columns).apply t := by
  have hread :
      Files.read files format seen (Demand.includes ⟨some (seen.columns.map Prod.fst), true⟩) =
        Files.read files format seen Demand.everything.includes := by
    refine Files.read_congr (fun c hc => ?_) files format
    exact List.contains_iff_mem.mpr (List.mem_map_of_mem hc)
  have hrun : ∀ rows, runSteps [.whole seen.columns] ⟨seen.columns, rows⟩ =
      (Step.whole seen.columns).apply ⟨seen.columns, rows⟩ := fun _ => bind_pure _
  have hwhole : runOverFiles files seen format [.whole seen.columns] =
      (Files.read files format seen Demand.everything.includes).bind
        fun rows => (Step.whole seen.columns).apply ⟨seen.columns, rows⟩ := by
    simp only [← hrun, ← hread]
    unfold runOverFiles
    rw [Step.trimAll_whole hnames hne]
    -- The selection does not begin with counting rows.
    obtain ⟨paths, columns, count⟩ := seen
    obtain ⟨c, rest, rfl⟩ := List.exists_cons_of_ne_nil hne
    cases rest with
    | nil => rfl
    | cons d rest => rfl
  rw [hwhole]
  show _ = (Except.bind (Files.read files format seen Demand.everything.includes)
    fun rows => .ok (Table.mk seen.columns rows)).bind _
  cases Files.read files format seen Demand.everything.includes with
  | error f => rfl
  | ok rows => rfl

/-- **Selecting all columns makes no difference to files as they are.** -/
theorem selectsWhole_of_scan (hnames : (seen.columns.map Prod.fst).Nodup) (hne : seen.columns ≠ [])
    (format : FileFormat) (path : String) (scan : Nat) :
    SelectsWhole files seen ⟨.files format path scan, []⟩ := by
  intro columns hcolumns
  obtain rfl := Except.ok.inj hcolumns
  have hschema : schema seen (andThen ⟨.files format path scan, []⟩ (.whole seen.columns)) =
      .ok seen.columns := by
    rw [schema_andThen]
    exact Step.schema_whole hnames
  show SameResult (schema seen (andThen ⟨.files format path scan, []⟩ (.whole seen.columns)) >>=
    fun _ => runOverFiles files seen format [.whole seen.columns])
      (runOverFiles files seen format [])
  rw [hschema]
  show SameResult (runOverFiles files seen format [.whole seen.columns]) _
  rw [runOverFiles_whole hnames hne]
  refine sameResult_whole hnames hne fun t ht => ?_
  obtain ⟨rows, -, hmade⟩ := bind_eq_ok.mp ht
  obtain rfl := Except.ok.inj hmade
  rfl

end Plan
end Lineage
