import Lineage.Proofs.Dataset.Courses
import Lineage.Proofs.Table.Columns
import Mathlib.Data.List.InsertIdx
/-
  Splitting the first rows loses nothing.

  A dataset asks its frame for the first rows, once, and hands out what it gets: the whole table, or
  the label column apart and all the others without it.  The answer of the frame is any table, also
  one with more rows than were asked for, so nothing is known of it but its columns.

  What stands in a table is the list of its columns with their values (`Table.series`).  A table
  without the column at a place has the same list without the entry at that place
  (`Table.series_dropColumn`), whichever of its rows are too short; so the label column put back at
  its place gives all columns back (`TakesOut`).  The observer is told of the rows before the label
  column is looked for, so it is told of them also if there is none (`split_loses_nothing`).
-/

namespace Lineage

/-! ## Taking a column out of a table -/

namespace Table

variable (t : Table)

theorem height_dropColumn (i : Nat) : (t.dropColumn i).height = t.height := List.length_map _

/-- Behind a column that is taken out the others move up. -/
theorem cells_dropColumn (i j : Nat) :
    (t.dropColumn i).cells j = t.cells (if j < i then j else j + 1) := by
  rw [cells, cells, dropColumn, List.map_map]
  refine List.map_congr_left fun row _ => ?_
  show (row.eraseIdx i).getD j .null = row.getD (if j < i then j else j + 1) .null
  rw [List.getD_eq_getElem?_getD, List.getElem?_eraseIdx, List.getD_eq_getElem?_getD]
  split <;> rfl

/-- **The columns of a table without one of them are the others**, in their order and with their
values. -/
theorem series_dropColumn (i : Nat) : (t.dropColumn i).series = t.series.eraseIdx i := by
  refine List.ext_getElem? fun j => ?_
  rw [getElem?_series, cells_dropColumn, List.getElem?_eraseIdx, getElem?_series, getElem?_series]
  show ((t.columns.eraseIdx i)[j]?).map _ = _
  rw [List.getElem?_eraseIdx]
  split <;> rfl

end Table

/-! ## Requests -/

/-- Something that is said without asking anybody for anything: an event, a note, a line for a file
and the time on it. -/
def Question.isMessage {F : Type} : Question F → Bool
  | deliver _ _ _ | note _ | now | appendLine _ _ => true
  | _ => false

/-- The part of a course in which something is asked for. -/
def requests {F : Type} (said : List (Exchange F)) : List (Exchange F) :=
  said.filter fun x => !x.question.isMessage

/-- Whoever serves an observer asks for nothing. -/
theorem requests_of_isReport {F : Type} {said : List (Exchange F)}
    (h : ∀ x ∈ said, x.question.isReport = true) : requests said = [] := by
  have hmessage : ∀ q : Question F, q.isReport = true → (!q.isMessage) = false := by
    intro q hq
    cases q with
    | deliver _ _ _ | now | appendLine _ _ | note _ => rfl
    | _ => cases hq
  exact filter_of_isReport hmessage h

theorem Question.exists_answer {F : Type} (q : Question F) : Nonempty q.Answer := by
  cases q with
  | isVersionedTable _ | isVersionedPath _ => exact ⟨true⟩
  | latestOfTable _ | latestOfPath _ => exact ⟨none⟩
  | deliver _ _ _ | note _ | appendLine _ _ => exact ⟨()⟩
  | now => exact ⟨Nat.zero⟩
  | _ => exact ⟨.error (.internal (.targetLost ""))⟩

/-- Every dialogue comes to an end. -/
theorem Dialogue.exists_runs {F α : Type} (d : Dialogue F α) : ∃ said a, Runs d said a := by
  induction d with
  | done a => exact ⟨[], a, .done a⟩
  | ask q next ih =>
    obtain ⟨r⟩ := q.exists_answer
    obtain ⟨said, a, h⟩ := ih r
    exact ⟨⟨q, r⟩ :: said, a, .ask r h⟩

/-! ## Splitting -/

namespace Dataset

open Dialogue

variable {F : Type}

/-- A split has taken the column at a place out of a table, and nothing else. -/
structure TakesOut (t : Table) (place : Nat) (label : Series) (s : Split) : Prop where
  outputs : s.outputs = some label
  column : t.series[place]? = some label
  inputs : s.inputs.series = t.series.eraseIdx place
  restored : s.inputs.series.insertIdx place label = t.series
  height : s.inputs.height = t.height
  level : ∀ c ∈ label :: s.inputs.series, c.cells.length = t.height

/-- The columns of a table are divided into inputs and outputs: there are only inputs, or the label
column is taken out, or it is lost. -/
def Divides (t : Table) (result : Except Failure Split) : Option String → Prop
  | none => result = .ok ⟨t, none⟩
  | some target =>
    (t.names.Nodup → ∀ place, t.names[place]? = some target →
      ∃ s label, result = .ok s ∧ label.name = target ∧ TakesOut t place label s) ∧
    (target ∉ t.names → result = .error (.internal (.targetLost target)))

theorem takesOut_dropColumn {t : Table} {place : Nat} {name : String} {dtype : Dtype}
    (h : t.columns[place]? = some (name, dtype)) :
    TakesOut t place ⟨name, dtype, t.cells place⟩
      ⟨t.dropColumn place, some ⟨name, dtype, t.cells place⟩⟩ := by
  have hcolumn : t.series[place]? = some ⟨name, dtype, t.cells place⟩ := by
    rw [t.getElem?_series, h]
    rfl
  obtain ⟨hlt, helem⟩ := List.getElem?_eq_some_iff.mp hcolumn
  refine ⟨rfl, hcolumn, t.series_dropColumn place, ?_, t.height_dropColumn place, ?_⟩
  · show (t.dropColumn place).series.insertIdx place _ = t.series
    rw [t.series_dropColumn, ← helem, List.insertIdx_eraseIdx_getElem hlt]
  · intro c hc
    rcases List.mem_cons.mp hc with rfl | hc
    · exact t.length_cells place
    · rw [(t.dropColumn place).length_of_mem_series hc, t.height_dropColumn]

/-- **A table is divided at its label column.** -/
theorem splitTable_divides (t : Table) (targets : Option String) :
    Divides t (splitTable targets t) targets := by
  cases targets with
  | none => rfl
  | some target =>
    constructor
    · intro hnames place hplace
      obtain ⟨⟨name, dtype⟩, hcolumn, rfl⟩ :=
        Option.map_eq_some_iff.mp ((List.getElem?_map ..).symm.trans hplace)
      obtain ⟨hindex, hlookup⟩ := place_of_getElem? hnames hcolumn
      refine ⟨_, _, ?_, rfl, takesOut_dropColumn hcolumn⟩
      simp only [splitTable, hindex, hlookup]
    · intro hlost
      simp only [splitTable, indexOf?_eq_none hlost]

/-- Both parts of a split are as high as the table. -/
theorem height_of_splitTable {targets : Option String} {t : Table} {s : Split}
    (h : splitTable targets t = .ok s) :
    s.inputs.height = t.height ∧ ∀ c ∈ s.outputs, c.cells.length = t.height := by
  unfold splitTable at h
  split at h
  · obtain rfl := Except.ok.inj h
    exact ⟨rfl, fun _ hc => nomatch hc⟩
  · split at h
    · obtain rfl := Except.ok.inj h
      refine ⟨t.height_dropColumn _, fun c hc => ?_⟩
      obtain rfl := Option.some.inj hc
      exact t.length_cells _
    · cases h

/-- What is told and answered when the rows of a dataset are split, by the answer of its frame. -/
def SplitsInto (d : Dataset F) (said : List (Exchange F)) (result : Except Failure Split) :
    Except Failure Table → Prop
  | .error f => result = .error f ∧ d.Told [] said
  | .ok t =>
    d.Told [.materialized t.height t.width d.options.rowLimit] said ∧ Divides t result d.targets

/-- Whatever the frame answers, the split ends. -/
theorem exists_splitCourse (d : Dataset F) (rows : Except Failure Table) :
    ∃ said result, SplitCourse d said result ∧
      ⟨.firstRows d.frame d.options.rowLimit, rows⟩ ∈ said := by
  cases rows with
  | error f => exact ⟨_, _, .failed, List.mem_cons_self⟩
  | ok t =>
    obtain ⟨told, ⟨⟩, ht⟩ :=
      exists_runs (d.emit (.materialized t.height t.width d.options.rowLimit))
    exact ⟨_, _, .materialized ht, List.mem_cons_self⟩

/-- Each course of a split is decided by one answer of the frame, and nothing else is asked for. -/
theorem SplitCourse.splitsInto {d : Dataset F} {said : List (Exchange F)}
    {result : Except Failure Split} (h : SplitCourse d said result) :
    ∃ rows, requests said = [⟨.firstRows d.frame d.options.rowLimit, rows⟩] ∧
      SplitsInto d said result rows := by
  cases h with
  | @failed f => exact ⟨.error f, rfl, rfl, told_nil rfl⟩
  | @materialized t told ht =>
    refine ⟨.ok t, ?_, ?_, splitTable_divides t d.targets⟩
    · have hquiet := requests_of_isReport (isReport_of_emit ht)
      exact congrArg (_ :: ·) hquiet
    · have htold := told_emit ht
      exact htold

/-- **Splitting the first rows loses nothing.**  A split asks the frame for its first rows, as many
as the limit says, and asks for nothing else; the frame may answer anything.  The dataset is the
same afterwards.  A failure of the frame is handed on, and nobody is told of anything.  Of a table
the observer is told once, with its height and width and the limit; then all of it is handed out, in
one piece or with the label column taken out of its place among different names, and it is a breach
if there is no label column. -/
theorem split_loses_nothing (d : Dataset F) :
    (∀ rows, ∃ said result, Runs (split d) said (result, d) ∧
      requests said = [⟨.firstRows d.frame d.options.rowLimit, rows⟩]) ∧
    ∀ {said : List (Exchange F)} {result : Except Failure Split} {d' : Dataset F},
      Runs (split d) said (result, d') → d' = d ∧
        ∃ rows, requests said = [⟨.firstRows d.frame d.options.rowLimit, rows⟩] ∧
          SplitsInto d said result rows := by
  constructor
  · intro rows
    obtain ⟨said, result, hcourse, hasked⟩ := exists_splitCourse d rows
    refine ⟨said, result, runs_split.mpr ⟨hcourse, rfl⟩, ?_⟩
    obtain ⟨rows', honly, -⟩ := hcourse.splitsInto
    have hmem : ⟨.firstRows d.frame d.options.rowLimit, rows⟩ ∈ requests said :=
      List.mem_filter.mpr ⟨hasked, rfl⟩
    rw [honly] at hmem ⊢
    rw [List.mem_singleton.mp hmem]
  · intro said result d' h
    obtain ⟨hcourse, rfl⟩ := runs_split.mp h
    exact ⟨rfl, hcourse.splitsInto⟩

/-- A dataset that wants one row and has its label column `y`. -/
def oneRow : Dataset Unit :=
  fresh () (.table (.tableName "t")) ⟨some "y", none, none⟩
    { DatasetOptions.standard with rowLimit := 1, observer := some (.recorder "log") }

/-- Two rows, with the label column between two others. -/
def twoRows : Table :=
  ⟨[("a", .i64), ("y", .bool), ("b", .str)],
    [[.int 1, .bool true, .text "u"], [.int 2, .null, .text "v"]]⟩

/-- What is said when the frame answers with two rows. -/
def twoRowsSaid : List (Exchange Unit) :=
  [⟨.firstRows () 1, .ok twoRows⟩, ⟨.note (.rowsMaterialized oneRow.name 2 1), ()⟩,
    ⟨.deliver "log" oneRow.context (.materialized 2 3 1), ()⟩]

theorem splits_two_rows :
    Runs (split oneRow) twoRowsSaid (splitTable (some "y") twoRows, oneRow) ∧
      twoRows.names.Nodup ∧ oneRow.Told [.materialized 2 3 1] twoRowsSaid ∧
      ∃ s label, splitTable (some "y") twoRows = .ok s ∧ label.name = "y" ∧
        TakesOut twoRows 1 label s := by
  have hruns : Runs (split oneRow) twoRowsSaid (splitTable (some "y") twoRows, oneRow) :=
    runs_split.mpr ⟨.materialized (runs_single.mpr rfl), rfl⟩
  have hnames : twoRows.names.Nodup := by decide
  obtain ⟨-, rows, hasked, hsplit⟩ := (split_loses_nothing oneRow).2 hruns
  -- The one request of the course is the one with the two rows.
  obtain rfl : Except.ok twoRows = rows := by
    cases List.singleton_inj.mp hasked
    rfl
  exact ⟨hruns, hnames, hsplit.1, hsplit.2.1 hnames 1 rfl⟩

end Dataset
end Lineage
