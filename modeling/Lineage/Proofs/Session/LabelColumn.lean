import Lineage.Proofs.Schema.Inference
import Lineage.Proofs.Session.Standing
import Lineage.Proofs.Table.Columns
import Mathlib.Data.List.InsertIdx
/-
  The label column stays.

  The columns of a dataset's frame are told in three places: when the dataset is made, for its label
  column; when its schema is worked out; and when its first rows are collected and split.  Over a
  table in memory they are the same columns, whatever the steps are, and at any time
  (`label_column_stays`).  So the label column that was found when the dataset was made is found
  again when the rows are split, and the breach of a lost label column never comes up.

  A table is split at a column by its place.  The inputs are the other columns, in their order, so
  the column goes back to its place among them (`Dataset.restored_of_splitTable`).

  A schema may have been worked out at some earlier time.  That it names the columns is kept along
  all steps of a session (`Remembers`): the views of the dataset remember nothing else, and the
  other steps spare it.
-/

namespace Lineage

/-! ## Splitting -/

/-- The columns of a split table, with the label column put back at a place. -/
def Split.restored (place : Nat) (s : Split) : FrameSchema :=
  match s.outputs with
  | none => s.inputs.columns
  | some label => s.inputs.columns.insertIdx place (label.name, label.dtype)

/-- The place of the label column among some columns. -/
def labelPlace (columns : FrameSchema) (targets : Option String) : Nat :=
  (targets.bind (Table.indexOf? columns)).getD 0

/-- **A table is split at a label column that it has**, and that can be put back. -/
theorem Dataset.restored_of_splitTable {targets : Option String} {t : Table}
    (h : ∀ target ∈ targets, t.columns.any (·.1 == target) = true) :
    ∃ s, splitTable targets t = .ok s ∧ s.outputs.map Series.name = targets ∧
      s.restored (labelPlace t.columns targets) = t.columns := by
  cases targets with
  | none => exact ⟨⟨t, none⟩, rfl, rfl, rfl⟩
  | some target =>
    obtain ⟨i, d, hindex, hlookup, hget⟩ := exists_place (h target rfl)
    refine ⟨⟨t.dropColumn i, some ⟨target, d, t.cells i⟩⟩, ?_, rfl, ?_⟩
    · simp only [splitTable, hindex, hlookup]
    · obtain ⟨hlt, helem⟩ := List.getElem?_eq_some_iff.mp hget
      have hplace : labelPlace t.columns (some target) = i := by
        simp only [labelPlace, Option.bind_some, hindex, Option.getD_some]
      rw [hplace]
      show (t.columns.eraseIdx i).insertIdx i (target, d) = t.columns
      rw [← helem, List.insertIdx_eraseIdx_getElem hlt]

namespace Session

open Dialogue (Runs runs_ask_bind runs_pure)

/-! ## Frames over tables in memory -/

variable {f : Frame} {columns : Except Failure FrameSchema} {rows : Nat → Except Failure Table}
  {d e : Dataset Frame} {n : String} {s t : State}

/-- A frame that has the same columns and first rows whenever it is asked for them.  Rows are
refused by the engine alone, and otherwise they have those columns. -/
structure Steady (f : Frame) (columns : Except Failure FrameSchema)
    (rows : Nat → Except Failure Table) : Prop where
  told : ∀ s : State, (s.run (Dialogue.columns f)).1 = columns
  given : ∀ (n : Nat) (s : State), (s.run (Dialogue.firstRows f n)).1 = rows n
  engine : ∀ n, EngineOnly (rows n)
  fits : ∀ n t, rows n = .ok t → columns = .ok t.columns

theorem steady_of_inMemory (h : InMemory f) : ∃ columns rows, Steady f columns rows := by
  obtain ⟨i, body⟩ := f
  obtain ⟨table, steps, rfl⟩ := h
  refine ⟨Plan.schema (.ofTable table) ⟨.memory table, steps⟩,
    Plan.head .empty (.ofTable table) ⟨.memory table, steps⟩, fun _ => rfl, fun _ _ => rfl, ?_, ?_⟩
  · exact Plan.head_engineOnly .empty table steps
  · intro n t ht
    exact Plan.columns_of_head ht

theorem Steady.of_columns (h : Steady f columns rows) {a : Except Failure FrameSchema}
    (ha : Answered ⟨.columns f, a⟩) : columns = a := by
  obtain ⟨s, hs⟩ := ha
  exact (h.told s).symm.trans hs

theorem Steady.of_firstRows (h : Steady f columns rows) {k : Nat} {a : Except Failure Table}
    (ha : Answered ⟨.firstRows f k, a⟩) : rows k = a := by
  obtain ⟨s, hs⟩ := ha
  exact (h.given k s).symm.trans hs

/-! ## The label column is checked -/

/-- The label column, if there is one, is among the columns. -/
def HasLabel (targets : Option String) (columns : Except Failure FrameSchema) : Prop :=
  ∀ target ∈ targets, ∃ cs, columns = .ok cs ∧ cs.any (·.1 == target) = true

/-- A dataset that could be made over a frame has been told of its label column by the frame. -/
theorem checked_of_make {source : Source} {labels : Labels} {options : DatasetOptions}
    {said : List (Exchange Frame)} (h : Runs (Dataset.make f source labels options) said (.ok d)) :
    ∀ target ∈ labels.targets, ∃ cs, (⟨.columns f, .ok cs⟩ : Exchange Frame) ∈ said ∧
      cs.any (·.1 == target) = true := by
  intro target ht
  rw [Dataset.make, Option.mem_def.mp ht] at h
  obtain ⟨reply, rest, rfl, hreply⟩ := runs_ask_bind.mp h
  cases reply with
  | error e => cases (runs_pure.mp hreply).2
  | ok cs =>
    by_cases hc : cs.any (·.1 == target) = true
    · exact ⟨cs, List.mem_cons_self, hc⟩
    · simp only [if_neg hc] at hreply
      cases (runs_pure.mp hreply).2

theorem hasLabel_of_make {recipe : Recipe} (h : s.perform (.make n recipe) = (.summary d, t))
    (hf : Steady d.frame columns rows) : HasLabel d.targets columns := by
  obtain ⟨-, f, source, labels, options, said, hruns, hanswered, -⟩ := ends_of_make h
  obtain ⟨rfl, -⟩ := Dataset.fresh_of_make hruns
  intro target ht
  obtain ⟨cs, hmem, hany⟩ := checked_of_make hruns target ht
  exact ⟨cs, hf.of_columns (hanswered _ hmem), hany⟩

/-! ## What is remembered -/

/-- The same dataset later, with a schema at most that names the columns. -/
structure Remembers (columns : Except Failure FrameSchema) (d e : Dataset Frame) : Prop where
  same : d.SameAs e
  schema : d.options.inferrer = .standard → ∀ sch, e.knownSchema = some (some sch) →
    ∃ cs, columns = .ok cs ∧ sch.names = cs.map Prod.fst

/-- A dataset that has just been made remembers no schema at all. -/
theorem remembers_of_make {recipe : Recipe} (h : s.perform (.make n recipe) = (.summary d, t)) :
    Remembers columns d d := by
  obtain ⟨-, f, source, labels, options, said, hruns, -, -⟩ := ends_of_make h
  obtain ⟨rfl, -⟩ := Dataset.fresh_of_make hruns
  exact ⟨.refl _, fun _ _ hsch => nomatch hsch⟩

/-- What makes no difference to the schema makes none here. -/
theorem Remembers.of_same (h : Remembers columns d e) {e' : Dataset Frame} (he : e.SameAs e')
    (hschema : e'.knownSchema = e.knownSchema) : Remembers columns d e' :=
  ⟨h.same.trans he, fun hstandard sch hsch => h.schema hstandard sch (hschema ▸ hsch)⟩

theorem digestCourse_schema {e' : Dataset Frame} {said : List (Exchange Frame)}
    {r : Except Failure String} (h : Dataset.DigestCourse e said r e') :
    e'.knownSchema = e.knownSchema := by
  cases h with
  | known _ => rfl
  | failed _ => rfl
  | computed _ _ _ => rfl

/-- A schema of the standard kind is inferred from the columns that the frame tells. -/
theorem columns_of_inferred {said : List (Exchange Frame)} {outcome : Except Failure Schema}
    (h : Dataset.InferredCourse e said outcome) (hstandard : e.options.inferrer = .standard)
    {sch : Schema} (hsch : outcome = .ok sch) :
    ∃ cs, (⟨.columns e.frame, .ok cs⟩ : Exchange Frame) ∈ said ∧ Schema.infer cs = .ok sch := by
  cases h with
  | failed => cases hsch
  | standard _ => exact ⟨_, List.mem_cons_self, hsch⟩
  | external hinferrer =>
    rw [hstandard] at hinferrer
    cases hinferrer

/-- The schema that is worked out names the columns. -/
theorem Remembers.schemaCourse (h : Remembers columns d e) (hf : Steady d.frame columns rows)
    {e' : Dataset Frame} {said : List (Exchange Frame)} {r : Option Schema}
    (hcourse : Dataset.SchemaCourse e said r e') (hanswered : ∀ x ∈ said, Answered x) :
    Remembers columns d e' := by
  refine ⟨h.same.trans hcourse.sameAs, ?_⟩
  intro hstandard sch hsch
  cases hcourse with
  | known hk => exact h.schema hstandard sch hsch
  | degraded _ _ _ => cases hsch
  | inferred hk hi =>
    have hinferrer : e.options.inferrer = .standard := by rw [h.same.options, hstandard]
    obtain ⟨cs, hmem, hinfer⟩ := columns_of_inferred hi hinferrer rfl
    rw [h.same.frame] at hmem
    rw [Option.some.inj (Option.some.inj hsch)] at hinfer
    have hnames := Schema.names_of_describes (Schema.infer_eq_ok_iff.mp hinfer)
    exact ⟨cs, hf.of_columns (hanswered _ hmem), hnames⟩

theorem Remembers.descriptorCourse (h : Remembers columns d e) (hf : Steady d.frame columns rows)
    {e' : Dataset Frame} {said : List (Exchange Frame)} {r : Except Failure Descriptor}
    (hcourse : Dataset.DescriptorCourse e said r e') (hanswered : ∀ x ∈ said, Answered x) :
    Remembers columns d e' := by
  -- The digest comes first, and leaves the schema as it is.
  cases hcourse with
  | refused hdigest => exact h.of_same hdigest.sameAs (digestCourse_schema hdigest)
  | decided hdigest hschema _ =>
    refine (h.of_same hdigest.sameAs (digestCourse_schema hdigest)).schemaCourse hf hschema ?_
    intro x hx
    exact hanswered x (List.mem_append_right _ (List.mem_append_left _ hx))

/-! ## The steps of a session -/

/-- A dataset stands under its name as it was made, but for what it remembers; and a schema that it
remembers names the columns. -/
def Holds (n : String) (columns : Except Failure FrameSchema) (d : Dataset Frame) (s : State) :
    Prop :=
  ∃ e, Stands n e s ∧ Remembers columns d e

theorem Holds.spared (h : Holds n columns d s) (hst : Spares n s t) : Holds n columns d t := by
  obtain ⟨e, hstands, hremembers⟩ := h
  exact ⟨e, hstands.spared hst, hremembers⟩

/-- A view is taken, and ends in a dataset that remembers no other schema. -/
theorem look_holds {α : Type} {v : View Frame α} (f : α → Reply) (hs : Stands n e s)
    (he : Remembers columns d e)
    (hremembers : ∀ said a e', Runs (v e) said (a, e') → (∀ x ∈ said, Answered x) →
      Remembers columns d e') : Holds n columns d (s.look n e v f).2 := by
  obtain ⟨said, hruns, hanswered⟩ := runs_answered (v e) s
  have hafter := hremembers said _ _ hruns hanswered
  exact ⟨(s.run (v e)).1.2, hs.replaced (he.same.symm.trans hafter.same) (run_spares (v e) s),
    hafter⟩

/-- **A view of the dataset leaves it as it was made**, and a schema that it remembers names the
columns. -/
theorem Holds.perform_view (h : Holds n columns d s) (hf : Steady d.frame columns rows)
    (what : Request) : Holds n columns d (s.perform (.view n what)).2 := by
  obtain ⟨e, hs, he⟩ := h
  show Holds n columns d (s.withDataset n _).2
  rw [hs.withDataset]
  cases what with
  | source => exact ⟨e, hs, he⟩
  | describe => exact ⟨e, hs, he⟩
  | digest =>
    refine look_holds _ hs he fun _ _ _ h _ => ?_
    have hcourse := Dataset.runs_digest.mp h
    exact he.of_same hcourse.sameAs (digestCourse_schema hcourse)
  | profile =>
    refine look_holds _ hs he fun _ _ _ h _ => ?_
    rw [(Dataset.runs_profile.mp h).2]
    exact he
  | split =>
    refine look_holds _ hs he fun _ _ _ h _ => ?_
    rw [(Dataset.runs_split.mp h).2]
    exact he
  | schema =>
    exact look_holds _ hs he fun _ _ _ h => he.schemaCourse hf (Dataset.runs_schema.mp h)
  | descriptor =>
    exact look_holds _ hs he fun _ _ _ h => he.descriptorCourse hf (Dataset.runs_descriptor.mp h)
  | descriptorText =>
    refine look_holds _ hs he fun _ _ _ h => ?_
    obtain ⟨x, hx, -⟩ := Dataset.runs_descriptorText.mp h
    exact he.descriptorCourse hf hx

/-- The session after some steps. -/
def State.after (s : State) (xs : List Step) : State := xs.foldl (fun s x => (s.step x).2.2) s

/-- **No step of a session changes that**, unless another dataset takes the name. -/
theorem Holds.after (hf : Steady d.frame columns rows) : ∀ {xs : List Step} {s : State},
    Holds n columns d s → (∀ x ∈ xs, x.makes n = false) → Holds n columns d (s.after xs)
  | [], _, h, _ => h
  | x :: xs, s, h, hmakes => by
    have hrest : ∀ y ∈ xs, y.makes n = false := fun y hy => hmakes y (List.mem_cons_of_mem x hy)
    show Holds n columns d (State.after (s.step x).2.2 xs)
    refine Holds.after hf ?_ hrest
    cases hviews : x.views n with
    | false => exact h.spared (step_spares s hviews (hmakes x List.mem_cons_self))
    | true =>
      obtain ⟨what, rfl⟩ := eq_view_of_views hviews
      exact (h.spared (cleared_spares s)).perform_view hf what

/-! ## Rows and schemas -/

/-- What a dataset answers in a session when it is asked for its rows or its schema.  Either its
rows are refused by the engine, with the failure of the frame; or they are split, and with the label
column back at its place they have the columns of the frame.  A schema by the table of types names
the columns of the frame. -/
structure NamesAgree (n : String) (d : Dataset Frame) (s : State) : Prop where
  split : (∃ f, (s.perform (.view n .split)).1 = .failure f ∧
      (s.run (Dialogue.firstRows d.frame d.options.rowLimit)).1 = .error f ∧ f.IsEngine) ∨
    ∃ parts cs, (s.perform (.view n .split)).1 = .split parts ∧
      (s.run (Dialogue.columns d.frame)).1 = .ok cs ∧ parts.outputs.map Series.name = d.targets ∧
      parts.restored (labelPlace cs d.targets) = cs
  schema : (s.perform (.view n .schema)).1 = .schema none ∨
    ∃ sch, (s.perform (.view n .schema)).1 = .schema (some sch) ∧
      (d.options.inferrer = .standard → ∃ cs, (s.run (Dialogue.columns d.frame)).1 = .ok cs ∧
        sch.names = cs.map Prod.fst)

/-- Rows are split at the label column wherever the frame gives any. -/
theorem Remembers.splitCourse (h : Remembers columns d e) (hf : Steady d.frame columns rows)
    (hlabel : HasLabel d.targets columns) {said : List (Exchange Frame)}
    {result : Except Failure Split} (hcourse : Dataset.SplitCourse e said result)
    (hanswered : ∀ x ∈ said, Answered x) :
    (∃ f, result = .error f ∧ rows d.options.rowLimit = .error f ∧ f.IsEngine) ∨
      ∃ parts cs, result = .ok parts ∧ columns = .ok cs ∧
        parts.outputs.map Series.name = d.targets ∧
        parts.restored (labelPlace cs d.targets) = cs := by
  cases hcourse with
  | @failed f =>
    have hrows := hanswered _ List.mem_cons_self
    rw [h.same.frame, h.same.options] at hrows
    exact .inl ⟨f, rfl, hf.of_firstRows hrows, hf.engine _ f (hf.of_firstRows hrows)⟩
  | @materialized table told ht =>
    have hrows := hanswered _ List.mem_cons_self
    rw [h.same.frame, h.same.options] at hrows
    have hcolumns := hf.fits _ table (hf.of_firstRows hrows)
    have hthere : ∀ target ∈ d.targets, table.columns.any (·.1 == target) = true := by
      intro target htarget
      obtain ⟨cs, hcs, hany⟩ := hlabel target htarget
      rw [Except.ok.inj (hcolumns.symm.trans hcs)]
      exact hany
    obtain ⟨parts, hparts, hname, hrestored⟩ := Dataset.restored_of_splitTable hthere
    rw [h.same.targets, hparts]
    exact .inr ⟨parts, table.columns, rfl, hcolumns, hname, hrestored⟩

theorem Holds.namesAgree (h : Holds n columns d s) (hf : Steady d.frame columns rows)
    (hlabel : HasLabel d.targets columns) : NamesAgree n d s := by
  obtain ⟨e, hs, he⟩ := h
  constructor
  · have hreply : (s.perform (.view n .split)).1 = reply .split (s.run e.split).1.1 := by
      show (s.withDataset n _).1 = _
      rw [hs.withDataset]
      rfl
    obtain ⟨said, hruns, hanswered⟩ := runs_answered e.split s
    obtain ⟨hcourse, -⟩ := Dataset.runs_split.mp hruns
    rw [hreply, hf.told, hf.given]
    rcases he.splitCourse hf hlabel hcourse hanswered with
      ⟨f, hresult, hrows⟩ | ⟨parts, cs, hresult, hparts⟩
    · exact .inl ⟨f, by rw [hresult]; rfl, hrows⟩
    · exact .inr ⟨parts, cs, by rw [hresult]; rfl, hparts⟩
  · have hreply : (s.perform (.view n .schema)).1 = .schema (s.run e.schema).1.1 := by
      show (s.withDataset n _).1 = _
      rw [hs.withDataset]
      rfl
    obtain ⟨said, hruns, hanswered⟩ := runs_answered e.schema s
    have hcourse := Dataset.runs_schema.mp hruns
    have hafter := he.schemaCourse hf hcourse hanswered
    rw [hreply, hf.told]
    cases hresult : (s.run e.schema).1.1 with
    | none => exact .inl rfl
    | some sch =>
      refine .inr ⟨sch, rfl, fun hstandard => hafter.schema hstandard sch ?_⟩
      rw [hcourse.remembers.1, hresult]

/-- **The label column stays.**  Let a dataset be made in a session, in any of the ways there are,
over a table in memory with any steps, with any label column and any limit of rows.  At any time
later its rows are refused by the engine alone, with the failure of the frame, and never for a lost
label column; and if they are split, then they have the columns of the frame in their order, once
the label column is put back at its place.  A schema by the table of types names these columns, in
the same order. -/
theorem label_column_stays {recipe : Recipe} {happened : List Happening}
    (hmade : s.step (.make n recipe) = (.summary d, happened, t)) (hmemory : InMemory d.frame)
    {xs : List Step} (hxs : ∀ x ∈ xs, x.makes n = false) : NamesAgree n d (t.after xs) := by
  obtain ⟨columns, rows, hf⟩ := steady_of_inMemory hmemory
  have hperform := perform_of_step hmade
  have hholds : Holds n columns d t :=
    ⟨d, stands_of_make hmemory hperform, remembers_of_make hperform⟩
  exact (hholds.after hf hxs).namesAgree hf (hasLabel_of_make hperform hf)

/-- A frame without rows, in which the label column `x` has been moved and then replaced. -/
def moved : State :=
  (State.start.perform (.define "f" [⟨"a", .i64, [.int 1, .int 2]⟩, ⟨"x", .i64, [.int 3, .int 4]⟩]
    [.keep "a" .gt (.int 5), .project ["x", "a"], .withNull "x", .limit 1])).2

/-- A dataset over that frame. -/
def overMoved : Recipe := .over "f" (.table (.path "f.csv")) ⟨some "x", none, none⟩ none

theorem moved_label_stays :
    ∃ d happened t, moved.step (.make "d" overMoved) = (.summary d, happened, t) ∧
      InMemory d.frame ∧ d.targets = some "x" ∧
      NamesAgree "d" d (t.after [.view "d" .schema, .register "t" "f", .view "d" .descriptor]) := by
  obtain ⟨d, happened, t, hmade, hmemory, htargets⟩ : ∃ d happened t,
      moved.step (.make "d" overMoved) = (.summary d, happened, t) ∧ InMemory d.frame ∧
        d.targets = some "x" :=
    ⟨_, _, _, rfl, ⟨_, _, rfl⟩, rfl⟩
  refine ⟨d, happened, t, hmade, hmemory, htargets, label_column_stays hmade hmemory ?_⟩
  simp [Step.makes]

end Session
end Lineage
