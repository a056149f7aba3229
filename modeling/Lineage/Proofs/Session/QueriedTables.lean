import Lineage.Proofs.Catalog.Visible
import Lineage.Proofs.Session.LabelColumn
import Lineage.Proofs.Session.PinnedVersion
import Lineage.Proofs.Sql.WholeTable
/-
  Queries see what is loaded.

  The query for a whole table comes to what the table comes to when it is loaded.  Both find the
  plan that was registered or committed last (`Catalog.Reached.showsLoaded`).  Loading gives a frame
  over that plan.  The query looks at it first, so that its columns are known, and gives a frame
  over the plan with all columns selected; looking changes nothing that the plan shows
  (`sameSight_lookAt`).  So the replies are the same wherever selecting all columns makes no
  difference (`sameReply_of_query`); it makes none for tables in memory, and none for files as they
  are.

  A frame holds its plan.  It is collected from files and from what has been seen of them, and these
  stay as they are while frames are made and put into the catalog (`sameFiles_after`).
-/

namespace Lineage

namespace Catalog

variable {c : Catalog Plan} {n w : String}

/-- The query for a whole table finds the plan that is shown under its name. -/
theorem query_wholeTable (c : Catalog Plan) (h : Sql.Writes n w) :
    c.query (Sql.wholeTable w) =
      match c.visible.lookup n with
      | none => .error (Sql.misread ("the table is not known: " ++ n))
      | some p => .ok ⟨.wholeTable n, p⟩ := by
  unfold query
  simp only [Sql.ofText_eq_wholeTable h]
  rfl

/-- It selects all columns. -/
theorem Query.plan_wholeTable (n : String) (p : Plan) (seen : Look) :
    (Query.mk (.wholeTable n) p).plan seen =
      (p.schema seen).map fun columns => p.andThen (.whole columns) := by
  unfold Query.plan
  cases p.schema seen with
  | error f => rfl
  | ok columns => exact Sql.Statement.plan_wholeTable n _ columns p

end Catalog

namespace Session

variable {s t u : State} {p : Plan} {n w : String}

/-! ## Results in a session -/

/-- What a plan comes to in a session. -/
def State.resultOf (s : State) (p : Plan) : Except Failure Table :=
  (shown p s.files s.looks).bind fun seen => p.collect s.files seen

/-- Selecting all columns of a plan makes no difference in a session. -/
def State.SelectsWhole (s : State) (p : Plan) : Prop :=
  ∀ seen, shown p s.files s.looks = .ok seen → p.SelectsWhole s.files seen

/-- The reply when something is loaded and collected at once. -/
def State.fetched (s : State) (place : Place) : Reply := (s.perform (.load place none false)).1

/-- Two replies are those of results that are the same. -/
def SameReply (a b : Reply) : Prop :=
  ∃ x y, SameResult x y ∧ a = reply .table x ∧ b = reply .table y

/-- A frame is collected to what its plan comes to. -/
theorem collect_plan (s : State) (i : Nat) (p : Plan) :
    (s.collect ⟨i, .plan p⟩).1 = reply .table (s.resultOf p) :=
  congrArg (reply Reply.table) (askPlan_fst p (fun files seen => p.collect files seen) s)

theorem SameSight.resultOf (h : SameSight p s t) : t.resultOf p = s.resultOf p := by
  unfold State.resultOf
  rw [h.shown, h.files]

/-- What is loaded is collected to what its plan comes to. -/
theorem fetched_of_asFrame (place : Place) {r : Except Failure Plan}
    (h : s.run (State.loading place) = asFrame r t) :
    s.fetched place = reply .table (r.bind fun p => t.resultOf p) := by
  show (s.load (State.loading place) none false).1 = _
  unfold State.load
  rw [h]
  cases r with
  | error e => rfl
  | ok p => exact collect_plan { t with next := t.next + 1 } t.next p

/-! ## Queries for whole tables -/

section Unscripted

variable (hs : s.overrides = [])

include hs

theorem run_runQuery (text : String) :
    s.run (Dialogue.runQuery text) =
      runQuery text (s.record (.catalogAsked .runQuery text none)) := by
  simp only [State.run, Dialogue.runQuery, Dialogue.run, answer, askCatalog, State.record, hs,
    List.lookup_nil]

/-- What is loaded under a name comes to the result of its plan. -/
theorem fetched_table (n : String) :
    s.fetched (.table n none) =
      reply .table ((s.catalog.load n none).bind fun p => s.resultOf p) := by
  have hreply := fetched_of_asFrame (.table n none) (run_loadTable hs n none)
  exact hreply

/-- The query for a whole table fails if no table is shown under the name. -/
theorem fetched_unknown (hw : Sql.Writes n w) (h : s.catalog.visible.lookup n = none) :
    s.fetched (.query (Sql.wholeTable w)) =
      .failure (Sql.misread ("the table is not known: " ++ n)) := by
  have hquery := Catalog.query_wholeTable s.catalog hw
  rw [h] at hquery
  have hrun : s.run (Dialogue.runQuery (Sql.wholeTable w)) =
      asFrame (.error (Sql.misread ("the table is not known: " ++ n)))
        (s.record (.catalogAsked .runQuery (Sql.wholeTable w) none)) := by
    rw [run_runQuery hs, runQuery]
    simp only [State.record, hquery]
    rfl
  exact fetched_of_asFrame (.query (Sql.wholeTable w)) hrun

/-- It gives a frame over the plan that is shown, with all columns selected. -/
theorem run_wholeTable (hw : Sql.Writes n w) (h : s.catalog.visible.lookup n = some p) :
    ∃ t, SameSight p s t ∧ s.run (Dialogue.runQuery (Sql.wholeTable w)) =
      asFrame ((shown p s.files s.looks).bind fun seen =>
        (p.schema seen).map fun columns => p.andThen (.whole columns)) t := by
  have hquery := Catalog.query_wholeTable s.catalog hw
  rw [h] at hquery
  let asked := s.record (.catalogAsked .runQuery (Sql.wholeTable w) none)
  let answered := askPlan p (fun _ seen => Catalog.Query.plan ⟨.wholeTable n, p⟩ seen) asked
  have hrun : s.run (Dialogue.runQuery (Sql.wholeTable w)) = asFrame answered.1 answered.2 := by
    rw [run_runQuery hs, runQuery]
    simp only [State.record, hquery]
    rfl
  have hsight : SameSight p asked answered.2 := by
    show SameSight p asked (askPlan p _ asked).2
    rw [askPlan_snd]
    exact sameSight_lookAt p asked
  have hanswered : answered.1 = (shown p s.files s.looks).bind fun seen =>
      (p.schema seen).map fun columns => p.andThen (.whole columns) := by
    show (askPlan p _ asked).1 = _
    rw [askPlan_fst]
    simp only [Catalog.Query.plan_wholeTable]
    rfl
  exact ⟨answered.2, ⟨hsight.files, hsight.shown⟩, hrun.trans (by rw [hanswered])⟩

/-- So it comes to the result of that. -/
theorem fetched_query (hw : Sql.Writes n w) (h : s.catalog.visible.lookup n = some p) :
    s.fetched (.query (Sql.wholeTable w)) =
      reply .table ((shown p s.files s.looks).bind fun seen => (p.schema seen).bind fun columns =>
        (p.andThen (.whole columns)).collect s.files seen) := by
  obtain ⟨t, hsight, hrun⟩ := run_wholeTable hs hw h
  -- A plan with a further step shows what it shows without it.
  have hresult : ∀ x, t.resultOf (p.andThen x) =
      (shown p s.files s.looks).bind fun seen => (p.andThen x).collect s.files seen := by
    intro x
    have hsame : SameSight (p.andThen x) s t := ⟨hsight.files, hsight.shown⟩
    exact hsame.resultOf
  rw [fetched_of_asFrame (.query (Sql.wholeTable w)) hrun]
  refine congrArg _ ?_
  cases hshown : shown p s.files s.looks with
  | error f => rfl
  | ok seen =>
    show ((p.schema seen).map _).bind _ = (p.schema seen).bind _
    cases p.schema seen with
    | error f => rfl
    | ok columns =>
      refine (hresult (.whole columns)).trans ?_
      rw [hshown]
      rfl

end Unscripted

/-- **The query for a whole table comes to the result of its plan**, if selecting all columns makes
no difference. -/
theorem sameReply_of_query (hs : s.overrides = []) (hw : Sql.Writes n w)
    (h : s.catalog.visible.lookup n = some p) (hwhole : s.SelectsWhole p) :
    SameReply (s.fetched (.query (Sql.wholeTable w))) (reply .table (s.resultOf p)) := by
  refine ⟨_, _, ?_, fetched_query hs hw h, rfl⟩
  unfold State.resultOf
  cases hshown : shown p s.files s.looks with
  | error f => exact .failure f
  | ok seen =>
    have hselects := hwhole seen hshown
    show SameResult ((p.schema seen).bind _) (p.collect s.files seen)
    cases hschema : p.schema seen with
    | error f =>
      have hcollect : p.collect s.files seen = .error f := by
        unfold Plan.collect
        rw [hschema]
        rfl
      rw [hcollect]
      exact .failure f
    | ok columns => exact hselects columns hschema

theorem State.selectsWhole_of_memory {table : Table} {steps : List Lineage.Step}
    (hnames : table.names.Nodup)
    (hne : Plan.schema (.ofTable table) ⟨.memory table, steps⟩ ≠ .ok []) (s : State) :
    s.SelectsWhole ⟨.memory table, steps⟩ := by
  intro seen hseen
  obtain rfl := Except.ok.inj hseen
  exact Plan.selectsWhole_of_memory hnames hne

theorem State.selectsWhole_of_scan {format : FileFormat} {path : String} {scan : Nat}
    (h : ∀ seen, shown ⟨.files format path scan, []⟩ s.files s.looks = .ok seen →
      (seen.columns.map Prod.fst).Nodup ∧ seen.columns ≠ []) :
    s.SelectsWhole ⟨.files format path scan, []⟩ := by
  intro seen hseen
  obtain ⟨hnames, hne⟩ := h seen hseen
  exact Plan.selectsWhole_of_scan hnames hne format path scan

/-! ## While the catalog is filled -/

/-- The same files, of which the same has been seen. -/
structure SameFiles (s t : State) : Prop where
  files : t.files = s.files
  looks : t.looks = s.looks

namespace SameFiles

theorem refl (s : State) : SameFiles s s := ⟨rfl, rfl⟩

theorem trans (h : SameFiles s t) (k : SameFiles t u) : SameFiles s u :=
  ⟨k.files.trans h.files, k.looks.trans h.looks⟩

/-- Every plan shows the same. -/
theorem sameSight (h : SameFiles s t) (p : Plan) : SameSight p s t :=
  ⟨h.files, by rw [h.files, h.looks]⟩

/-- Every frame is collected to the same. -/
theorem collect (h : SameFiles s t) (f : Frame) : (t.collect f).1 = (s.collect f).1 := by
  obtain ⟨i, p | id⟩ := f
  · exact (h.sameSight p).collect i i
  · rfl

end SameFiles

/-- Frames are made, of columns or of other frames, or they are put into the catalog. -/
def Step.fillsCatalog : Step → Bool
  | .define _ _ _ | .derive _ _ _ | .register _ _ | .commit _ _ => true
  | _ => false

theorem withPlan_sameFiles {name : String} {use : Plan → Outcome}
    (h : ∀ p, SameFiles s (use p).2) : SameFiles s (s.withPlan name use).2 := by
  unfold State.withPlan State.withFrame
  cases s.frames.lookup name with
  | none => exact .refl s
  | some f =>
    obtain ⟨i, p | id⟩ := f
    · exact h p
    · exact .refl s

/-- **Filling the catalog leaves the files as they are.** -/
theorem perform_sameFiles (s : State) {x : Step} (h : x.fillsCatalog = true) :
    SameFiles s (s.perform x).2 := by
  cases x with
  | define name columns steps =>
    show SameFiles s (s.withTable columns _).2
    unfold State.withTable
    split
    · exact ⟨rfl, rfl⟩
    · exact .refl s
  | derive name base steps => exact withPlan_sameFiles fun p => ⟨rfl, rfl⟩
  | register table frame => exact withPlan_sameFiles fun p => ⟨rfl, rfl⟩
  | commit table frame =>
    refine withPlan_sameFiles fun p => ?_
    unfold State.commit
    split
    · exact ⟨rfl, rfl⟩
    · exact .refl s
  | _ => cases h

/-- So do several such steps. -/
theorem sameFiles_after : ∀ {xs : List Step} (s : State), (∀ x ∈ xs, x.fillsCatalog = true) →
    SameFiles s (s.after xs)
  | [], s, _ => .refl s
  | x :: xs, s, h => by
    have hperform := perform_sameFiles { s with happenings := [] } (h x List.mem_cons_self)
    have hstep : SameFiles s (s.step x).2.2 := ⟨hperform.files, hperform.looks⟩
    exact hstep.trans (sameFiles_after _ fun y hy => h y (List.mem_cons_of_mem x hy))

/-! ## Queries and loads -/

/-- What is shown under a name that is there is what is loaded. -/
theorem exists_loaded {c : Catalog Plan} (h : c.ShowsLoaded) (hn : n ∈ c.tableNames) :
    ∃ p, c.visible.lookup n = some p ∧ c.load n none = .ok p := by
  obtain ⟨p, hp⟩ := Option.ne_none_iff_exists'.mp
    (lookup_ne_none_iff.mpr (h.names.mem_iff.mpr hn))
  exact ⟨p, hp, eq_ok_of_toOption ((h.loaded n).symm.trans hp)⟩

theorem lookup_visible_eq_none {c : Catalog Plan} (h : c.ShowsLoaded) (hn : n ∉ c.tableNames) :
    c.visible.lookup n = none := by
  by_contra hsome
  exact hn (h.names.mem_iff.mp (lookup_ne_none_iff.mp hsome))

/-- **Queries see what is loaded.**  Let the catalog of a session be in a state that calls lead to,
with its entries in any order.

1. Queries are shown the names of the catalog and no others, each with the plan that is loaded for
   it; and the order of the entries makes no difference to the names and to what is loaded.
2. A table whose name is there can be loaded.  The query for the whole table, with the name between
   quotes or as it stands, comes to the same as loading it: the same failure, or tables with the
   same columns, values and rows.  This is under the assumption that the engine, asked for all
   columns of a plan, gives the result of the plan.
3. The query fails if the name is not there.
4. A frame that any query gave is collected to the same after frames have been made, registered and
   committed. -/
theorem queries_see_what_is_loaded {s : State} {calls : List (Catalog.Call Plan)}
    (hs : s.overrides = []) (hcatalog : Catalog.Reached calls s.catalog) :
    (s.catalog.ShowsLoaded ∧ s.catalog.tableNames = (Catalog.run calls).tableNames ∧
      ∀ n version, s.catalog.load n version = (Catalog.run calls).load n version) ∧
    (∀ {n w : String}, Sql.Writes n w → n ∈ s.catalog.tableNames →
      ∃ p, s.catalog.load n none = .ok p ∧ (s.SelectsWhole p →
        SameReply (s.fetched (.query (Sql.wholeTable w))) (s.fetched (.table n none)))) ∧
    (∀ {n w : String}, Sql.Writes n w → n ∉ s.catalog.tableNames →
      s.fetched (.query (Sql.wholeTable w)) =
        .failure (Sql.misread ("the table is not known: " ++ n))) ∧
    ∀ {text : String} {f : Frame} {t : State}, s.run (Dialogue.runQuery text) = (.ok f, t) →
      ∀ {xs : List Step}, (∀ x ∈ xs, x.fillsCatalog = true) →
        ((t.after xs).collect f).1 = (t.collect f).1 := by
  have hshows := hcatalog.showsLoaded
  refine ⟨⟨hshows, hcatalog.tableNames, hcatalog.load⟩, ?_, ?_, ?_⟩
  · intro n w hw hn
    obtain ⟨p, hshown, hload⟩ := exists_loaded hshows hn
    refine ⟨p, hload, fun hwhole => ?_⟩
    rw [fetched_table hs, hload]
    exact sameReply_of_query hs hw hshown hwhole
  · intro n w hw hn
    exact fetched_unknown hs hw (lookup_visible_eq_none hshows hn)
  · intro text f t _ xs hxs
    exact (sameFiles_after t hxs).collect f

/-- A table is registered, and another one is committed to twice. -/
def supplies : List (Catalog.Call Plan) :=
  [.commit "t" (numbers [1]), .register "last year" (numbers [5]), .commit "t" (numbers [2])]

/-- A session with these tables, whose entries come in the opposite order. -/
def stocked : State :=
  { State.start with catalog := ⟨(Catalog.run supplies).entries.reverse⟩ }

/-- A new frame, which is committed as the third version. -/
def restocking : List Step := [.define "g" [⟨"x", .i64, [.int 3]⟩] [], .commit "t" "g"]

theorem stocked_is_seen :
    stocked.overrides = [] ∧ Catalog.Reached supplies stocked.catalog ∧
      SameReply (stocked.fetched (.query (Sql.wholeTable (Sql.quotedName "last year"))))
        (stocked.fetched (.table "last year" none)) ∧
      SameReply (stocked.fetched (.query (Sql.wholeTable "t")))
        (stocked.fetched (.table "t" none)) ∧
      stocked.fetched (.query (Sql.wholeTable "u")) =
        .failure (Sql.misread ("the table is not known: " ++ "u")) ∧
      ∃ f t, stocked.run (Dialogue.runQuery (Sql.wholeTable "t")) = (.ok f, t) ∧
        ((t.after restocking).collect f).1 = (t.collect f).1 := by
  have hreached : Catalog.Reached supplies stocked.catalog := List.reverse_perm _
  obtain ⟨-, hknown, hunknown, hkept⟩ :=
    queries_see_what_is_loaded (s := stocked) rfl hreached
  have hwhole : ∀ cells, stocked.SelectsWhole (numbers cells) := by
    intro cells
    have hnames : (Table.mk [("x", .i64)] (cells.map fun n => [.int n])).names.Nodup :=
      List.pairwise_singleton _ _
    refine State.selectsWhole_of_memory hnames (fun h => ?_) stocked
    cases Except.ok.inj h
  have hyear : stocked.catalog.load "last year" none = .ok (numbers [5]) := rfl
  have hlatest : stocked.catalog.load "t" none = .ok (numbers [2]) := rfl
  have hquoted : Sql.Writes "last year" (Sql.quotedName "last year") := .quoted
  have ht : Sql.Writes "t" "t" := .bare ⟨'t', [], by simp, by decide, nofun⟩
  have hu : Sql.Writes "u" "u" := .bare ⟨'u', [], by simp, by decide, nofun⟩
  obtain ⟨p, hp, hyears⟩ := hknown hquoted (by decide +kernel)
  obtain ⟨q, hq, hlasts⟩ := hknown ht (by decide +kernel)
  obtain rfl := Except.ok.inj (hyear.symm.trans hp)
  obtain rfl := Except.ok.inj (hlatest.symm.trans hq)
  obtain ⟨t, -, hrun⟩ := run_wholeTable (s := stocked) rfl ht rfl
  have hrestocking : ∀ x ∈ restocking, x.fillsCatalog = true := by
    simp [restocking, Step.fillsCatalog]
  exact ⟨rfl, hreached, hyears (hwhole [5]), hlasts (hwhole [2]), hunknown hu (by decide +kernel),
    _, _, hrun, hkept hrun hrestocking⟩

end Session
end Lineage
