import Lineage.Dataset.Loading
import Lineage.Proofs.Dialogue.Course
/-
  Making a dataset.

  A dataset is made in one of three ways (`Made`): directly, by loading a version, or by wrapping a
  frame.  Whichever it is, there are some errands to the catalog at first, and then it is made over
  a frame (`Made.ends`).  So the dataset then remembers at most the digest that it was given
  (`Made.remembers`), and nothing has been said that has to do with digests or with observers
  (`Made.discreet`).
-/

namespace Lineage.Dataset

open Dialogue

variable {F : Type}

/-! ## Making -/

/-- The dataset has been made in these exchanges, with this digest or without one: directly, by
loading a version, or by wrapping a frame. -/
inductive Made (given : Option String) : List (Exchange F) → Dataset F → Prop
  | direct {frame : F} {source : Source} {labels : Labels} {options : DatasetOptions}
      {said : List (Exchange F)} {d : Dataset F}
      (h : Runs (make frame source labels options) said (.ok d)) (hg : labels.digest = given) :
    Made given said d
  | loaded {r : VersionedRequest} {options : DatasetOptions} {said : List (Exchange F)}
      {d : Dataset F} (h : Runs (loadVersioned r options) said (.ok d))
      (hg : r.labels.digest = given) : Made given said d
  | wrapped {frame : F} {r : FrameRequest} {options : DatasetOptions}
      {said : List (Exchange F)} {d : Dataset F}
      (h : Runs (fromFrame frame r options) said (.ok d)) (hg : r.labels.digest = given) :
    Made given said d

/-- A dataset that could be made over a frame is the fresh one.  The frame has been asked for its
columns if there is a label column, and otherwise nobody has been asked. -/
theorem fresh_of_make {frame : F} {source : Source} {labels : Labels}
    {options : DatasetOptions} {said : List (Exchange F)} {d : Dataset F}
    (h : Runs (make frame source labels options) said (.ok d)) :
    d = fresh frame source labels options ∧
      ∃ columns, said = labels.targets.toList.map fun _ => ⟨.columns frame, .ok columns⟩ := by
  rw [make] at h
  cases ht : labels.targets with
  | none =>
    simp only [ht] at h
    obtain ⟨rfl, hd⟩ := runs_pure.mp h
    exact ⟨Except.ok.inj hd, [], rfl⟩
  | some target =>
    simp only [ht] at h
    obtain ⟨reply, rest, rfl, hreply⟩ := runs_ask_bind.mp h
    cases reply with
    | error f => exact nomatch (runs_pure.mp hreply).2
    | ok columns =>
      by_cases hc : columns.any (·.1 == target) = true
      · simp only [if_pos hc] at hreply
        obtain ⟨rfl, hd⟩ := runs_pure.mp hreply
        exact ⟨Except.ok.inj hd, columns, rfl⟩
      · simp only [if_neg hc] at hreply
        exact nomatch (runs_pure.mp hreply).2

/-! ## Errands -/

/-- An errand on the way to a dataset: a question to the catalog, or the note that a version has
been loaded. -/
def Errand (x : Exchange F) : Prop :=
  match x.question with
  | .isVersionedTable _ | .isVersionedPath _ | .latestOfTable _ | .latestOfPath _
  | .loadTable _ _ | .loadPath _ _ | .note (.versionedLoaded _) => True
  | _ => False

theorem errands_nil : ∀ x ∈ ([] : List (Exchange F)), Errand x :=
  fun _ hx => absurd hx List.not_mem_nil

theorem errands_append {first second : List (Exchange F)} (h : ∀ x ∈ first, Errand x)
    (k : ∀ x ∈ second, Errand x) : ∀ x ∈ first ++ second, Errand x := by
  intro x hx
  rcases List.mem_append.mp hx with hx | hx
  · exact h x hx
  · exact k x hx

theorem errands_single {q : Question F} {r : q.Answer} {said : List (Exchange F)}
    (h : Runs (ask q .done) said r) (hq : Errand ⟨q, r⟩) : ∀ x ∈ said, Errand x := by
  rw [runs_single.mp h]
  exact List.forall_mem_singleton.mpr hq

theorem errands_isVersioned {place : VersionedLocation} {said : List (Exchange F)} {b : Bool}
    (h : Runs (place.isVersioned : Dialogue F Bool) said b) : ∀ x ∈ said, Errand x := by
  cases place with
  | path p => exact errands_single h trivial
  | tableName n => exact errands_single h trivial

theorem errands_pinned {place : VersionedLocation} {version : Option UInt64}
    {said : List (Exchange F)} {table : VersionedTable}
    (h : Runs (place.pinned version : Dialogue F VersionedTable) said table) :
    ∀ x ∈ said, Errand x := by
  cases version with
  | some v =>
    rw [(runs_pure.mp h).1]
    exact errands_nil
  | none =>
    obtain ⟨first, latest, second, rfl, hlatest, hend⟩ := runs_bind.mp h
    rw [(runs_pure.mp hend).1, List.append_nil]
    cases place with
    | path p => exact errands_single hlatest trivial
    | tableName n => exact errands_single hlatest trivial

theorem errands_load {table : VersionedTable} {said : List (Exchange F)} {r : Except Failure F}
    (h : Runs (Source.loadVersioned table) said r) : ∀ x ∈ said, Errand x := by
  obtain ⟨place, version⟩ := table
  cases place with
  | path p => exact errands_single h trivial
  | tableName n => exact errands_single h trivial

theorem errands_sourceOf {place : VersionedLocation} {version : Option UInt64}
    {said : List (Exchange F)} {r : Except Refusal Source}
    (h : Runs (sourceOf place version : Dialogue F (Except Refusal Source)) said r) :
    ∀ x ∈ said, Errand x := by
  unfold sourceOf at h
  obtain ⟨_, versioned, rest, rfl, hversioned, h⟩ := runs_bind.mp h
  refine errands_append (errands_isVersioned hversioned) ?_
  cases versioned with
  | true =>
    obtain ⟨_, table, rest, rfl, hpinned, h⟩ := runs_bind.mp h
    rw [(runs_pure.mp h).1, List.append_nil]
    exact errands_pinned hpinned
  | false =>
    cases version with
    | some v =>
      rw [(runs_pure.mp h).1]
      exact errands_nil
    | none =>
      rw [(runs_pure.mp h).1]
      exact errands_nil

/-! ## The end of it -/

/-- A version that is loaded is first looked up in the catalog, and then a dataset is made over
it. -/
theorem ends_of_loadVersioned {r : VersionedRequest} {options : DatasetOptions}
    {said : List (Exchange F)} {d : Dataset F}
    (h : Runs (loadVersioned r options) said (.ok d)) :
    ∃ errands last frame table, said = errands ++ last ∧ (∀ x ∈ errands, Errand x) ∧
      Runs (make frame (.versioned table)
        { r.labels with name := r.labels.name.or (versionedName table) } options) last (.ok d) := by
  rw [loadVersioned] at h
  cases hp : placeOf r with
  | error refusal =>
    simp only [hp] at h
    exact nomatch (runs_pure.mp h).2
  | ok place =>
    simp only [hp] at h
    obtain ⟨first, versioned, rest, rfl, hversioned, hrest⟩ := runs_bind.mp h
    cases versioned with
    | false => exact nomatch (runs_pure.mp hrest).2
    | true =>
      obtain ⟨second, table, rest, rfl, hpinned, hrest⟩ := runs_bind.mp hrest
      obtain ⟨third, loaded, rest, rfl, hloaded, hrest⟩ := runs_bind.mp hrest
      cases loaded with
      | error f => exact nomatch (runs_pure.mp hrest).2
      | ok frame =>
        obtain ⟨fourth, _, last, rfl, hnoted, hmake⟩ := runs_bind.mp hrest
        refine ⟨first ++ (second ++ (third ++ fourth)), last, frame, table, ?_, ?_, hmake⟩
        · simp only [List.append_assoc]
        · refine errands_append (errands_isVersioned hversioned) ?_
          refine errands_append (errands_pinned hpinned) ?_
          exact errands_append (errands_load hloaded) (errands_single hnoted trivial)

/-- A frame that is wrapped has its place looked up in the catalog, if it is to have one, and then
a dataset is made over it. -/
theorem ends_of_fromFrame {frame : F} {r : FrameRequest} {options : DatasetOptions}
    {said : List (Exchange F)} {d : Dataset F}
    (h : Runs (fromFrame frame r options) said (.ok d)) :
    ∃ errands last source, said = errands ++ last ∧ (∀ x ∈ errands, Errand x) ∧
      Runs (make frame source r.labels options) last (.ok d) := by
  rw [fromFrame] at h
  rcases ho : originOf r with refusal | (q | place)
  · simp only [ho] at h
    exact nomatch (runs_pure.mp h).2
  · simp only [ho] at h
    exact ⟨[], said, .table (.sql q), rfl, errands_nil, h⟩
  · simp only [ho] at h
    obtain ⟨errands, source, last, rfl, hsource, hrest⟩ := runs_bind.mp h
    cases source with
    | error refusal => exact nomatch (runs_pure.mp hrest).2
    | ok source => exact ⟨errands, last, source, rfl, errands_sourceOf hsource, hrest⟩

/-- However a dataset comes about, errands come first and it is made over a frame in the end. -/
theorem Made.ends {given : Option String} {said : List (Exchange F)} {d : Dataset F}
    (h : Made given said d) :
    ∃ errands last frame source labels options, said = errands ++ last ∧
      (∀ x ∈ errands, Errand x) ∧ Runs (make frame source labels options) last (.ok d) ∧
      labels.digest = given := by
  cases h with
  | direct h hg => exact ⟨[], _, _, _, _, _, rfl, errands_nil, h, hg⟩
  | loaded h hg =>
    obtain ⟨errands, last, frame, table, rfl, herrands, hmake⟩ := ends_of_loadVersioned h
    exact ⟨errands, last, frame, _, _, _, rfl, herrands, hmake, hg⟩
  | wrapped h hg =>
    obtain ⟨errands, last, source, rfl, herrands, hmake⟩ := ends_of_fromFrame h
    exact ⟨errands, last, _, source, _, _, rfl, herrands, hmake, hg⟩

/-- When it is made a dataset remembers the digest that it was given, and no schema. -/
theorem Made.remembers {given : Option String} {said : List (Exchange F)} {d : Dataset F}
    (h : Made given said d) : d.knownDigest = given ∧ d.knownSchema = none := by
  obtain ⟨errands, last, frame, source, labels, options, rfl, -, hmake, rfl⟩ := h.ends
  obtain ⟨rfl, -⟩ := fresh_of_make hmake
  exact ⟨rfl, rfl⟩

/-! ## What is said on the way -/

/-- In these exchanges no frame is asked for its hash, and observers are left alone. -/
structure Discreet (said : List (Exchange F)) : Prop where
  replies : hashReplies said = []
  reports : reports said = []

theorem discreet_nil : Discreet ([] : List (Exchange F)) := ⟨rfl, rfl⟩

theorem Discreet.append {first second : List (Exchange F)} (h : Discreet first)
    (k : Discreet second) : Discreet (first ++ second) :=
  ⟨by rw [hashReplies_append, h.replies, k.replies]; rfl,
    by rw [reports_append, h.reports, k.reports]; rfl⟩

/-- An errand is neither a hash nor a report. -/
theorem discreet_of_errands {said : List (Exchange F)} (h : ∀ x ∈ said, Errand x) :
    Discreet said := by
  constructor
  · refine List.filterMap_eq_nil_iff.mpr ?_
    rintro ⟨q, r⟩ hx
    cases q with
    | planHash f => exact absurd (h _ hx) not_false
    | _ => rfl
  · refine List.filter_eq_nil_iff.mpr ?_
    rintro ⟨q, r⟩ hx
    have herrand := h _ hx
    cases q with
    | deliver _ _ _ | now | appendLine _ _ => exact absurd herrand not_false
    | note n =>
      cases n with
      | versionedLoaded t => exact Bool.false_ne_true
      | _ => exact absurd herrand not_false
    | _ => exact Bool.false_ne_true

/-- Making a dataset has nothing to do with digests or with observers. -/
theorem Made.discreet {given : Option String} {said : List (Exchange F)} {d : Dataset F}
    (h : Made given said d) : Discreet said := by
  obtain ⟨errands, last, frame, source, labels, options, rfl, herrands, hmake, -⟩ := h.ends
  refine (discreet_of_errands herrands).append ?_
  obtain ⟨-, columns, rfl⟩ := fresh_of_make hmake
  cases labels.targets with
  | none => exact discreet_nil
  | some target => exact ⟨rfl, rfl⟩

end Lineage.Dataset
