import Lineage.Proofs.Dataset.Making
import Lineage.Proofs.Dataset.Turns
import Lineage.Proofs.Session.Upkeep
/-
  Datasets over tables in memory, as they stand in a session.

  A dataset that has just been made stands in the session under its name, and the number of its
  inferrer is in use there (`Stands`).  Steps that spare it leave it standing.  However it was made,
  it was made over a frame in the end, with the options that were asked for (`Makes.ends`); and what
  was said on the way was said by the session (`runs_answered`).
-/

namespace Lineage.Session

open Dialogue (Runs)

variable {n : String} {d : Dataset Frame} {s t : State}

/-- A frame over a table in memory, with any steps. -/
def InMemory (f : Frame) : Prop := ∃ t steps, f.body = .plan ⟨.memory t, steps⟩

/-- A dataset over a table in memory stands in a session under a name, and its inferrer has been
given a number there. -/
structure Stands (n : String) (d : Dataset Frame) (s : State) : Prop where
  found : s.datasets.lookup n = some d
  memory : InMemory d.frame
  numbered : ∀ id, d.options.inferrer = .external id → id < s.next

namespace Stands

theorem spared (h : Stands n d s) (hst : Spares n s t) : Stands n d t where
  found := hst.dataset.trans h.found
  memory := h.memory
  numbered id hid := Nat.lt_of_lt_of_le (h.numbered id hid) hst.next

theorem withDataset (h : Stands n d s) (use : Dataset Frame → Outcome) :
    s.withDataset n use = use d := by
  rw [State.withDataset, h.found]

/-- The same dataset with another memory takes its place. -/
theorem replaced (h : Stands n d s) {e : Dataset Frame} (he : d.SameAs e) (hst : Spares n s t) :
    Stands n e { t with datasets := State.replace n e t.datasets } where
  found := List.lookup_cons_self
  memory := by
    rw [he.frame]
    exact h.memory
  numbered id hid := by
    rw [he.options] at hid
    exact Nat.lt_of_lt_of_le (h.numbered id hid) hst.next

end Stands

/-! ## What the session says -/

/-- The session has answered like this, at some moment. -/
def Answered (x : Exchange Frame) : Prop := ∃ s, (answer x.question s).1 = x.answer

/-- What a session makes of a dialogue is one of its courses, and all answers in it are those of
the session. -/
theorem runs_answered {α : Type} (d : Dialogue Frame α) (s : State) :
    ∃ said, Runs d said (s.run d).1 ∧ ∀ x ∈ said, Answered x := by
  show ∃ said, Runs d said (d.run answer s).1 ∧ _
  induction d generalizing s with
  | done a => exact ⟨[], .done a, fun _ hx => absurd hx List.not_mem_nil⟩
  | ask q next ih =>
    obtain ⟨said, hruns, hanswered⟩ := ih (answer q s).1 (answer q s).2
    refine ⟨⟨q, (answer q s).1⟩ :: said, .ask _ hruns, ?_⟩
    intro x hx
    rcases List.mem_cons.mp hx with rfl | hx
    · exact ⟨s, rfl⟩
    · exact hanswered x hx

/-! ## Making a dataset -/

/-- A dialogue makes a dataset with some options: directly, by loading a version, or by wrapping a
frame. -/
inductive Makes (options : DatasetOptions) :
    Dialogue Frame (Except Failure (Dataset Frame)) → Prop
  | direct (f : Frame) (source : Source) (labels : Labels) :
    Makes options (Dataset.make f source labels options)
  | loaded (request : VersionedRequest) : Makes options (Dataset.loadVersioned request options)
  | wrapped (f : Frame) (request : FrameRequest) :
    Makes options (Dataset.fromFrame f request options)

/-- In the end a dataset is made over a frame with these options. -/
theorem Makes.ends {options : DatasetOptions}
    {dialogue : Dialogue Frame (Except Failure (Dataset Frame))} (h : Makes options dialogue)
    {said : List (Exchange Frame)} (hruns : Runs dialogue said (.ok d)) :
    ∃ errands last f source labels, said = errands ++ last ∧
      Runs (Dataset.make f source labels options) last (.ok d) := by
  cases h with
  | direct f source labels => exact ⟨[], said, f, source, labels, rfl, hruns⟩
  | loaded request =>
    obtain ⟨errands, last, f, table, hsaid, -, hlast⟩ := Dataset.ends_of_loadVersioned hruns
    exact ⟨errands, last, f, _, _, hsaid, hlast⟩
  | wrapped f request =>
    obtain ⟨errands, last, source, hsaid, -, hlast⟩ := Dataset.ends_of_fromFrame hruns
    exact ⟨errands, last, f, source, _, hsaid, hlast⟩

/-- A dataset has been made by a dialogue in a session, and is kept under its name. -/
structure Kept (n : String) (d : Dataset Frame) (t : State) (options : DatasetOptions)
    (dialogue : Dialogue Frame (Except Failure (Dataset Frame))) (s : State) : Prop where
  makes : Makes options dialogue
  numbered : ∀ id, options.inferrer = .external id → id < s.next
  made : (s.run dialogue).1 = .ok d
  after : t = { (s.run dialogue).2 with
    datasets := State.replace n d (s.run dialogue).2.datasets }

theorem kept_of_keep {options : DatasetOptions}
    {dialogue : Dialogue Frame (Except Failure (Dataset Frame))}
    (hmakes : Makes options dialogue)
    (hnumbered : ∀ id, options.inferrer = .external id → id < s.next)
    (h : State.keep n (s.run dialogue) = (.summary d, t)) : Kept n d t options dialogue s := by
  rcases hrun : s.run dialogue with ⟨e | d', u⟩
  · rw [hrun] at h
    cases congrArg Prod.fst h
  · rw [hrun] at h
    cases h
    exact ⟨hmakes, hnumbered, by rw [hrun], by rw [hrun]⟩

/-- The inferrer of options has a number that is in use. -/
theorem optionsOf_numbered (s : State) (settings : Option Settings) (id : Nat)
    (h : (s.optionsOf settings).1.inferrer = .external id) :
    id < (s.optionsOf settings).2.next := by
  cases settings with
  | none => cases h
  | some x =>
    obtain ⟨rowLimit, timeout, confidence, inferrer, observer⟩ := x
    cases inferrer with
    | none => cases h
    | some behaviour =>
      cases h
      exact Nat.lt_succ_self s.next

/-- A step that makes a dataset does it by one of the dialogues. -/
theorem kept_of_make {recipe : Recipe} (h : s.perform (.make n recipe) = (.summary d, t)) :
    ∃ options dialogue u, Kept n d t options dialogue u := by
  have hframe : ∀ {name : String} {use : Frame → Outcome},
      s.withFrame name use = (.summary d, t) → ∃ f, use f = (.summary d, t) := by
    intro name use huse
    unfold State.withFrame at huse
    split at huse
    · exact ⟨_, huse⟩
    · cases congrArg Prod.fst huse
  match recipe, h with
  | .over name source labels settings, h =>
    obtain ⟨f, hf⟩ := hframe h
    have hnumbered := optionsOf_numbered s settings
    -- Without settings the dataset is made over a copy, which takes a number as well.
    cases settings with
    | none =>
      exact ⟨_, _, _, kept_of_keep (.direct _ source labels)
        (fun id hid => Nat.lt_succ_of_lt (hnumbered id hid)) hf⟩
    | some x => exact ⟨_, _, _, kept_of_keep (.direct f source labels) hnumbered hf⟩
  | .load request settings, h =>
    exact ⟨_, _, _, kept_of_keep (.loaded request) (optionsOf_numbered s settings) h⟩
  | .wrap name request settings, h =>
    obtain ⟨f, hf⟩ := hframe h
    exact ⟨_, _, _, kept_of_keep (.wrapped _ request)
      (fun id hid => Nat.lt_succ_of_lt (optionsOf_numbered s settings id hid)) hf⟩

/-- A dataset that a step has made is kept under its name.  It was made over a frame in the end, by
what the session has answered, and with an inferrer whose number is in use. -/
theorem ends_of_make {recipe : Recipe} (h : s.perform (.make n recipe) = (.summary d, t)) :
    t.datasets.lookup n = some d ∧ ∃ f source labels options said,
      Runs (Dataset.make f source labels options) said (.ok d) ∧ (∀ x ∈ said, Answered x) ∧
        ∀ id, options.inferrer = .external id → id < t.next := by
  obtain ⟨options, dialogue, u, hkept⟩ := kept_of_make h
  obtain ⟨said, hruns, hanswered⟩ := runs_answered dialogue u
  rw [hkept.made] at hruns
  obtain ⟨errands, last, f, source, labels, rfl, hlast⟩ := hkept.makes.ends hruns
  have hspared : Spares n u (u.run dialogue).2 := run_spares dialogue u
  rw [hkept.after]
  refine ⟨List.lookup_cons_self, f, source, labels, options, last, hlast, ?_, ?_⟩
  · intro x hx
    exact hanswered x (List.mem_append_right errands hx)
  · intro id hid
    exact Nat.lt_of_lt_of_le (hkept.numbered id hid) hspared.next

/-- **A dataset over a table in memory that has just been made stands under its name.** -/
theorem stands_of_make {recipe : Recipe} (hmemory : InMemory d.frame)
    (h : s.perform (.make n recipe) = (.summary d, t)) : Stands n d t := by
  obtain ⟨hfound, f, source, labels, options, said, hruns, -, hnumbered⟩ := ends_of_make h
  obtain ⟨rfl, -⟩ := Dataset.fresh_of_make hruns
  exact ⟨hfound, hmemory, hnumbered⟩

/-! ## Steps -/

/-- Carrying out a step is doing it in a session in which nothing has happened yet. -/
theorem perform_of_step {x : Step} {r : Reply} {happened : List Happening}
    (h : s.step x = (r, happened, t)) : State.perform { s with happenings := [] } x = (r, t) := by
  have hreply := congrArg (fun r : Reply × List Happening × State => r.1) h
  have hafter := congrArg (fun r : Reply × List Happening × State => r.2.2) h
  exact Prod.ext hreply hafter

/-- Forgetting what has happened spares every dataset. -/
theorem cleared_spares (s : State) : Spares n s { s with happenings := [] } :=
  .of_eq rfl rfl (Nat.le_refl _)

/-- A step that neither views a dataset nor makes one of its name spares it. -/
theorem step_spares (s : State) {x : Step} (hviews : x.views n = false)
    (hmakes : x.makes n = false) : Spares n s (s.step x).2.2 :=
  (cleared_spares s).trans (State.perform_spares _ hviews hmakes)

/-- A step that views a dataset is one of the views. -/
theorem eq_view_of_views {x : Step} (h : x.views n = true) : ∃ what, x = .view n what := by
  cases x with
  | view m what => exact ⟨what, by rw [beq_iff_eq.mp h]⟩
  | _ => cases h

end Lineage.Session
