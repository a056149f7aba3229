import Lineage.Session.Step
/-
  What plans show in a session.

  A session answers questions about a plan from its files and from what it has seen of them
  before.  Asking may add to what has been seen, but the same plan then shows the same again.  Two
  sessions in which a plan shows the same (`SameSight`) give the same answers about it, whatever
  else differs between them: the catalog, the frames, what has happened.
-/

namespace Lineage

namespace Dialogue

/-- A bind is carried out part by part. -/
theorem run_bind {F α β σ : Type} (answer : (q : Question F) → σ → q.Answer × σ)
    (d : Dialogue F α) (f : α → Dialogue F β) (s : σ) :
    (d >>= f).run answer s = (f (d.run answer s).1).run answer (d.run answer s).2 := by
  show (d.bind f).run answer s = _
  induction d generalizing s with
  | done a => rfl
  | ask q next ih => exact ih (answer q s).1 (answer q s).2

end Dialogue

namespace Session

/-- A bind is carried out part by part, in a session. -/
theorem State.run_bind {α β : Type} (s : State) (d : Dialogue Frame α)
    (f : α → Dialogue Frame β) : s.run (d >>= f) = (s.run d).2.run (f (s.run d).1) :=
  Dialogue.run_bind answer d f s

/-- What a plan shows, by the files and what has been seen of them. -/
def shown (p : Plan) (files : FileTree) (looks : List (Nat × Look)) : Except Failure Look :=
  match p.origin with
  | .memory t => .ok (.ofTable t)
  | .files _ _ scan =>
    match looks.lookup scan with
    | some seen => .ok seen
    | none => p.origin.look files

/-- Looking at a plan tells what it shows. -/
theorem lookAt_fst (p : Plan) (s : State) : (lookAt p s).1 = shown p s.files s.looks := by
  unfold lookAt
  split
  · rename_i t ho
    simp only [shown, ho]
  · rename_i format path scan ho
    split
    · rename_i seen hseen
      simp only [shown, ho, hseen]
    · rename_i hnone
      split
      · rename_i seen hlook
        rw [ho] at hlook
        simp only [shown, ho, hnone, hlook]
      · rename_i e hlook
        rw [ho] at hlook
        simp only [shown, ho, hnone, hlook]

/-- Looking at a plan changes nothing but what has been seen of files. -/
theorem lookAt_snd (p : Plan) (s : State) :
    (lookAt p s).2 = { s with looks := (lookAt p s).2.looks } := by
  unfold lookAt
  split
  · rfl
  · split
    · rfl
    · split
      · rfl
      · rfl

/-- A plan shows the same again when it has been looked at. -/
theorem shown_again (p : Plan) (s : State) :
    shown p s.files (lookAt p s).2.looks = shown p s.files s.looks := by
  unfold lookAt
  split
  · rfl
  · rename_i format path scan ho
    split
    · rfl
    · rename_i hnone
      split
      · rename_i seen hlook
        rw [ho] at hlook
        simp only [shown, ho, List.lookup_cons_self, hnone, hlook]
      · rfl

/-- A plan shows the same in two sessions. -/
structure SameSight (p : Plan) (s t : State) : Prop where
  files : t.files = s.files
  shown : shown p t.files t.looks = shown p s.files s.looks

namespace SameSight

variable {p : Plan} {s t u : State}

theorem refl (p : Plan) (s : State) : SameSight p s s := ⟨rfl, rfl⟩

theorem symm (h : SameSight p s t) : SameSight p t s := ⟨h.files.symm, h.shown.symm⟩

theorem trans (h : SameSight p s t) (k : SameSight p t u) : SameSight p s u :=
  ⟨k.files.trans h.files, k.shown.trans h.shown⟩

end SameSight

theorem sameSight_lookAt (p : Plan) (s : State) : SameSight p s (lookAt p s).2 := by
  have hfiles : (lookAt p s).2.files = s.files := by rw [lookAt_snd]
  exact ⟨hfiles, by rw [hfiles]; exact shown_again p s⟩

/-! ## Answers about plans -/

/-- The answer about a plan, by the files and what the plan shows. -/
theorem askPlan_fst (p : Plan) {α : Type} (ask : FileTree → Look → Except Failure α) (s : State) :
    (askPlan p ask s).1 = (shown p s.files s.looks).bind (ask s.files) := by
  have hfst := lookAt_fst p s
  have hfiles := (sameSight_lookAt p s).files
  rw [askPlan, ← hfst]
  rcases hl : lookAt p s with ⟨seen | seen, t⟩
  · rfl
  · rw [hl] at hfiles
    exact congrArg (ask · seen) hfiles

/-- Asking about a plan leaves the session as looking at it does. -/
theorem askPlan_snd (p : Plan) {α : Type} (ask : FileTree → Look → Except Failure α) (s : State) :
    (askPlan p ask s).2 = (lookAt p s).2 := by
  rw [askPlan]
  rcases lookAt p s with ⟨seen | seen, t⟩
  · rfl
  · rfl

/-- Two sessions in which a plan shows the same give the same answers about it. -/
theorem SameSight.askPlan {p : Plan} {s t : State} (h : SameSight p s t) {α : Type}
    (ask : FileTree → Look → Except Failure α) :
    (askPlan p ask t).1 = (askPlan p ask s).1 := by
  rw [askPlan_fst, askPlan_fst, h.shown, h.files]

variable {p : Plan} {s t : State}

theorem SameSight.columnsOf (h : SameSight p s t) (i j : Nat) :
    (columnsOf ⟨j, .plan p⟩ t).1 = (columnsOf ⟨i, .plan p⟩ s).1 := h.askPlan _

theorem SameSight.hashOf (h : SameSight p s t) (i j : Nat) :
    (hashOf ⟨j, .plan p⟩ t).1 = (hashOf ⟨i, .plan p⟩ s).1 := h.askPlan _

theorem SameSight.collect (h : SameSight p s t) (i j : Nat) :
    (t.collect ⟨j, .plan p⟩).1 = (s.collect ⟨i, .plan p⟩).1 :=
  congrArg (reply Reply.table) (h.askPlan fun files seen => p.collect files seen)

/-- Asking for the columns of a plan leaves a session in which it shows the same. -/
theorem sameSight_columnsOf (p : Plan) (i : Nat) (s : State) :
    SameSight p s (columnsOf ⟨i, .plan p⟩ s).2 := by
  show SameSight p s (askPlan p _ s).2
  rw [askPlan_snd]
  exact sameSight_lookAt p s

end Session
end Lineage
