import Lineage.Proofs.Session.Sight
/-
  What becomes of a session that answers.

  Answers change little: something has happened, files have been seen, a script has moved on, a
  number has been used.  A relation between sessions that bears these changes (`Bears`) is kept by
  every question (`Bears.answer`), but for a line that is appended to a file, which changes the
  files.  The questions are taken one by one here and nowhere else.
-/

namespace Lineage.Session

/-- The relation bears the small changes that come with answers. -/
structure Bears (R : State → State → Prop) : Prop where
  refl : ∀ s, R s s
  trans : ∀ {s t u}, R s t → R t u → R s u
  record : ∀ s h, R s (s.record h)
  seen : ∀ s looks, R s { s with looks := looks }
  script : ∀ s id script, R s (s.setScript id script)
  fresh : ∀ s, R s s.fresh.2

namespace Bears

variable {R : State → State → Prop} (hR : Bears R)

include hR

theorem newFrame (s : State) (body : Body) : R s (s.newFrame body).2 := hR.fresh s

theorem askPlan {α : Type} (p : Plan) (ask : FileTree → Look → Except Failure α) (s : State) :
    R s (askPlan p ask s).2 := by
  rw [askPlan_snd, lookAt_snd]
  exact hR.seen s _

/-- A stand-in replies by its script, which moves on. -/
theorem scripted (s : State) (id : Nat) (script : Script) (h : Happening) :
    R s ((s.setScript id script).record h) :=
  hR.trans (hR.script s id script) (hR.record _ h)

theorem columnsOf (f : Frame) (s : State) : R s (columnsOf f s).2 := by
  obtain ⟨i, p | id⟩ := f
  · exact hR.askPlan p _ s
  · exact hR.scripted s id _ _

theorem hashOf (f : Frame) (s : State) : R s (hashOf f s).2 := by
  obtain ⟨i, p | id⟩ := f
  · exact hR.askPlan p _ s
  · exact hR.scripted s id _ _

theorem rowsOf (f : Frame) (rows : Nat) (s : State) : R s (rowsOf f rows s).2 := by
  obtain ⟨i, p | id⟩ := f
  · exact hR.askPlan p _ s
  · exact hR.scripted s id _ _

theorem countOf (f : Frame) (timeout : Duration) (confidence : Binary64) (s : State) :
    R s (countOf f timeout confidence s).2 := by
  obtain ⟨i, p | id⟩ := f
  · have hasked : R s (Session.askPlan p (fun files seen => p.count files seen) s).2 :=
      hR.askPlan p _ s
    unfold Session.countOf
    dsimp only
    split
    · rename_i e t heq
      rw [heq] at hasked
      exact hasked
    · rename_i k t heq
      rw [heq] at hasked
      split
      · exact hR.trans hasked (hR.record t _)
      · exact hasked
  · exact hR.scripted s id _ _

theorem asFrame (r : Except Failure Plan) (s : State) : R s (asFrame r s).2 := by
  cases r with
  | error e => exact hR.refl s
  | ok p => exact hR.newFrame s (.plan p)

theorem noteAll : ∀ (notes : List Note) (s : State),
    R s (notes.foldl (fun s n => s.record (.noted n)) s)
  | [], s => hR.refl s
  | note :: notes, s => hR.trans (hR.record s (.noted note)) (noteAll notes _)

theorem loadPath (path : String) (version : Option UInt64) (s : State) :
    R s (loadPath path version s).2 :=
  hR.trans (hR.fresh s) (hR.trans (hR.noteAll _ _) (hR.asFrame _ _))

theorem runQuery (text : String) (s : State) : R s (runQuery text s).2 := by
  unfold Session.runQuery
  split
  · exact hR.refl s
  · rename_i q hq
    exact hR.trans (hR.askPlan q.table (fun _ seen => q.plan seen) s) (hR.asFrame _ _)

/-- A question to the catalog does what its answer does, scripted or not. -/
theorem askCatalog {α : Type} {call : CatalogCall} {argument : String}
    {version : Option (Option UInt64)} {scripted : CatalogReply → State → α × State}
    {ask : State → α × State} (s : State) (hscripted : ∀ r s, R s (scripted r s).2)
    (hask : ∀ s, R s (ask s).2) : R s (askCatalog call argument version scripted ask s).2 := by
  refine hR.trans (hR.record s (.catalogAsked call argument version)) ?_
  unfold Session.askCatalog
  dsimp only
  split
  · exact hscripted _ _
  · exact hask _

/-- **Every question but one is answered within such a relation.**  The one is a line for a file. -/
theorem answer (q : Question Frame) (s : State) :
    R s (answer q s).2 ∨ ∃ path line, q = .appendLine path line := by
  have hstay : ∀ s : State, R s s := hR.refl
  cases q with
  | columns f => exact .inl (hR.columnsOf f s)
  | planHash f => exact .inl (hR.hashOf f s)
  | countRows f timeout confidence => exact .inl (hR.countOf f timeout confidence s)
  | firstRows f rows => exact .inl (hR.rowsOf f rows s)
  | infer who columns =>
    refine .inl (hR.trans (hR.record s (.inferrerAsked columns.length)) ?_)
    unfold Session.answer
    dsimp only
    split
    · exact hstay _
    · exact hstay _
  | isVersionedTable name => exact .inl (hR.askCatalog s (fun _ s => hstay s) hstay)
  | isVersionedPath path => exact .inl (hR.askCatalog s (fun _ s => hstay s) hstay)
  | latestOfTable name => exact .inl (hR.askCatalog s (fun _ s => hstay s) hstay)
  | latestOfPath path => exact .inl (hR.askCatalog s (fun _ s => hstay s) hstay)
  | loadTable name version =>
    exact .inl (hR.askCatalog s (fun r => hR.asFrame r.plan) fun s => hR.asFrame _ s)
  | loadPath path version =>
    exact .inl (hR.askCatalog s (fun r => hR.asFrame r.plan) (hR.loadPath path version))
  | runQuery query =>
    exact .inl (hR.askCatalog s (fun r => hR.asFrame r.plan) (hR.runQuery query))
  | deliver id c e => exact .inl (hR.record s _)
  | note note => exact .inl (hR.record s _)
  | now => exact .inl (hstay s)
  | appendLine path line => exact .inr ⟨path, line, rfl⟩

end Bears
end Lineage.Session
