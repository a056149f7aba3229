import Lineage.Proofs.Entries
import Lineage.Proofs.Session.Answering
/-
  What steps of a session leave of a dataset.

  A dataset stands in the session under its name, and so does the inferrer that it may have; all
  else it carries with it.  A step that is neither a view of the dataset nor makes one of its name
  leaves both as they were (`perform_spares`): it may add datasets and inferrers, but those have
  other names and new numbers.

  The questions of dialogues are taken first: none of them touches a dataset or an inferrer
  (`answer_spares`), and so no dialogue does (`run_spares`).  The steps then follow one by one.
-/

namespace Lineage.Session

/-- The dataset of a name is left as it is, and so are all inferrers that there are. -/
structure Spares (n : String) (s t : State) : Prop where
  dataset : t.datasets.lookup n = s.datasets.lookup n
  inferrers : ∀ id < s.next, t.inferrers.lookup id = s.inferrers.lookup id
  next : s.next ≤ t.next

namespace Spares

variable {n : String} {s t u : State}

theorem refl (n : String) (s : State) : Spares n s s := ⟨rfl, fun _ _ => rfl, Nat.le_refl _⟩

theorem trans (h : Spares n s t) (k : Spares n t u) : Spares n s u where
  dataset := k.dataset.trans h.dataset
  inferrers id hid :=
    (k.inferrers id (Nat.lt_of_lt_of_le hid h.next)).trans (h.inferrers id hid)
  next := Nat.le_trans h.next k.next

/-- Where datasets, inferrers and numbers are the same, the rest may differ. -/
theorem of_eq (hd : t.datasets = s.datasets) (hi : t.inferrers = s.inferrers)
    (hn : s.next ≤ t.next) : Spares n s t :=
  ⟨by rw [hd], fun _ _ => by rw [hi], hn⟩

end Spares

variable {n : String}

/-! ## Questions -/

theorem spares_bears (n : String) : Bears (Spares n) where
  refl := .refl n
  trans := .trans
  record _ _ := .of_eq rfl rfl (Nat.le_refl _)
  seen _ _ := .of_eq rfl rfl (Nat.le_refl _)
  script _ _ _ := .of_eq rfl rfl (Nat.le_refl _)
  fresh _ := .of_eq rfl rfl (Nat.le_succ _)

theorem newFrame_spares (s : State) (body : Body) : Spares n s (s.newFrame body).2 :=
  (spares_bears n).newFrame s body

/-- **No question touches a dataset or an inferrer.** -/
theorem answer_spares (q : Question Frame) (s : State) : Spares n s (answer q s).2 := by
  rcases (spares_bears n).answer q s with h | ⟨path, line, rfl⟩
  · exact h
  · exact .of_eq rfl rfl (Nat.le_refl _)

/-- No dialogue touches a dataset or an inferrer. -/
theorem run_spares {α : Type} (d : Dialogue Frame α) (s : State) : Spares n s (s.run d).2 := by
  show Spares n s (d.run answer s).2
  induction d generalizing s with
  | done a => exact .refl n s
  | ask q next ih => exact (answer_spares q s).trans (ih _ _)

/-! ## Steps -/

namespace State

section Using

variable (s : State)

theorem withFrame_spares {name : String} {use : Frame → Outcome}
    (h : ∀ f, Spares n s (use f).2) : Spares n s (s.withFrame name use).2 := by
  unfold withFrame
  split
  · exact h _
  · exact .refl n s

theorem withPlan_spares {name : String} {use : Plan → Outcome}
    (h : ∀ p, Spares n s (use p).2) : Spares n s (s.withPlan name use).2 := by
  refine s.withFrame_spares fun f => ?_
  split
  · exact h _
  · exact .refl n s

theorem withTable_spares {columns : List Series} {use : Table → Outcome}
    (h : ∀ t, Spares n s (use t).2) : Spares n s (s.withTable columns use).2 := by
  unfold withTable
  split
  · exact h _
  · exact .refl n s

theorem withDataset_spares {name : String} {use : Dataset Frame → Outcome}
    (h : ∀ d, Spares n s (use d).2) : Spares n s (s.withDataset name use).2 := by
  unfold withDataset
  split
  · exact h _
  · exact .refl n s

end Using

theorem setFrame_spares (s : State) (name : String) (f : Frame) :
    Spares n s (s.setFrame name f) := .of_eq rfl rfl (Nat.le_refl _)

theorem define_spares (s : State) (name : String) (p : Plan) : Spares n s (s.define name p).2 :=
  (newFrame_spares s (.plan p)).trans (setFrame_spares _ name _)

theorem standIn_spares (s : State) (name : String) (script : Script) :
    Spares n s (s.standIn name script).2 :=
  .of_eq rfl rfl (Nat.le_add_right s.next 2)

theorem inspect_spares (s : State) (name : String) (what : FrameRequestKind) :
    Spares n s (s.inspect name what).2 := by
  cases what with
  | describe => exact s.withPlan_spares fun _ => .refl n s
  | names => exact s.withFrame_spares fun f => run_spares (Dialogue.columns f) s
  | columns => exact s.withFrame_spares fun f => run_spares (Dialogue.columns f) s
  | hash => exact s.withFrame_spares fun f => run_spares (Dialogue.planHash f) s
  | count timeout => exact s.withFrame_spares fun f => run_spares (Dialogue.countRows f timeout _) s
  | head rows => exact s.withFrame_spares fun f => run_spares (Dialogue.firstRows f rows) s

theorem commit_spares (s : State) (table : String) (p : Plan) :
    Spares n s (s.commit table p).2 := by
  unfold commit
  split
  · exact .of_eq rfl rfl (Nat.le_refl _)
  · exact .refl n s

theorem collect_spares (s : State) (f : Frame) : Spares n s (s.collect f).2 := by
  obtain ⟨i, p | id⟩ := f
  · exact (spares_bears n).askPlan p (fun files seen => p.collect files seen) s
  · exact .refl n s

theorem load_spares (s : State) (d : Dialogue Frame (Except Failure Frame)) (name : Option String)
    (untouched : Bool) : Spares n s (s.load d name untouched).2 := by
  have hrun : Spares n s (s.run d).2 := run_spares d s
  unfold load
  split
  · rename_i e t heq
    rw [heq] at hrun
    exact hrun
  · rename_i f t heq
    rw [heq] at hrun
    refine hrun.trans ?_
    have hcollected : ∀ u, Spares n t u →
        Spares n t (if untouched then (.nothing, u) else u.collect f : Outcome).2 := by
      intro u hu
      split
      · exact hu
      · exact hu.trans (collect_spares u f)
    cases name with
    | none => exact hcollected t (.refl n t)
    | some m => exact hcollected _ (setFrame_spares t m f)

/-! ### Datasets -/

/-- A dataset of another name is put in its place. -/
theorem setDataset_spares {m : String} (h : m ≠ n) (s : State) (d : Dataset Frame) :
    Spares n s { s with datasets := replace m d s.datasets } where
  dataset := lookup_replaced_of_ne h.symm d s.datasets
  inferrers _ _ := rfl
  next := Nat.le_refl _

/-- A new inferrer has a new number. -/
theorem optionsOf_spares (s : State) (settings : Option Settings) :
    Spares n s (s.optionsOf settings).2 := by
  cases settings with
  | none => exact .refl n s
  | some x =>
    obtain ⟨rowLimit, timeout, confidence, inferrer, observer⟩ := x
    cases inferrer with
    | none => exact .refl n s
    | some behaviour =>
      refine ⟨rfl, ?_, Nat.le_succ _⟩
      intro id hid
      exact lookup_replaced_of_ne (Nat.ne_of_lt hid) behaviour s.inferrers

theorem keep_spares {m : String} (h : m ≠ n) {s : State}
    {made : Except Failure (Dataset Frame) × State} (hmade : Spares n s made.2) :
    Spares n s (keep m made).2 := by
  obtain ⟨e | d, t⟩ := made
  · exact hmade
  · exact hmade.trans (setDataset_spares h t d)

theorem make_spares {m : String} (h : m ≠ n) (s : State) (recipe : Recipe) :
    Spares n s (s.make m recipe).2 := by
  have hoptions : ∀ settings, Spares n s (s.optionsOf settings).2 := optionsOf_spares s
  match recipe with
  | .over frame source labels settings =>
    refine s.withFrame_spares fun f => keep_spares h ((hoptions settings).trans ?_)
    refine Spares.trans ?_ (run_spares _ _)
    cases settings with
    | none => exact newFrame_spares _ _
    | some x => exact .refl n _
  | .load request settings => exact keep_spares h ((hoptions settings).trans (run_spares _ _))
  | .wrap frame request settings =>
    refine s.withFrame_spares fun f => keep_spares h ((hoptions settings).trans ?_)
    exact (newFrame_spares _ f.body).trans (run_spares _ _)

theorem look_spares {α : Type} {m : String} (h : m ≠ n) (s : State) (d : Dataset Frame)
    (v : View Frame α) (f : α → Reply) : Spares n s (s.look m d v f).2 :=
  (run_spares (v d) s).trans (setDataset_spares h _ _)

theorem view_spares {m : String} (h : m ≠ n) (s : State) (what : Request) :
    Spares n s (s.view m what).2 := by
  refine s.withDataset_spares fun d => ?_
  cases what with
  | source => exact .refl n s
  | describe => exact .refl n s
  | digest => exact look_spares h s d _ _
  | profile => exact look_spares h s d _ _
  | schema => exact look_spares h s d _ _
  | split => exact look_spares h s d _ _
  | descriptor => exact look_spares h s d _ _
  | descriptorText => exact look_spares h s d _ _

end State

/-- A step asks for a view of the dataset of a name. -/
def Step.views (n : String) : Step → Bool
  | .view m _ => m == n
  | _ => false

/-- A step makes a dataset of a name. -/
def Step.makes (n : String) : Step → Bool
  | .make m _ => m == n
  | _ => false

/-- **A step leaves a dataset as it is**, unless it asks for a view of it or makes one of its
name. -/
theorem State.perform_spares (s : State) {x : Step} (hviews : x.views n = false)
    (hmakes : x.makes n = false) : Spares n s (s.perform x).2 := by
  have hfiles : ∀ files, Spares n s { s with files := files } :=
    fun _ => .of_eq rfl rfl (Nat.le_refl _)
  have hcatalog : ∀ catalog, Spares n s { s with catalog := catalog } :=
    fun _ => .of_eq rfl rfl (Nat.le_refl _)
  have hoverrides : ∀ overrides, Spares n s { s with overrides := overrides } :=
    fun _ => .of_eq rfl rfl (Nat.le_refl _)
  cases x with
  | makeDirectory path => exact hfiles (s.files.makeDirectory path)
  | write path text => exact hfiles (s.files.write path (.text text))
  | remove path => exact hfiles (s.files.remove path)
  | override call argument r => exact hoverrides (replace (call, argument) r s.overrides)
  | tables => exact .refl n s
  | writeTable path columns =>
    exact s.withTable_spares fun t => hfiles (s.files.write path (.table t))
  | readLog path =>
    show Spares n s (s.readLog path).2
    unfold readLog
    split
    · exact .refl n s
    · exact .refl n s
  | define name columns steps => exact s.withTable_spares fun _ => define_spares s name _
  | derive name base steps => exact s.withPlan_spares fun _ => define_spares s name _
  | standIn name script => exact standIn_spares s name script
  | inspect frame what => exact inspect_spares s frame what
  | register table frame => exact s.withPlan_spares fun p => hcatalog (s.catalog.register table p)
  | commit table frame => exact s.withPlan_spares fun p => commit_spares s table p
  | isVersionedPath path => exact run_spares (Dialogue.isVersionedPath path) s
  | isVersionedTable name => exact run_spares (Dialogue.isVersionedTable name) s
  | latestOfPath path => exact run_spares (Dialogue.latestOfPath path) s
  | latestOfTable name => exact run_spares (Dialogue.latestOfTable name) s
  | load place name untouched => exact load_spares s (loading place) name untouched
  -- These two put a dataset in its place, and by assumption it has another name.
  | make m recipe => exact make_spares (beq_eq_false_iff_ne.mp hmakes) s recipe
  | view m what => exact view_spares (beq_eq_false_iff_ne.mp hviews) s what
  | reload m name untouched => exact s.withDataset_spares fun d => load_spares s _ name untouched
  | sameFrame m frame =>
    exact s.withDataset_spares fun d => s.withFrame_spares fun f => .refl n s
  | describeObserver o =>
    unfold perform
    dsimp only
    split
    · exact .refl n s
    · exact .refl n s

end Lineage.Session
