import Lineage.Proofs.Dataset.OwnQuestions
import Lineage.Proofs.Session.Standing
/-
  Datasets do not disturb one another.

  Two runs of a session are compared: one with all its steps, and one with nothing but the views of
  a single dataset over a table in memory.  The dataset answers the same in both, and the same
  happens on the way (`datasets_independent`).

  What the dataset is in both sessions is the invariant (`Same`): it stands under its name, with the
  same memory of digest and schema, and its inferrer behaves the same.  Everything else may differ.
    * A view of the dataset asks for its own things only (`Question.Own`), and a table in memory is
      read without looking at the session.  So the answers are equal, and the dataset is the same
      afterwards (`Same.perform_view`).
    * Any other step spares the dataset (`step_spares`), so it may be left out of one of the
      runs (`Same.spared`).
-/

namespace Lineage.Session

open Dialogue (Asks)

/-! ## The same questions in two sessions -/

/-- Two sessions in which as much has happened, and in which an inferrer behaves the same. -/
structure Agree (inferrer : Inferrer) (s t : State) : Prop where
  inferrers : ∀ id, inferrer = .external id → t.inferrers.lookup id = s.inferrers.lookup id
  happenings : t.happenings = s.happenings

variable {inferrer : Inferrer} {s t : State}

theorem Agree.record (h : Agree inferrer s t) (what : Happening) :
    Agree inferrer (s.record what) (t.record what) :=
  ⟨h.inferrers, congrArg (what :: ·) h.happenings⟩

/-- Rows in memory are counted alike.  Whether that is noted as slow is told by the time that was
given. -/
theorem Agree.countOf (h : Agree inferrer s t) (i : Nat) (table : Table)
    (steps : List Lineage.Step) (timeout : Duration) (confidence : Binary64) :
    (countOf ⟨i, .plan ⟨.memory table, steps⟩⟩ timeout confidence t).1 =
        (countOf ⟨i, .plan ⟨.memory table, steps⟩⟩ timeout confidence s).1 ∧
      Agree inferrer (countOf ⟨i, .plan ⟨.memory table, steps⟩⟩ timeout confidence s).2
        (countOf ⟨i, .plan ⟨.memory table, steps⟩⟩ timeout confidence t).2 := by
  have hasked : ∀ u : State, askPlan ⟨.memory table, steps⟩
      (fun files seen => Plan.count files seen ⟨.memory table, steps⟩) u =
        (Plan.count .empty (.ofTable table) ⟨.memory table, steps⟩, u) := fun _ => rfl
  simp only [Session.countOf, hasked]
  cases Plan.count .empty (.ofTable table) ⟨.memory table, steps⟩ with
  | error e => exact ⟨rfl, h⟩
  | ok n =>
    refine ⟨rfl, ?_⟩
    dsimp only
    split
    · exact h.record _
    · exact h

theorem Agree.infer (h : Agree inferrer s t) {who : Nat}
    (hwho : t.inferrers.lookup who = s.inferrers.lookup who) (columns : FrameSchema) :
    (answer (.infer who columns) t).1 = (answer (.infer who columns) s).1 ∧
      Agree inferrer (answer (.infer who columns) s).2 (answer (.infer who columns) t).2 := by
  have hrecorded := h.record (.inferrerAsked columns.length)
  simp only [answer, State.record, hwho]
  split
  · exact ⟨rfl, hrecorded⟩
  · exact ⟨rfl, hrecorded⟩

/-- A dataset's own question has the same answer in both, and they agree afterwards. -/
theorem Agree.answer (h : Agree inferrer s t) {f : Frame} (hf : InMemory f) {q : Question Frame}
    (hq : q.Own f inferrer) :
    (answer q t).1 = (answer q s).1 ∧ Agree inferrer (answer q s).2 (answer q t).2 := by
  obtain ⟨i, body⟩ := f
  obtain ⟨table, steps, rfl⟩ := hf
  cases q with
  | columns g =>
    obtain rfl : g = _ := hq
    exact ⟨rfl, h⟩
  | planHash g =>
    obtain rfl : g = _ := hq
    exact ⟨rfl, h⟩
  | firstRows g rows =>
    obtain rfl : g = _ := hq
    exact ⟨rfl, h⟩
  | countRows g timeout confidence =>
    obtain rfl : g = _ := hq
    exact h.countOf i table steps timeout confidence
  | infer who columns =>
    exact h.infer (h.inferrers who hq) columns
  | deliver id c e => exact ⟨rfl, h.record _⟩
  | note n => exact ⟨rfl, h.record _⟩
  | now => exact ⟨rfl, h⟩
  | appendLine path line => exact ⟨rfl, h.inferrers, h.happenings⟩
  | isVersionedTable _ => exact absurd hq not_false
  | isVersionedPath _ => exact absurd hq not_false
  | latestOfTable _ => exact absurd hq not_false
  | latestOfPath _ => exact absurd hq not_false
  | loadTable _ _ => exact absurd hq not_false
  | loadPath _ _ => exact absurd hq not_false
  | runQuery _ => exact absurd hq not_false

/-- **A dialogue of a dataset's own questions ends alike in both.** -/
theorem Agree.run (h : Agree inferrer s t) {f : Frame} (hf : InMemory f) {α : Type}
    {d : Dialogue Frame α} (hd : d.Asks (Question.Own f inferrer)) :
    (t.run d).1 = (s.run d).1 ∧ Agree inferrer (s.run d).2 (t.run d).2 := by
  show (d.run Session.answer t).1 = (d.run Session.answer s).1 ∧
    Agree inferrer (d.run Session.answer s).2 (d.run Session.answer t).2
  induction d generalizing s t with
  | done a => exact ⟨rfl, h⟩
  | ask q next ih =>
    obtain ⟨hanswer, hagree⟩ := h.answer hf hd.1
    have hnext := ih (Session.answer q s).1 hagree (hd.2 _)
    simp only [Dialogue.run, hanswer]
    exact hnext

/-! ## The same dataset in two sessions -/

/-- The same dataset stands in both sessions, and its inferrer behaves the same. -/
def Same (n : String) (s t : State) : Prop :=
  ∃ d, Stands n d s ∧ Stands n d t ∧
    ∀ id, d.options.inferrer = .external id → t.inferrers.lookup id = s.inferrers.lookup id

variable {n : String} {d : Dataset Frame}

theorem Stands.same (h : Stands n d s) : Same n s s := ⟨d, h, h, fun _ _ => rfl⟩

/-- What spares the dataset may happen in one of the sessions only. -/
theorem Same.spared {u : State} (h : Same n s t) (hsu : Spares n s u) : Same n u t := by
  obtain ⟨d, hs, ht, hinferrer⟩ := h
  refine ⟨d, hs.spared hsu, ht, ?_⟩
  intro id hid
  rw [hsu.inferrers id (hs.numbered id hid)]
  exact hinferrer id hid

theorem Same.symm (h : Same n s t) : Same n t s := by
  obtain ⟨d, hs, ht, hinferrer⟩ := h
  exact ⟨d, ht, hs, fun id hid => (hinferrer id hid).symm⟩

/-- Two outcomes with the same reply, the same happenings and the same dataset. -/
structure Alike (n : String) (a b : Outcome) : Prop where
  reply : b.1 = a.1
  happenings : b.2.happenings = a.2.happenings
  same : Same n a.2 b.2

/-- A view is taken alike in both sessions, if it asks nothing but the dataset's own questions and
ends in the same dataset but for what that remembers. -/
theorem look_alike {α : Type} {v : View Frame α} (f : α → Reply) (hs : Stands n d s)
    (ht : Stands n d t) (hagree : Agree d.options.inferrer s t) (hasks : d.AsksOwn (v d))
    (hsame : ∀ said a d', Dialogue.Runs (v d) said (a, d') → d.SameAs d') :
    Alike n (s.look n d v f) (t.look n d v f) := by
  obtain ⟨hvalue, hafter⟩ := hagree.run hs.memory hasks
  obtain ⟨said, hruns, -⟩ := runs_answered (v d) s
  have hd' : d.SameAs (s.run (v d)).1.2 := hsame said _ _ hruns
  have hreply : (t.look n d v f).1 = (s.look n d v f).1 :=
    congrArg (fun r : α × Dataset Frame => f r.1) hvalue
  -- The dataset that is kept comes with the value, so it is the same one in both sessions.
  refine ⟨hreply, hafter.happenings, (s.run (v d)).1.2,
    hs.replaced hd' (run_spares (v d) s), ?_, ?_⟩
  · show Stands n _ { (t.run (v d)).2 with
      datasets := State.replace n (t.run (v d)).1.2 (t.run (v d)).2.datasets }
    rw [hvalue]
    exact ht.replaced hd' (run_spares (v d) t)
  · intro id hid
    rw [hd'.options] at hid
    exact hafter.inferrers id hid

/-- **A view of the dataset gives the same answer in both sessions**, and the dataset is the same
afterwards. -/
theorem Same.perform_view (h : Same n s t) (hhappenings : t.happenings = s.happenings)
    (what : Request) : Alike n (s.perform (.view n what)) (t.perform (.view n what)) := by
  obtain ⟨d, hs, ht, hinferrer⟩ := h
  have hagree : Agree d.options.inferrer s t := ⟨hinferrer, hhappenings⟩
  show Alike n (s.withDataset n _) (t.withDataset n _)
  rw [hs.withDataset, ht.withDataset]
  cases what with
  | source => exact ⟨rfl, hhappenings, d, hs, ht, hinferrer⟩
  | describe => exact ⟨rfl, hhappenings, d, hs, ht, hinferrer⟩
  | digest =>
    exact look_alike _ hs ht hagree d.digest_asksOwn fun _ _ _ h =>
      (Dataset.runs_digest.mp h).sameAs
  | profile =>
    exact look_alike _ hs ht hagree d.profile_asksOwn fun _ _ _ h => by
      rw [(Dataset.runs_profile.mp h).2]
      exact .refl d
  | schema =>
    exact look_alike _ hs ht hagree d.schema_asksOwn fun _ _ _ h =>
      (Dataset.runs_schema.mp h).sameAs
  | split =>
    exact look_alike _ hs ht hagree d.split_asksOwn fun _ _ _ h => by
      rw [(Dataset.runs_split.mp h).2]
      exact .refl d
  | descriptor =>
    exact look_alike _ hs ht hagree d.descriptor_asksOwn fun _ _ _ h =>
      (Dataset.runs_descriptor.mp h).sameAs
  | descriptorText =>
    exact look_alike _ hs ht hagree d.descriptorText_asksOwn fun _ _ _ h => by
      obtain ⟨x, hx, -⟩ := Dataset.runs_descriptorText.mp h
      exact hx.sameAs

/-! ## Runs -/

/-- What the views of a dataset answer in the course of some steps, each with what happens
meanwhile. -/
def answersOf (n : String) : State → List Step → List (Reply × List Happening)
  | _, [] => []
  | s, x :: xs =>
    let (r, happened, s) := s.step x
    if x.views n then (r, happened) :: answersOf n s xs else answersOf n s xs

/-- The answers of a dataset are the same when all other steps are left out of one of two sessions
in which it is the same. -/
theorem Same.answersOf : ∀ {xs : List Step} {s t : State}, Same n s t →
    (∀ x ∈ xs, x.makes n = false) →
    Session.answersOf n s xs = Session.answersOf n t (xs.filter (Step.views n))
  | [], _, _, _, _ => rfl
  | x :: xs, s, t, h, hmakes => by
    have hrest : ∀ y ∈ xs, y.makes n = false := fun y hy => hmakes y (List.mem_cons_of_mem x hy)
    cases hviews : x.views n with
    | false =>
      rw [List.filter_cons_of_neg (by simp [hviews]), Session.answersOf]
      simp only [hviews]
      exact (h.spared (step_spares s hviews (hmakes x List.mem_cons_self))).answersOf hrest
    | true =>
      obtain ⟨what, rfl⟩ := eq_view_of_views hviews
      -- A step starts with nothing noted yet, whatever happened in each session before.
      have hcleared := ((h.spared (cleared_spares s)).symm.spared (cleared_spares t)).symm
      have halike := hcleared.perform_view rfl what
      rw [List.filter_cons_of_pos hviews, Session.answersOf, Session.answersOf]
      simp only [hviews, if_true, State.step]
      rw [halike.reply, halike.happenings, halike.same.answersOf hrest]

/-! ## Independence -/

/-- **Datasets do not disturb one another.**  Let a dataset be made in a session, in any of the ways
there are, over a table in memory with any steps.  In any further steps of the session, also those
that register tables and commit versions, make other datasets and take views of them, its views
answer just as they do when they are taken alone, in the same order, right after it was made; and
the same happens in them.  Only another dataset of its own name would take its place. -/
theorem datasets_independent {n : String} {d : Dataset Frame} {s t : State} {recipe : Recipe}
    {happened : List Happening} (hmade : s.step (.make n recipe) = (.summary d, happened, t))
    (hmemory : InMemory d.frame) {xs : List Step} (hxs : ∀ x ∈ xs, x.makes n = false) :
    answersOf n t xs = answersOf n t (xs.filter (Step.views n)) :=
  (stands_of_make hmemory (perform_of_step hmade)).same.answersOf hxs

/-- A session with a frame `f` and a dataset `b` over it. -/
def sharing : State :=
  let s := (State.start.perform (.define "f" [⟨"x", .i64, [.int 1, .int 2]⟩] [])).2
  (s.perform (.make "b" (.over "f" (.table (.path "f.csv")) ⟨none, none, none⟩ none))).2

/-- A dataset over the same frame, with a label column, an observer and an inferrer of its own. -/
def overShared : Recipe :=
  .over "f" (.table (.path "f.csv")) ⟨some "x", none, none⟩
    (some ⟨some 1, none, none, some none, some (.recorder "r")⟩)

/-- Views of two datasets over one frame, with changes of the catalog in between. -/
def interleaved : List Step :=
  [.view "a" .digest, .commit "t" "f", .view "b" .schema, .view "a" .schema, .register "u" "f",
    .make "c" (.load ⟨none, some "t", none, ⟨none, none, none⟩⟩ none), .view "b" .digest,
    .view "c" .descriptor, .view "a" .split, .view "a" .descriptorText]

theorem sharing_independent :
    ∃ d happened t, sharing.step (.make "a" overShared) = (.summary d, happened, t) ∧
      InMemory d.frame ∧ (∀ x ∈ interleaved, x.makes "a" = false) ∧
      answersOf "a" t interleaved =
        answersOf "a" t [.view "a" .digest, .view "a" .schema, .view "a" .split,
          .view "a" .descriptorText] := by
  obtain ⟨d, happened, t, hmade, hmemory⟩ : ∃ d happened t,
      sharing.step (.make "a" overShared) = (.summary d, happened, t) ∧ InMemory d.frame :=
    ⟨_, _, _, rfl, _, _, rfl⟩
  have hmakes : ∀ x ∈ interleaved, x.makes "a" = false := by
    simp [interleaved, Step.makes]
  exact ⟨d, happened, t, hmade, hmemory, hmakes, datasets_independent hmade hmemory hmakes⟩

end Lineage.Session
