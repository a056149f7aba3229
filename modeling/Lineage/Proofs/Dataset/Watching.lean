import Lineage.Proofs.Dataset.OwnQuestions
import Lineage.Proofs.Session.Sight
import Mathlib.Data.List.Basic
/-
  Watching a dataset changes nothing.

  The frame and the inferrer of a dataset are asked in one place, its observer is served in another:
  `attended` are surroundings in which the first answer as they like, with a state of their own, and
  whatever the observer is told is only kept in a list.  In such surroundings the same views of the
  same dataset come to the same end whoever watches it: the answers are the same, so is what the
  dataset remembers, and so is the state of frame and inferrer, who were asked the same questions.

  What the observer is told of is fixed as well, before it is known who watches: it is one list of
  events (`Tells`).  A nest of observers hands every event on to its leaves from left to right
  (`letters_of_notify`), so each leaf receives that list, once for each place it has in the nest.

  A bind tells what its parts tell (`tells_bind`); that takes the views apart, one after the other
  (`digest_undisturbed`, `schema_undisturbed`, ...), and then a whole run of them
  (`observers_passive`).
-/

namespace Lineage

open Dialogue

variable {F : Type}

/-! ## Letters -/

/-- A message that an observer sends, to a recorder or to the diagnostics. -/
def Question.isLetter : Question F → Bool
  | deliver _ _ _ | note (.observed _ _) => true
  | _ => false

/-- The event in a message for this recorder, with what it is about. -/
def Question.delivery? (id : String) : Question F → Option (Context × Event)
  | deliver name c e => if name == id then some (c, e) else none
  | _ => none

/-- The messages in a course, in order. -/
def lettersIn (said : List (Exchange F)) : List (Question F) :=
  (said.map fun x => x.question).filter Question.isLetter

/-- What a recorder receives in a course, in order. -/
def deliveriesTo (id : String) (said : List (Exchange F)) : List (Context × Event) :=
  said.filterMap fun x => x.question.delivery? id

theorem lettersIn_append (first second : List (Exchange F)) :
    lettersIn (first ++ second) = lettersIn first ++ lettersIn second := by
  rw [lettersIn, List.map_append, List.filter_append]
  rfl

/-- What is for a recorder is a message. -/
theorem delivery?_of_not_isLetter (id : String) {q : Question F} (h : ¬ q.isLetter = true) :
    q.delivery? id = none := by
  cases q with
  | deliver _ _ _ => exact absurd rfl h
  | _ => rfl

/-- A recorder receives its share of the messages. -/
theorem deliveriesTo_eq (id : String) (said : List (Exchange F)) :
    deliveriesTo id said = (lettersIn said).filterMap (Question.delivery? id) := by
  rw [lettersIn, List.filterMap_filter, List.filterMap_map]
  refine List.filterMap_congr fun x _ => ?_
  by_cases h : x.question.isLetter = true
  · simp [h]
  · simp [h, delivery?_of_not_isLetter id h]

/-! ## Leaves of a nest -/

namespace Observer

mutual

/-- The observers of a nest that are no composites, from left to right. -/
def leaves : Observer → List Observer
  | .composite observers => leavesOfAll observers
  | o => [o]

/-- The leaves of several nests, from left to right. -/
def leavesOfAll : List Observer → List Observer
  | [] => []
  | o :: rest => o.leaves ++ leavesOfAll rest

end

/-- What a leaf passes on of an event, other than to a file. -/
def letters (c : Context) (e : Event) : Observer → List (Question F)
  | .recorder id => [.deliver id c e]
  | .tracing => [.note (.observed c e)]
  | _ => []

/-- The observer keeps its events under this name. -/
def isRecorder (id : String) : Observer → Bool
  | .recorder name => name == id
  | _ => false

/-- Telling several lists of observers is telling the list of them all. -/
theorem runs_notifyAll_append {c : Context} {e : Event} {second : List Observer} :
    ∀ {first : List Observer} {said more : List (Exchange F)},
      Runs (notifyAll c e first) said () → Runs (notifyAll c e second) more () →
      Runs (notifyAll c e (first ++ second)) (said ++ more) ()
  | [], said, more, h, k => by
    rw [(runs_pure.mp h).1]
    exact k
  | o :: rest, said, more, h, k => by
    obtain ⟨now, ⟨⟩, later, rfl, ho, hrest⟩ := runs_bind.mp h
    have hboth := runs_notifyAll_append hrest k
    rw [List.append_assoc]
    exact runs_bind.mpr ⟨now, (), later ++ more, rfl, ho, hboth⟩

/-- Telling a list of one observer is telling that observer. -/
theorem runs_notifyAll_single {c : Context} {e : Event} {o : Observer} {said : List (Exchange F)}
    (h : Runs (o.notify c e) said ()) : Runs (notifyAll c e [o]) said () :=
  runs_bind.mpr ⟨said, (), [], (List.append_nil said).symm, h, .done ()⟩

mutual

/-- **A nest hands an event on to its leaves, from left to right.** -/
theorem runs_notify_leaves {c : Context} {e : Event} {said : List (Exchange F)} :
    ∀ {o : Observer}, Runs (o.notify c e) said () → Runs (notifyAll c e o.leaves) said ()
  | .recorder _, h => runs_notifyAll_single h
  | .silent, h => runs_notifyAll_single h
  | .tracing, h => runs_notifyAll_single h
  | .file _, h => runs_notifyAll_single h
  | .composite _, h => runs_notifyAll_leaves h

theorem runs_notifyAll_leaves {c : Context} {e : Event} {said : List (Exchange F)} :
    ∀ {os : List Observer}, Runs (notifyAll c e os) said () →
      Runs (notifyAll c e (leavesOfAll os)) said ()
  | [], h => h
  | _ :: _, h => by
    obtain ⟨now, ⟨⟩, later, rfl, ho, hrest⟩ := runs_bind.mp h
    exact runs_notifyAll_append (runs_notify_leaves ho) (runs_notifyAll_leaves hrest)

end

mutual

/-- **The leaves of a nest send their messages, from left to right.** -/
theorem letters_of_notify {c : Context} {e : Event} {said : List (Exchange F)} :
    ∀ {o : Observer}, Runs (o.notify c e) said () →
      lettersIn said = o.leaves.flatMap (letters c e)
  | .recorder _, h => by
    rw [runs_single.mp h]
    rfl
  | .silent, h => by
    rw [(runs_pure.mp h).1]
    rfl
  | .tracing, h => by
    rw [runs_single.mp h]
    rfl
  | .file _, h => by
    obtain ⟨time, rest, rfl, hline⟩ := runs_ask_bind.mp h
    rw [runs_single.mp hline]
    rfl
  | .composite _, h => letters_of_notifyAll h

theorem letters_of_notifyAll {c : Context} {e : Event} {said : List (Exchange F)} :
    ∀ {os : List Observer}, Runs (notifyAll c e os) said () →
      lettersIn said = (leavesOfAll os).flatMap (letters c e)
  | [], h => by
    rw [(runs_pure.mp h).1]
    rfl
  | _ :: _, h => by
    obtain ⟨now, ⟨⟩, later, rfl, ho, hrest⟩ := runs_bind.mp h
    rw [lettersIn_append, letters_of_notify ho, letters_of_notifyAll hrest, leavesOfAll,
      List.flatMap_append]

end

/-- Of one event, a recorder receives one message for each place it has among the leaves. -/
theorem deliveries_of_letters (c : Context) (e : Event) (id : String) (leaves : List Observer) :
    (leaves.flatMap (letters (F := F) c e)).filterMap (Question.delivery? id) =
      List.replicate (leaves.countP (isRecorder id)) (c, e) := by
  induction leaves with
  | nil => rfl
  | cons o rest ih =>
    rw [List.flatMap_cons, List.filterMap_append, ih, List.countP_cons]
    cases o with
    | recorder name =>
      by_cases h : (name == id) = true
      · simp [letters, Question.delivery?, isRecorder, h, List.replicate_succ]
      · simp [letters, Question.delivery?, isRecorder, h]
    | _ => simp [letters, Question.delivery?, isRecorder]

mutual

/-- An observer asks nothing but what it needs to report. -/
theorem notify_asksReports (c : Context) (e : Event) :
    ∀ o : Observer, (o.notify (F := F) c e).Asks fun q => q.isReport = true
  | .recorder _ => asks_single rfl
  | .silent => asks_pure ()
  | .tracing => asks_single rfl
  | .file _ => asks_ask_bind rfl fun _ => asks_single rfl
  | .composite observers => notifyAll_asksReports c e observers

theorem notifyAll_asksReports (c : Context) (e : Event) :
    ∀ os : List Observer, (notifyAll (F := F) c e os).Asks fun q => q.isReport = true
  | [] => asks_pure ()
  | o :: rest => asks_bind (notify_asksReports c e o) fun _ _ _ => notifyAll_asksReports c e rest

end

end Observer

/-! ## Surroundings that serve observers by the side -/

section Attended

variable {α β σ : Type} (inner : (q : Question F) → σ → q.Answer × σ)
  (desk : (q : Question F) → List (Exchange F) → q.Answer)

/-- Surroundings in which `inner` answers, from a state of its own, what is no report.  Reports go
to a desk, which answers from the reports there have been, and are kept. -/
def attended (q : Question F) (x : σ × List (Exchange F)) : q.Answer × (σ × List (Exchange F)) :=
  if q.isReport then (desk q x.2, x.1, x.2 ++ [⟨q, desk q x.2⟩])
  else ((inner q x.1).1, (inner q x.1).2, x.2)

theorem attended_of_isReport {q : Question F} (h : q.isReport = true) (s : σ)
    (told : List (Exchange F)) :
    attended inner desk q (s, told) = (desk q told, s, told ++ [⟨q, desk q told⟩]) := if_pos h

theorem attended_of_other {q : Question F} (h : q.isReport = false) (s : σ)
    (told : List (Exchange F)) :
    attended inner desk q (s, told) = ((inner q s).1, (inner q s).2, told) :=
  if_neg (by rw [h]; exact Bool.false_ne_true)

/-- Reports are kept, and nobody else is asked. -/
theorem run_of_asksReports {d : Dialogue F α} (h : d.Asks fun q => q.isReport = true) (s : σ) :
    ∀ told : List (Exchange F), ∃ a served,
      d.run (attended inner desk) (s, told) = (a, s, told ++ served) ∧ Runs d served a := by
  induction d with
  | done a => exact fun told => ⟨a, [], by rw [List.append_nil]; rfl, .done a⟩
  | ask q next ih =>
    intro told
    obtain ⟨hq, hnext⟩ := h
    obtain ⟨a, served, hrun, hruns⟩ :=
      ih (desk q told) (hnext _) (told ++ [⟨q, desk q told⟩])
    refine ⟨a, ⟨q, desk q told⟩ :: served, ?_, .ask _ hruns⟩
    have hfirst := attended_of_isReport inner desk hq s told
    rw [Dialogue.run, hfirst]
    rw [List.append_assoc] at hrun
    exact hrun

namespace Dataset

/-- The dataset with this observer, or with none. -/
def watchedBy (d : Dataset F) (o : Option Observer) : Dataset F :=
  { d with options := { d.options with observer := o } }

section

variable (d : Dataset F) (o : Option Observer)

@[simp] theorem watchedBy_frame : (d.watchedBy o).frame = d.frame := rfl
@[simp] theorem watchedBy_source : (d.watchedBy o).source = d.source := rfl
@[simp] theorem watchedBy_targets : (d.watchedBy o).targets = d.targets := rfl
@[simp] theorem watchedBy_name : (d.watchedBy o).name = d.name := rfl
@[simp] theorem watchedBy_knownDigest : (d.watchedBy o).knownDigest = d.knownDigest := rfl
@[simp] theorem watchedBy_knownSchema : (d.watchedBy o).knownSchema = d.knownSchema := rfl
@[simp] theorem watchedBy_options :
    (d.watchedBy o).options = { d.options with observer := o } := rfl

end

/-- Whoever watches the dataset, the dialogue ends in the value and in the state of frame and
inferrer, and the observer is told of the events.  The dialogue and its value may have the observer
in them, the state and the events may not. -/
def Tells (d : Dataset F) (dialogue : Option Observer → Dialogue F α) (s : σ)
    (value : Option Observer → α) (s' : σ) (events : List Event) : Prop :=
  ∀ o told, ∃ served,
    (dialogue o).run (attended inner desk) (s, told) = (value o, s', told ++ served) ∧
      Runs ((d.watchedBy o).emitAll events) served ()

variable {inner desk} {d : Dataset F} {s s₁ s₂ : σ}

theorem tells_pure (value : Option Observer → α) :
    d.Tells inner desk (fun o => pure (value o)) s value s [] :=
  fun _ told => ⟨[], by rw [List.append_nil]; rfl, .done ()⟩

/-- A bind tells what its first part tells, and then what the second part tells that goes on from
there. -/
theorem tells_bind {first : Option Observer → Dialogue F α}
    {second : Option Observer → α → Dialogue F β} {a : Option Observer → α}
    {b : Option Observer → β} {events more : List Event}
    (h : d.Tells inner desk first s a s₁ events)
    (k : d.Tells inner desk (fun o => second o (a o)) s₁ b s₂ more) :
    d.Tells inner desk (fun o => first o >>= second o) s b s₂ (events ++ more) := by
  intro o told
  obtain ⟨served, hrun, hruns⟩ := h o told
  obtain ⟨others, hrun', hruns'⟩ := k o (told ++ served)
  refine ⟨served ++ others, ?_, runs_emitAll_append hruns hruns'⟩
  rw [Dialogue.run_bind, hrun, hrun', List.append_assoc]

/-- A question to frame or inferrer tells nothing. -/
theorem tells_ask {q : Question F} (h : q.isReport = false) :
    d.Tells inner desk (fun _ => ask q .done) s (fun _ => (inner q s).1) (inner q s).2 [] := by
  intro o told
  refine ⟨[], ?_, .done ()⟩
  rw [Dialogue.run, attended_of_other inner desk h, List.append_nil]
  rfl

theorem emit_asksReports (e : Event) : (d.emit e).Asks fun q => q.isReport = true := by
  unfold emit
  split
  · exact Observer.notify_asksReports _ _ _
  · exact asks_pure ()

theorem tells_emit (e : Event) :
    d.Tells inner desk (fun o => (d.watchedBy o).emit e) s (fun _ => ()) s [e] := by
  intro o told
  obtain ⟨⟨⟩, served, hrun, hruns⟩ :=
    run_of_asksReports inner desk ((d.watchedBy o).emit_asksReports e) s told
  refine ⟨served, hrun, ?_⟩
  exact runs_bind.mpr ⟨served, (), [], (List.append_nil served).symm, hruns, .done ()⟩

/-! ## The views -/

/-- Whom a dataset tells is settled by its name, its source and its observer. -/
theorem SameAs.emit_watchedBy {d' : Dataset F} (h : d.SameAs d') (o : Option Observer) :
    (d'.watchedBy o).emit = (d.watchedBy o).emit := by
  have hsame : (d.watchedBy o).SameAs (d'.watchedBy o) :=
    ⟨h.frame, h.source, h.targets, h.name, by rw [watchedBy, watchedBy, h.options]⟩
  exact hsame.emit

theorem SameAs.tells {d' : Dataset F} (h : d.SameAs d') {dialogue : Option Observer → Dialogue F α}
    {value : Option Observer → α} {events : List Event}
    (ht : d'.Tells inner desk dialogue s value s₁ events) :
    d.Tells inner desk dialogue s value s₁ events := by
  have hall : ∀ (o : Option Observer) (events : List Event),
      (d'.watchedBy o).emitAll events = (d.watchedBy o).emitAll events := by
    intro o events
    induction events with
    | nil => rfl
    | cons e rest ih => rw [emitAll, emitAll, ih, h.emit_watchedBy o]
  intro o told
  obtain ⟨served, hrun, hruns⟩ := ht o told
  exact ⟨served, hrun, hall o events ▸ hruns⟩

/-- Whoever watches the dataset, the dialogue has the same answer, and leaves the same dataset and
the same frame and inferrer; and there is one list of events that the observer is told of. -/
def EndsAlike (inner : (q : Question F) → σ → q.Answer × σ)
    (desk : (q : Question F) → List (Exchange F) → q.Answer) (d : Dataset F)
    (dialogue : Option Observer → Dialogue F (α × Dataset F)) (s : σ) : Prop :=
  ∃ a d' s' events, d.SameAs d' ∧
    d.Tells inner desk dialogue s (fun o => (a, d'.watchedBy o)) s' events

theorem endsAlike_pure {d' : Dataset F} (h : d.SameAs d') (a : α) :
    EndsAlike inner desk d (fun o => pure (a, d'.watchedBy o)) s :=
  ⟨a, d', s, [], h, tells_pure _⟩

/-- What comes first need only have one end, and tell of the same events. -/
theorem endsAlike_bind {first : Option Observer → Dialogue F α}
    {second : Option Observer → α → Dialogue F (β × Dataset F)} {a : Option Observer → α}
    {events : List Event} (h : d.Tells inner desk first s a s₁ events)
    (k : EndsAlike inner desk d (fun o => second o (a o)) s₁) :
    EndsAlike inner desk d (fun o => first o >>= second o) s := by
  obtain ⟨b, d', s', more, hsame, ht⟩ := k
  exact ⟨b, d', s', events ++ more, hsame, tells_bind h ht⟩

/-- The view ends alike, whatever dataset it is of. -/
def Undisturbed (inner : (q : Question F) → σ → q.Answer × σ)
    (desk : (q : Question F) → List (Exchange F) → q.Answer) (v : View F α) : Prop :=
  ∀ (d : Dataset F) (s : σ), EndsAlike inner desk d (fun o => v (d.watchedBy o)) s

/-- A view that goes on after another one is undisturbed if both are. -/
theorem Undisturbed.bind {v : View F α} {w : α → View F β} (hv : Undisturbed inner desk v)
    (hw : ∀ a, Undisturbed inner desk (w a)) :
    Undisturbed inner desk (fun d => v d >>= fun x => w x.1 x.2) := by
  intro d s
  obtain ⟨a, d₁, s₁, events, hsame, h⟩ := hv d s
  obtain ⟨b, d₂, s₂, more, hsame₂, k⟩ := hw a d₁ s₁
  exact ⟨b, d₂, s₂, events ++ more, hsame.trans hsame₂, tells_bind h (hsame.tells k)⟩

theorem digest_undisturbed : Undisturbed inner desk (digest : View F _) := by
  intro d s
  cases hk : d.knownDigest with
  | some k =>
    simp only [digest, watchedBy_knownDigest, hk]
    exact endsAlike_pure (.refl d) _
  | none =>
    simp only [digest, watchedBy_frame, watchedBy_name, watchedBy_knownDigest, hk]
    refine endsAlike_bind (tells_ask rfl) ?_
    cases hr : (inner (.planHash d.frame) s).1.bind Digest.ofHash with
    | error f => exact endsAlike_pure (.refl d) _
    | ok k =>
      have hkept : d.SameAs { d with knownDigest := some k } := ⟨rfl, rfl, rfl, rfl, rfl⟩
      exact endsAlike_bind (tells_ask rfl) (endsAlike_bind (tells_emit _) (endsAlike_pure hkept _))

theorem profile_undisturbed : Undisturbed inner desk (profile : View F _) := by
  intro d s
  simp only [profile, watchedBy_frame, watchedBy_options]
  refine endsAlike_bind (tells_ask rfl) ?_
  cases (inner (.countRows d.frame d.options.timeout d.options.confidence) s).1 with
  | error f => exact endsAlike_pure (.refl d) _
  | ok n => exact endsAlike_bind (tells_emit _) (endsAlike_pure (.refl d) _)

theorem split_undisturbed : Undisturbed inner desk (Dataset.split : View F _) := by
  intro d s
  simp only [Dataset.split, watchedBy_frame, watchedBy_name, watchedBy_targets, watchedBy_options]
  refine endsAlike_bind (tells_ask rfl) ?_
  cases (inner (.firstRows d.frame d.options.rowLimit) s).1 with
  | error f => exact endsAlike_pure (.refl d) _
  | ok t =>
    exact endsAlike_bind (tells_ask rfl) (endsAlike_bind (tells_emit _) (endsAlike_pure (.refl d) _))

theorem tells_inferred (inner : (q : Question F) → σ → q.Answer × σ)
    (desk : (q : Question F) → List (Exchange F) → q.Answer) (d : Dataset F) (s : σ) :
    ∃ outcome s' events,
      d.Tells inner desk (fun o => (d.watchedBy o).inferred) s (fun _ => outcome) s' events := by
  simp only [inferred, watchedBy_frame, watchedBy_options]
  cases hr : (inner (.columns d.frame) s).1 with
  | error f =>
    have hask : d.Tells inner desk (fun _ => Dialogue.columns d.frame) s
        (fun _ => .error f) _ [] := hr ▸ tells_ask rfl
    exact ⟨.error f, _, _, tells_bind hask (tells_pure _)⟩
  | ok columns =>
    have hask : d.Tells inner desk (fun _ => Dialogue.columns d.frame) s
        (fun _ => .ok columns) _ [] := hr ▸ tells_ask rfl
    cases d.options.inferrer with
    | standard => exact ⟨Schema.infer columns, _, _, tells_bind hask (tells_pure _)⟩
    | external id => exact ⟨_, _, _, tells_bind hask (tells_ask rfl)⟩

theorem schema_undisturbed : Undisturbed inner desk (schema : View F _) := by
  intro d s
  cases hk : d.knownSchema with
  | some k =>
    simp only [schema, watchedBy_knownSchema, hk]
    exact endsAlike_pure (.refl d) _
  | none =>
    obtain ⟨outcome, s₁, events, hinferred⟩ := tells_inferred inner desk d s
    simp only [schema, watchedBy_name, watchedBy_knownSchema, hk]
    refine endsAlike_bind hinferred ?_
    cases outcome with
    | ok k =>
      have hkept : d.SameAs { d with knownSchema := some (some k) } := ⟨rfl, rfl, rfl, rfl, rfl⟩
      exact endsAlike_pure hkept _
    | error f =>
      have hkept : d.SameAs { d with knownSchema := some none } := ⟨rfl, rfl, rfl, rfl, rfl⟩
      exact endsAlike_bind (tells_ask rfl) (endsAlike_bind (tells_emit _) (endsAlike_pure hkept _))

theorem descriptor_undisturbed : Undisturbed inner desk (descriptor : View F _) := by
  intro d s
  have hfirst : Undisturbed inner desk digest := digest_undisturbed
  obtain ⟨outcome, d₁, s₁, events, hsame, hdigest⟩ := hfirst d s
  refine endsAlike_bind hdigest ?_
  cases outcome with
  | error f => exact endsAlike_pure hsame _
  | ok digest =>
    have hrest : Undisturbed inner desk (fun d => schema d >>= fun x => profile x.2 >>= fun y =>
        pure (y.1.map (Descriptor.of y.2 digest x.1), y.2)) :=
      schema_undisturbed.bind (w := fun schema d => profile d >>= fun y =>
          pure (y.1.map (Descriptor.of y.2 digest schema), y.2)) fun schema =>
        profile_undisturbed.bind (w := fun (profile : Except Failure Profile) d =>
          pure (profile.map (Descriptor.of d digest schema), d)) fun profile d _ =>
        endsAlike_pure (.refl d) (profile.map (Descriptor.of d digest schema))
    obtain ⟨r, d', s', more, hsame', h⟩ := hrest d₁ s₁
    exact ⟨r, d', s', more, hsame.trans hsame', hsame.tells h⟩

theorem descriptorText_undisturbed : Undisturbed inner desk (descriptorText : View F _) :=
  descriptor_undisturbed.bind
    (w := fun descriptor d => pure (descriptor.map fun x => x.toJson.render, d))
    fun descriptor d _ => endsAlike_pure (.refl d) (descriptor.map fun x => x.toJson.render)

/-- **No view is disturbed by whoever watches.** -/
theorem view_undisturbed (call : ViewCall) : Undisturbed inner desk (call.view (F := F)) := by
  have hmap : ∀ {α : Type} {v : View F α} (f : α → ViewAnswer), Undisturbed inner desk v →
      Undisturbed inner desk (mapView f v) :=
    fun f hv => hv.bind (w := fun a d => pure (f a, d)) fun a d _ => endsAlike_pure (.refl d) (f a)
  cases call with
  | digest => exact hmap _ digest_undisturbed
  | profile => exact hmap _ profile_undisturbed
  | schema => exact hmap _ schema_undisturbed
  | split => exact hmap _ split_undisturbed
  | descriptor => exact hmap _ descriptor_undisturbed
  | descriptorText => exact hmap _ descriptorText_undisturbed

/-! ## Whole runs -/

/-- Several views, one after the other. -/
def viewing : List ViewCall → View F (List ViewAnswer)
  | [] => fun d => pure ([], d)
  | call :: rest => fun d => do
    let (answer, d) ← call.view d
    let (answers, d) ← viewing rest d
    return (answer :: answers, d)

/-- **No run of views is disturbed by whoever watches.** -/
theorem viewing_undisturbed (calls : List ViewCall) :
    Undisturbed inner desk (viewing (F := F) calls) := by
  induction calls with
  | nil => exact fun d _ => endsAlike_pure (.refl d) []
  | cons call rest ih =>
    exact (view_undisturbed call).bind
      (w := fun answer d => viewing rest d >>= fun x => pure (answer :: x.1, x.2)) fun answer =>
      ih.bind (w := fun answers d => pure (answer :: answers, d)) fun answers d _ =>
      endsAlike_pure (.refl d) (answer :: answers)

/-- The leaves that an observer comes down to, if there is one. -/
def watchers : Option Observer → List Observer
  | none => []
  | some o => o.leaves

/-- Tells several observers of several events, one event after the other. -/
def announce (c : Context) (observers : List Observer) : List Event → Dialogue F Unit
  | [] => pure ()
  | e :: rest => do
    Observer.notifyAll c e observers
    announce c observers rest

/-- Where there is nobody, nobody is told. -/
theorem runs_announce_nil {c : Context} :
    ∀ {events : List Event} {told : List (Exchange F)},
      Runs (announce c [] events) told () → told = []
  | [], _, h => (runs_pure.mp h).1
  | _ :: _, _, h => by
    obtain ⟨now, ⟨⟩, later, rfl, he, hrest⟩ := runs_bind.mp h
    rw [(runs_pure.mp he).1, runs_announce_nil hrest]
    rfl

/-- Whoever watches is served as its leaves would be. -/
theorem runs_announce {o : Option Observer} :
    ∀ {events : List Event} {told : List (Exchange F)},
      Runs ((d.watchedBy o).emitAll events) told () →
      Runs (announce d.context (watchers o) events) told ()
  | [], told, h => h
  | e :: rest, told, h => by
    obtain ⟨now, ⟨⟩, later, rfl, he, hrest⟩ := runs_bind.mp h
    refine runs_bind.mpr ⟨now, (), later, rfl, ?_, runs_announce hrest⟩
    cases o with
    | none => exact he
    | some o => exact Observer.runs_notify_leaves he

/-- Nobody sends messages but the leaves, one event after the other. -/
theorem letters_of_emitAll {o : Option Observer} :
    ∀ {events : List Event} {told : List (Exchange F)},
      Runs ((d.watchedBy o).emitAll events) told () →
      lettersIn told =
        events.flatMap fun e => (watchers o).flatMap (Observer.letters d.context e)
  | [], told, h => by
    rw [(runs_pure.mp h).1]
    rfl
  | e :: rest, told, h => by
    obtain ⟨now, ⟨⟩, later, rfl, he, hrest⟩ := runs_bind.mp h
    rw [lettersIn_append, letters_of_emitAll hrest, List.flatMap_cons]
    congr 1
    cases o with
    | none =>
      rw [(runs_pure.mp he).1]
      rfl
    | some o => exact Observer.letters_of_notify he

end Dataset

/-- Surroundings that also keep what they have been asked. -/
def logged (q : Question F) (x : σ × List (Question F)) : q.Answer × (σ × List (Question F)) :=
  ((inner q x.1).1, (inner q x.1).2, x.2 ++ [q])

namespace Dataset

/-- **Observers are passive, and served in order.**  Whoever watches a run of views, the answers,
what the dataset remembers, what frame and inferrer are asked and how they are left are the same,
and so is the list of events that the observer is told of.  The leaves of its nest are told of each
event from left to right, and a recorder receives the list once for each place it has among them;
where there is no leaf, nobody is told. -/
theorem observers_passive (d : Dataset F) (calls : List ViewCall) (s : σ) :
    ∃ (answers : List ViewAnswer) (after : Dataset F) (s' : σ) (asked : List (Question F))
        (events : List Event), ∀ o : Option Observer, ∃ told,
      (viewing calls (d.watchedBy o)).run (attended (logged inner) desk) ((s, []), []) =
        ((answers, after.watchedBy o), (s', asked), told) ∧
      Runs (announce d.context (watchers o) events) told () ∧
      lettersIn told =
        (events.flatMap fun e => (watchers o).flatMap (Observer.letters d.context e)) ∧
      (∀ id, deliveriesTo id told = events.flatMap fun e =>
        List.replicate ((watchers o).countP (Observer.isRecorder id)) (d.context, e)) ∧
      (told = [] ∨ watchers o ≠ []) := by
  have hviewing : Undisturbed (logged inner) desk (viewing calls) := viewing_undisturbed calls
  obtain ⟨answers, after, ⟨s', asked⟩, events, -, htells⟩ := hviewing d (s, [])
  refine ⟨answers, after, s', asked, events, fun o => ?_⟩
  obtain ⟨told, hrun, hruns⟩ := htells o []
  have hletters := letters_of_emitAll hruns
  refine ⟨told, hrun, runs_announce hruns, hletters, fun id => ?_, ?_⟩
  · rw [deliveriesTo_eq, hletters, List.filterMap_flatMap]
    exact congrArg (events.flatMap ·) (funext fun e => Observer.deliveries_of_letters _ e id _)
  · cases hw : watchers o with
    | nil => exact .inl (runs_announce_nil (hw ▸ runs_announce hruns))
    | cons leaf rest => exact .inr (List.cons_ne_nil leaf rest)

end Dataset
end Attended
end Lineage
