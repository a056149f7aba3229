import Lineage.Proofs.Dataset.Turns
/-
  What a dataset asks for itself.

  The views of a dataset ask its frame and its inferrer, and they serve its observer; they ask
  nothing of the catalog and nothing of other frames (`Question.Own`).  That is said of all
  questions of a dialogue at once, whatever is answered on the way (`Dialogue.Asks`).  A dialogue
  that goes on after another one may use what that one has ended in (`Dialogue.asks_bind`): the
  descriptor goes on with a dataset that remembers more, and that is the same one otherwise.
-/

namespace Lineage

/-! ## What a dialogue asks -/

namespace Dialogue

variable {F α β : Type} {kind : Question F → Prop}

/-- All questions of a dialogue are of some kind, whatever the answers are. -/
def Asks (kind : Question F → Prop) : Dialogue F α → Prop
  | done _ => True
  | ask q next => kind q ∧ ∀ r, (next r).Asks kind

theorem asks_pure (a : α) : (pure a : Dialogue F α).Asks kind := trivial

theorem asks_single {q : Question F} (h : kind q) : (ask q .done).Asks kind :=
  ⟨h, fun _ => trivial⟩

/-- What a bind asks is asked by its parts; the second goes on from an end of the first. -/
theorem asks_bind {d : Dialogue F α} {f : α → Dialogue F β} (hd : d.Asks kind)
    (hf : ∀ said a, Runs d said a → (f a).Asks kind) : (d >>= f).Asks kind := by
  show (d.bind f).Asks kind
  induction d with
  | done a => exact hf [] a (.done a)
  | ask q next ih =>
    refine ⟨hd.1, fun r => ih r (hd.2 r) ?_⟩
    intro said a h
    exact hf (⟨q, r⟩ :: said) a (.ask r h)

theorem asks_ask_bind {q : Question F} {f : q.Answer → Dialogue F β} (hq : kind q)
    (hf : ∀ r, (f r).Asks kind) : (ask q .done >>= f).Asks kind := ⟨hq, hf⟩

end Dialogue

open Dialogue

/-- A question that a dataset asks for itself: about its frame, of its inferrer, or to serve an
observer. -/
def Question.Own {F : Type} (frame : F) (inferrer : Inferrer) : Question F → Prop
  | columns f | planHash f | countRows f _ _ | firstRows f _ => f = frame
  | infer who _ => inferrer = .external who
  | deliver _ _ _ | note _ | now | appendLine _ _ => True
  | _ => False

namespace Observer

variable {F : Type} {frame : F} {inferrer : Inferrer}

mutual

theorem notify_asksOwn (c : Context) (e : Event) :
    ∀ o : Observer, (o.notify c e).Asks (Question.Own frame inferrer)
  | .recorder _ => asks_single trivial
  | .silent => asks_pure ()
  | .tracing => asks_single trivial
  | .file _ => asks_ask_bind trivial fun _ => asks_single trivial
  | .composite observers => notifyAll_asksOwn c e observers

theorem notifyAll_asksOwn (c : Context) (e : Event) :
    ∀ os : List Observer, (notifyAll c e os).Asks (Question.Own frame inferrer)
  | [] => asks_pure ()
  | o :: rest => asks_bind (notify_asksOwn c e o) fun _ _ _ => notifyAll_asksOwn c e rest

end

end Observer

namespace Dataset

variable {F : Type}

/-- A dialogue asks nothing but what a dataset asks for itself. -/
def AsksOwn {α : Type} (d : Dataset F) (dialogue : Dialogue F α) : Prop :=
  dialogue.Asks (Question.Own d.frame d.options.inferrer)

theorem SameAs.asksOwn {α : Type} {d e : Dataset F} (h : d.SameAs e) {dialogue : Dialogue F α}
    (hk : e.AsksOwn dialogue) : d.AsksOwn dialogue := by
  rwa [AsksOwn, ← h.frame, ← h.options]

variable (d : Dataset F)

theorem emit_asksOwn (e : Event) : d.AsksOwn (d.emit e) := by
  unfold emit
  split
  · exact Observer.notify_asksOwn _ _ _
  · exact asks_pure ()

/-- Telling the observer and then being done. -/
theorem emit_pure_asksOwn {α : Type} (e : Event) (a : α) : d.AsksOwn (do d.emit e; pure a) :=
  asks_bind (d.emit_asksOwn e) fun _ _ _ => asks_pure a

theorem digest_asksOwn : d.AsksOwn (digest d) := by
  unfold digest
  split
  · exact asks_pure _
  · refine asks_ask_bind rfl fun reply => ?_
    split
    · exact asks_pure _
    · exact asks_ask_bind trivial fun _ => d.emit_pure_asksOwn _ _

theorem profile_asksOwn : d.AsksOwn (profile d) := by
  refine asks_ask_bind rfl fun reply => ?_
  split
  · exact asks_pure _
  · exact d.emit_pure_asksOwn _ _

theorem inferred_asksOwn : d.AsksOwn d.inferred := by
  refine asks_ask_bind rfl fun reply => ?_
  split
  · exact asks_pure _
  · split
    · exact asks_pure _
    · rename_i id hid
      exact asks_single hid

theorem schema_asksOwn : d.AsksOwn (schema d) := by
  unfold schema
  split
  · exact asks_pure _
  · refine asks_bind d.inferred_asksOwn fun _ outcome _ => ?_
    split
    · exact asks_pure _
    · exact asks_ask_bind trivial fun _ => d.emit_pure_asksOwn _ _

theorem split_asksOwn : d.AsksOwn (Dataset.split d) := by
  refine asks_ask_bind rfl fun reply => ?_
  split
  · exact asks_pure _
  · exact asks_ask_bind trivial fun _ => d.emit_pure_asksOwn _ _

theorem descriptor_asksOwn : d.AsksOwn (descriptor d) := by
  refine asks_bind d.digest_asksOwn fun _ first hfirst => ?_
  obtain ⟨digest, d₁⟩ := first
  have hsame := (runs_digest.mp hfirst).sameAs
  dsimp only
  split
  · exact asks_pure _
  · refine asks_bind (hsame.asksOwn d₁.schema_asksOwn) fun _ second hsecond => ?_
    obtain ⟨schema, d₂⟩ := second
    have hsame₂ := hsame.trans (runs_schema.mp hsecond).sameAs
    exact asks_bind (hsame₂.asksOwn d₂.profile_asksOwn) fun _ _ _ => asks_pure _

theorem descriptorText_asksOwn : d.AsksOwn (descriptorText d) :=
  asks_bind d.descriptor_asksOwn fun _ _ _ => asks_pure _

end Dataset
end Lineage
