import Lineage.Dataset.Views
import Lineage.Proofs.Dialogue.Course
/-
  Courses of the views of a dataset.

  Each view has a predicate that lists its courses: what is asked, of whom and with which answers,
  what the observer is told, what the view answers and what the dataset remembers afterwards.  The
  theorems `runs_digest`, `runs_profile`, ... say that these are all courses there are, whatever the
  surroundings answer.  Whatever is said about views later is read off these lists.
-/

namespace Lineage.Dataset

open Dialogue

variable {F : Type}

/-! ## Events -/

/-- Tells the observer of several events, one after the other. -/
def emitAll (d : Dataset F) : List Event → Dialogue F Unit
  | [] => pure ()
  | e :: rest => do
    d.emit e
    d.emitAll rest

/-- In these exchanges the observer of the dataset is told of exactly these events, in order. -/
def Told (d : Dataset F) (events : List Event) (said : List (Exchange F)) : Prop :=
  Runs (d.emitAll events) (reports said) ()

theorem isReport_of_emit {d : Dataset F} {e : Event} {said : List (Exchange F)} {u : Unit}
    (h : Runs (d.emit e) said u) : ∀ x ∈ said, x.question.isReport = true := by
  rw [emit] at h
  cases ho : d.options.observer with
  | none =>
    rw [ho] at h
    rw [(runs_pure.mp h).1]
    simp
  | some o =>
    rw [ho] at h
    exact Observer.isReport_of_notify h

/-- Telling of an event and then being done. -/
theorem runs_emit_pure {α : Type} {d : Dataset F} {e : Event} {said : List (Exchange F)} {a b : α} :
    Runs (do d.emit e; pure a) said b ↔ Runs (d.emit e) said () ∧ b = a := by
  rw [runs_bind]
  constructor
  · rintro ⟨told, ⟨⟩, last, rfl, ht, hend⟩
    obtain ⟨rfl, rfl⟩ := runs_pure.mp hend
    rw [List.append_nil]
    exact ⟨ht, rfl⟩
  · rintro ⟨ht, rfl⟩
    exact ⟨said, (), [], by simp, ht, runs_pure.mpr ⟨rfl, rfl⟩⟩

/-- Where nobody reports, the observer is told of nothing. -/
theorem told_nil {d : Dataset F} {said : List (Exchange F)} (h : reports said = []) :
    d.Told [] said := by
  rw [Told, h]
  exact .done ()

theorem told_emit {d : Dataset F} {e : Event} {said : List (Exchange F)}
    (h : Runs (d.emit e) said ()) : d.Told [e] said := by
  rw [Told, reports, List.filter_eq_self.mpr (isReport_of_emit h)]
  exact runs_bind.mpr ⟨said, (), [], by simp, h, .done ()⟩

/-- Being told of some events and then of others is being told of them all. -/
theorem runs_emitAll_append {d : Dataset F} {second : List Event} :
    ∀ {first : List Event} {said more : List (Exchange F)},
      Runs (d.emitAll first) said () → Runs (d.emitAll second) more () →
      Runs (d.emitAll (first ++ second)) (said ++ more) ()
  | [], said, more, h, k => by
    rw [(runs_pure.mp h).1]
    exact k
  | e :: rest, said, more, h, k => by
    obtain ⟨now, ⟨⟩, later, rfl, he, hrest⟩ := runs_bind.mp h
    have hboth := runs_emitAll_append hrest k
    rw [List.append_assoc]
    exact runs_bind.mpr ⟨now, (), later ++ more, rfl, he, hboth⟩

theorem told_append {d : Dataset F} {first second : List Event} {said more : List (Exchange F)}
    (h : d.Told first said) (k : d.Told second more) :
    d.Told (first ++ second) (said ++ more) := by
  rw [Told, reports_append]
  exact runs_emitAll_append h k

/-- In these exchanges the observer is told of exactly these events of one kind, beside events of
other kinds. -/
def NewsOf (d : Dataset F) (kind : Event → Bool) (said : List (Exchange F)) (news : List Event) :
    Prop :=
  ∃ events, d.Told events said ∧ events.filter kind = news

theorem NewsOf.append {d : Dataset F} {kind : Event → Bool} {first second : List (Exchange F)}
    {news more : List Event} (h : d.NewsOf kind first news) (k : d.NewsOf kind second more) :
    d.NewsOf kind (first ++ second) (news ++ more) := by
  obtain ⟨events, ht, rfl⟩ := h
  obtain ⟨others, hu, rfl⟩ := k
  exact ⟨events ++ others, told_append ht hu, List.filter_append ..⟩

theorem newsOf_nil {d : Dataset F} {kind : Event → Bool} {said : List (Exchange F)}
    (h : reports said = []) : d.NewsOf kind said [] := ⟨[], told_nil h, rfl⟩

theorem newsOf_emit {d : Dataset F} {kind : Event → Bool} {e : Event} {told : List (Exchange F)}
    (h : Runs (d.emit e) told ()) : d.NewsOf kind told ([e].filter kind) :=
  ⟨[e], told_emit h, rfl⟩

/-! ## What stays -/

/-- A dataset and the same one at another time: they may differ in what they remember. -/
structure SameAs (d e : Dataset F) : Prop where
  frame : e.frame = d.frame
  source : e.source = d.source
  targets : e.targets = d.targets
  name : e.name = d.name
  options : e.options = d.options

theorem SameAs.refl (d : Dataset F) : d.SameAs d := ⟨rfl, rfl, rfl, rfl, rfl⟩

theorem SameAs.symm {d e : Dataset F} (h : d.SameAs e) : e.SameAs d :=
  ⟨h.frame.symm, h.source.symm, h.targets.symm, h.name.symm, h.options.symm⟩

theorem SameAs.trans {d e f : Dataset F} (h : d.SameAs e) (k : e.SameAs f) : d.SameAs f :=
  ⟨k.frame.trans h.frame, k.source.trans h.source, k.targets.trans h.targets,
    k.name.trans h.name, k.options.trans h.options⟩

theorem SameAs.emit {d e : Dataset F} (h : d.SameAs e) : e.emit = d.emit := by
  funext event
  rw [Dataset.emit, Dataset.emit, context, context, h.options, h.name, h.source]

theorem SameAs.told {d e : Dataset F} (h : d.SameAs e) {events : List Event}
    {said : List (Exchange F)} (ht : e.Told events said) : d.Told events said := by
  have hall : ∀ events : List Event, e.emitAll events = d.emitAll events := by
    intro events
    induction events with
    | nil => rfl
    | cons event rest ih => rw [emitAll, emitAll, ih, h.emit]
  rw [Told, ← hall]
  exact ht

theorem SameAs.newsOf {d e : Dataset F} (h : d.SameAs e) {kind : Event → Bool}
    {said : List (Exchange F)} {news : List Event} (hn : e.NewsOf kind said news) :
    d.NewsOf kind said news := by
  obtain ⟨events, ht, hf⟩ := hn
  exact ⟨events, h.told ht, hf⟩

/-! ## Digest, profile and rows -/

/-- The courses of the digest: it is known, or the frame has no hash, or it is worked out from
that hash and kept. -/
inductive DigestCourse (d : Dataset F) :
    List (Exchange F) → Except Failure String → Dataset F → Prop
  | known {s : String} (h : d.knownDigest = some s) : DigestCourse d [] (.ok s) d
  | failed {f : Failure} (h : d.knownDigest = none) :
    DigestCourse d [⟨.planHash d.frame, .error f⟩] (.error f) d
  | computed {hash : Int64} {s : String} {told : List (Exchange F)} (h : d.knownDigest = none)
      (hs : Digest.ofHash hash = .ok s) (ht : Runs (d.emit (.digest s)) told ()) :
    DigestCourse d (⟨.planHash d.frame, .ok hash⟩ :: ⟨.note (.digestComputed d.name s), ()⟩ :: told)
      (.ok s) { d with knownDigest := some s }

/-- Every hash has a digest. -/
theorem ofHash_ok (hash : Int64) : ∃ s, Digest.ofHash hash = .ok s := ⟨_, rfl⟩

theorem runs_digest {d d' : Dataset F} {said : List (Exchange F)} {r : Except Failure String} :
    Runs (digest d) said (r, d') ↔ DigestCourse d said r d' := by
  rw [digest]
  constructor
  · intro h
    cases hk : d.knownDigest with
    | some s =>
      rw [hk] at h
      obtain ⟨rfl, hr⟩ := runs_pure.mp h
      cases hr
      exact .known hk
    | none =>
      rw [hk] at h
      obtain ⟨reply, rest, rfl, hreply⟩ := runs_ask_bind.mp h
      cases reply with
      | error f =>
        obtain ⟨rfl, hr⟩ := runs_pure.mp hreply
        cases hr
        exact .failed hk
      | ok hash =>
        obtain ⟨s, hs⟩ := ofHash_ok hash
        simp only [Except.bind, hs] at hreply
        obtain ⟨⟨⟩, rest, rfl, hnoted⟩ := runs_ask_bind.mp hreply
        obtain ⟨ht, hr⟩ := runs_emit_pure.mp hnoted
        cases hr
        exact .computed hk hs ht
  · intro h
    cases h with
    | known hk =>
      rw [hk]
      exact runs_pure.mpr ⟨rfl, rfl⟩
    | failed hk =>
      rw [hk]
      exact runs_ask_bind.mpr ⟨_, [], rfl, runs_pure.mpr ⟨rfl, rfl⟩⟩
    | @computed hash s told hk hs ht =>
      rw [hk]
      refine runs_ask_bind.mpr ⟨.ok hash, _, rfl, ?_⟩
      simp only [Except.bind, hs]
      exact runs_ask_bind.mpr ⟨(), _, rfl, runs_emit_pure.mpr ⟨ht, rfl⟩⟩

/-- The courses of the profile: the rows cannot be counted, or they are, and nothing is kept. -/
inductive ProfileCourse (d : Dataset F) : List (Exchange F) → Except Failure Profile → Prop
  | failed {f : Failure} :
    ProfileCourse d [⟨.countRows d.frame d.options.timeout d.options.confidence, .error f⟩]
      (.error f)
  | counted {n : UInt64} {told : List (Exchange F)} (ht : Runs (d.emit (.profile ⟨n⟩)) told ()) :
    ProfileCourse d
      (⟨.countRows d.frame d.options.timeout d.options.confidence, .ok n⟩ :: told) (.ok ⟨n⟩)

theorem runs_profile {d d' : Dataset F} {said : List (Exchange F)} {r : Except Failure Profile} :
    Runs (profile d) said (r, d') ↔ ProfileCourse d said r ∧ d' = d := by
  rw [profile]
  constructor
  · intro h
    obtain ⟨reply, rest, rfl, hreply⟩ := runs_ask_bind.mp h
    cases reply with
    | error f =>
      obtain ⟨rfl, hr⟩ := runs_pure.mp hreply
      cases hr
      exact ⟨.failed, rfl⟩
    | ok n =>
      obtain ⟨ht, hr⟩ := runs_emit_pure.mp hreply
      cases hr
      exact ⟨.counted ht, rfl⟩
  · rintro ⟨h, rfl⟩
    cases h with
    | failed => exact runs_ask_bind.mpr ⟨_, [], rfl, runs_pure.mpr ⟨rfl, rfl⟩⟩
    | @counted n told ht =>
      exact runs_ask_bind.mpr ⟨.ok n, told, rfl, runs_emit_pure.mpr ⟨ht, rfl⟩⟩

/-- The courses of the first rows: there are none to be had, or they are split, and nothing is
kept. -/
inductive SplitCourse (d : Dataset F) : List (Exchange F) → Except Failure Split → Prop
  | failed {f : Failure} :
    SplitCourse d [⟨.firstRows d.frame d.options.rowLimit, .error f⟩] (.error f)
  | materialized {t : Table} {told : List (Exchange F)}
      (ht : Runs (d.emit (.materialized t.height t.width d.options.rowLimit)) told ()) :
    SplitCourse d
      (⟨.firstRows d.frame d.options.rowLimit, .ok t⟩ ::
        ⟨.note (.rowsMaterialized d.name t.height d.options.rowLimit), ()⟩ :: told)
      (splitTable d.targets t)

theorem runs_split {d d' : Dataset F} {said : List (Exchange F)} {r : Except Failure Split} :
    Runs (split d) said (r, d') ↔ SplitCourse d said r ∧ d' = d := by
  rw [split]
  constructor
  · intro h
    obtain ⟨reply, rest, rfl, hreply⟩ := runs_ask_bind.mp h
    cases reply with
    | error f =>
      obtain ⟨rfl, hr⟩ := runs_pure.mp hreply
      cases hr
      exact ⟨.failed, rfl⟩
    | ok t =>
      obtain ⟨⟨⟩, rest, rfl, hnoted⟩ := runs_ask_bind.mp hreply
      obtain ⟨ht, hr⟩ := runs_emit_pure.mp hnoted
      cases hr
      exact ⟨.materialized ht, rfl⟩
  · rintro ⟨h, rfl⟩
    cases h with
    | failed => exact runs_ask_bind.mpr ⟨_, [], rfl, runs_pure.mpr ⟨rfl, rfl⟩⟩
    | @materialized t told ht =>
      refine runs_ask_bind.mpr ⟨.ok t, _, rfl, runs_ask_bind.mpr ⟨(), told, rfl, ?_⟩⟩
      exact runs_emit_pure.mpr ⟨ht, rfl⟩

/-! ## Schema -/

/-- The courses of working out a schema: the frame has no columns to tell, or they are given to
the inferrer. -/
inductive InferredCourse (d : Dataset F) : List (Exchange F) → Except Failure Schema → Prop
  | failed {f : Failure} : InferredCourse d [⟨.columns d.frame, .error f⟩] (.error f)
  | standard {columns : FrameSchema} (h : d.options.inferrer = .standard) :
    InferredCourse d [⟨.columns d.frame, .ok columns⟩] (Schema.infer columns)
  | external {columns : FrameSchema} {id : Nat} {r : Except Failure Schema}
      (h : d.options.inferrer = .external id) :
    InferredCourse d [⟨.columns d.frame, .ok columns⟩, ⟨.infer id columns, r⟩] r

theorem runs_inferred {d : Dataset F} {said : List (Exchange F)} {r : Except Failure Schema} :
    Runs d.inferred said r ↔ InferredCourse d said r := by
  rw [inferred]
  constructor
  · intro h
    obtain ⟨reply, rest, rfl, hreply⟩ := runs_ask_bind.mp h
    cases reply with
    | error f =>
      obtain ⟨rfl, rfl⟩ := runs_pure.mp hreply
      exact .failed
    | ok columns =>
      cases hi : d.options.inferrer with
      | standard =>
        simp only [hi] at hreply
        obtain ⟨rfl, rfl⟩ := runs_pure.mp hreply
        exact .standard hi
      | external id =>
        simp only [hi] at hreply
        rw [runs_single.mp hreply]
        exact .external hi
  · intro h
    cases h with
    | failed => exact runs_ask_bind.mpr ⟨_, [], rfl, runs_pure.mpr ⟨rfl, rfl⟩⟩
    | @standard columns hi =>
      refine runs_ask_bind.mpr ⟨.ok columns, [], rfl, ?_⟩
      simp only [hi]
      exact runs_pure.mpr ⟨rfl, rfl⟩
    | @external columns id _ hi =>
      refine runs_ask_bind.mpr ⟨.ok columns, _, rfl, ?_⟩
      simp only [hi]
      exact runs_single.mpr rfl

/-- The courses of the schema: its outcome is known, or it is worked out and kept, also if there is
none. -/
inductive SchemaCourse (d : Dataset F) : List (Exchange F) → Option Schema → Dataset F → Prop
  | known {s : Option Schema} (h : d.knownSchema = some s) : SchemaCourse d [] s d
  | inferred {asked : List (Exchange F)} {s : Schema} (h : d.knownSchema = none)
      (hi : InferredCourse d asked (.ok s)) :
    SchemaCourse d asked (some s) { d with knownSchema := some (some s) }
  | degraded {asked told : List (Exchange F)} {f : Failure} (h : d.knownSchema = none)
      (hi : InferredCourse d asked (.error f)) (ht : Runs (d.emit (.schemaDegraded f)) told ()) :
    SchemaCourse d (asked ++ ⟨.note (.schemaFailed d.name f), ()⟩ :: told) none
      { d with knownSchema := some none }

theorem runs_schema {d d' : Dataset F} {said : List (Exchange F)} {r : Option Schema} :
    Runs (schema d) said (r, d') ↔ SchemaCourse d said r d' := by
  rw [schema]
  constructor
  · intro h
    cases hk : d.knownSchema with
    | some s =>
      simp only [hk] at h
      obtain ⟨rfl, hr⟩ := runs_pure.mp h
      cases hr
      exact .known hk
    | none =>
      simp only [hk] at h
      obtain ⟨asked, outcome, rest, rfl, hasked, houtcome⟩ := runs_bind.mp h
      have hi := runs_inferred.mp hasked
      cases outcome with
      | error f =>
        obtain ⟨⟨⟩, rest, rfl, hnoted⟩ := runs_ask_bind.mp houtcome
        obtain ⟨ht, hr⟩ := runs_emit_pure.mp hnoted
        cases hr
        exact .degraded hk hi ht
      | ok s =>
        obtain ⟨rfl, hr⟩ := runs_pure.mp houtcome
        cases hr
        rw [List.append_nil]
        exact .inferred hk hi
  · intro h
    cases h with
    | known hk =>
      simp only [hk]
      exact runs_pure.mpr ⟨rfl, rfl⟩
    | @inferred _ s hk hi =>
      simp only [hk]
      exact runs_bind.mpr
        ⟨said, .ok s, [], by simp, runs_inferred.mpr hi, runs_pure.mpr ⟨rfl, rfl⟩⟩
    | @degraded asked told f hk hi ht =>
      simp only [hk]
      refine runs_bind.mpr ⟨asked, .error f, _, rfl, runs_inferred.mpr hi, ?_⟩
      exact runs_ask_bind.mpr ⟨(), told, rfl, runs_emit_pure.mpr ⟨ht, rfl⟩⟩

/-! ## Descriptor -/

/-- The courses of the descriptor: there is no digest, or all three parts are asked for and the
profile decides. -/
inductive DescriptorCourse (d : Dataset F) :
    List (Exchange F) → Except Failure Descriptor → Dataset F → Prop
  | refused {said : List (Exchange F)} {f : Failure} {d' : Dataset F}
      (h : DigestCourse d said (.error f) d') : DescriptorCourse d said (.error f) d'
  | decided {first second third : List (Exchange F)} {s : String} {schema : Option Schema}
      {profile : Except Failure Profile} {d₁ d₂ : Dataset F}
      (hdigest : DigestCourse d first (.ok s) d₁) (hschema : SchemaCourse d₁ second schema d₂)
      (hprofile : ProfileCourse d₂ third profile) :
    DescriptorCourse d (first ++ (second ++ third)) (profile.map (Descriptor.of d₂ s schema)) d₂

theorem runs_descriptor {d d' : Dataset F} {said : List (Exchange F)}
    {r : Except Failure Descriptor} :
    Runs (descriptor d) said (r, d') ↔ DescriptorCourse d said r d' := by
  rw [descriptor]
  constructor
  · intro h
    obtain ⟨first, ⟨digest, d₁⟩, rest, rfl, hdigest, hrest⟩ := runs_bind.mp h
    have hd := runs_digest.mp hdigest
    cases digest with
    | error f =>
      obtain ⟨rfl, hr⟩ := runs_pure.mp hrest
      cases hr
      rw [List.append_nil]
      exact .refused hd
    | ok s =>
      obtain ⟨second, ⟨schema, d₂⟩, rest, rfl, hschema, hrest⟩ := runs_bind.mp hrest
      obtain ⟨third, ⟨profile, d₃⟩, rest, rfl, hprofile, hend⟩ := runs_bind.mp hrest
      obtain ⟨hp, rfl⟩ := runs_profile.mp hprofile
      obtain ⟨rfl, hr⟩ := runs_pure.mp hend
      cases hr
      rw [List.append_nil]
      exact .decided hd (runs_schema.mp hschema) hp
  · intro h
    cases h with
    | refused hd =>
      exact runs_bind.mpr
        ⟨said, _, [], by simp, runs_digest.mpr hd, runs_pure.mpr ⟨rfl, rfl⟩⟩
    | decided hd hs hp =>
      refine runs_bind.mpr ⟨_, _, _, rfl, runs_digest.mpr hd, ?_⟩
      refine runs_bind.mpr ⟨_, _, _, rfl, runs_schema.mpr hs, ?_⟩
      exact runs_bind.mpr
        ⟨_, _, [], by simp, runs_profile.mpr ⟨hp, rfl⟩, runs_pure.mpr ⟨rfl, rfl⟩⟩

theorem runs_descriptorText {d d' : Dataset F} {said : List (Exchange F)}
    {r : Except Failure String} :
    Runs (descriptorText d) said (r, d') ↔
      ∃ x, DescriptorCourse d said x d' ∧ r = x.map fun y => y.toJson.render := by
  rw [descriptorText, runs_bind]
  constructor
  · rintro ⟨first, ⟨x, d₁⟩, rest, rfl, hx, hend⟩
    obtain ⟨rfl, hr⟩ := runs_pure.mp hend
    cases hr
    rw [List.append_nil]
    exact ⟨x, runs_descriptor.mp hx, rfl⟩
  · rintro ⟨x, hx, rfl⟩
    exact ⟨said, (x, d'), [], by simp, runs_descriptor.mpr hx, runs_pure.mpr ⟨rfl, rfl⟩⟩

end Lineage.Dataset
