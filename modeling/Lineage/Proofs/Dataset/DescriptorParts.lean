import Lineage.Proofs.Dataset.DigestOnce
import Lineage.Proofs.Dataset.SchemaOnce
/-
  A descriptor is made in parts, and remembers two of them.

  To make a descriptor is to ask for the digest, then for the schema, then for the profile, and
  nothing else (`inParts_iff`).  Where the digest fails nothing is begun; where the profile fails
  the digest and the schema are known all the same, and are not worked out again.

  Neither is ever changed once it is known (`takes_one`).  So however often a descriptor is asked
  for, whatever fails in between and whatever the surroundings answer, all that come differ in
  their profile alone (`descriptors_share_all_but_profile`).
-/

namespace Lineage

open Dialogue

variable {F : Type}

/-! ## Counting rows -/

/-- The question is for a number of rows. -/
def Question.isCount : Question F → Bool
  | countRows _ _ _ => true
  | _ => false

/-- The exchanges of a course in which rows are counted. -/
def counts (said : List (Exchange F)) : List (Exchange F) :=
  said.filter fun x => x.question.isCount

theorem counts_append (first second : List (Exchange F)) :
    counts (first ++ second) = counts first ++ counts second := List.filter_append ..

/-- A report counts no rows. -/
theorem counts_of_isReport {said : List (Exchange F)}
    (h : ∀ x ∈ said, x.question.isReport = true) : counts said = [] := by
  refine filter_of_isReport (fun q hq => ?_) h
  cases q with
  | countRows f t c => exact absurd hq Bool.false_ne_true
  | _ => rfl

/-- The names of the entries of a descriptor. -/
def Descriptor.keys (x : Descriptor) : List String := x.entries.map Prod.fst

namespace Dataset

theorem DigestCourse.counts {d d' : Dataset F} {said : List (Exchange F)}
    {r : Except Failure String} (h : DigestCourse d said r d') : counts said = [] := by
  cases h with
  | known _ => rfl
  | failed _ => rfl
  | @computed hash s told _ _ ht =>
    show Lineage.counts told = []
    exact counts_of_isReport (isReport_of_emit ht)

theorem SchemaCourse.counts {d d' : Dataset F} {said : List (Exchange F)} {r : Option Schema}
    (h : SchemaCourse d said r d') : counts said = [] := by
  have hno : ∀ {asked : List (Exchange F)} {outcome : Except Failure Schema},
      InferredCourse d asked outcome → Lineage.counts asked = [] := by
    intro asked outcome hi
    cases hi with
    | failed => rfl
    | standard _ => rfl
    | external _ => rfl
  cases h with
  | known _ => rfl
  | inferred _ hi => exact hno hi
  | @degraded asked told f _ hi ht =>
    rw [counts_append, hno hi]
    show Lineage.counts told = []
    exact counts_of_isReport (isReport_of_emit ht)

/-- A profile is the answer to one count. -/
theorem ProfileCourse.counts {d : Dataset F} {said : List (Exchange F)}
    {r : Except Failure Profile} (h : ProfileCourse d said r) :
    ∃ reply, counts said =
      [⟨.countRows d.frame d.options.timeout d.options.confidence, reply⟩] ∧
      r = reply.map Profile.mk := by
  cases h with
  | @failed f => exact ⟨.error f, rfl, rfl⟩
  | @counted n told ht =>
    refine ⟨.ok n, ?_, rfl⟩
    show _ :: Lineage.counts told = _
    rw [counts_of_isReport (isReport_of_emit ht)]

/-! ## The parts -/

/-- A turn for the digest, and behind it, if the digest has come, one for the schema and one for
the profile; and what they come to as a descriptor. -/
inductive InParts (d : Dataset F) :
    List (Exchange F) → Except Failure Descriptor → Dataset F → Prop
  | cut {u : Turn F} {f : Failure} (hu : u.Of d) (hcall : u.call = .digest)
      (hanswer : u.answer = .digest (.error f)) : InParts d u.said (.error f) u.after
  | whole {u v w : Turn F} {s : String} {schema : Option Schema}
      {profile : Except Failure Profile} (h : Takes d [u, v, w])
      (hu : u.call = .digest ∧ u.answer = .digest (.ok s))
      (hv : v.call = .schema ∧ v.answer = .schema schema)
      (hw : w.call = .profile ∧ w.answer = .profile profile) :
    InParts d (u.said ++ (v.said ++ w.said)) (profile.map (Descriptor.of d s schema)) w.after

theorem SameAs.descriptor {d e : Dataset F} (h : d.SameAs e) :
    Descriptor.of e = Descriptor.of d := by
  funext s schema profile
  rw [Descriptor.of, Descriptor.of, h.name, h.source]

/-- A turn for the digest follows a course of the digest. -/
theorem course_of_digest {d : Dataset F} {t : Turn F} {r : Except Failure String} (h : t.Of d)
    (hcall : t.call = .digest) (hanswer : t.answer = .digest r) :
    DigestCourse d t.said r t.after := by
  obtain ⟨call, said, answer, after⟩ := t
  subst hcall hanswer
  obtain ⟨r', hr, hsame⟩ := runs_mapView.mp h
  cases hsame
  exact runs_digest.mp hr

/-- A turn for the schema follows a course of the schema. -/
theorem course_of_schema {d : Dataset F} {t : Turn F} {s : Option Schema} (h : t.Of d)
    (hcall : t.call = .schema) (hanswer : t.answer = .schema s) :
    SchemaCourse d t.said s t.after := by
  obtain ⟨call, said, answer, after⟩ := t
  subst hcall hanswer
  obtain ⟨s', hs, hsame⟩ := runs_mapView.mp h
  cases hsame
  exact runs_schema.mp hs

/-- A turn for the profile follows a course of the profile, and changes nothing. -/
theorem course_of_profile {d : Dataset F} {t : Turn F} {r : Except Failure Profile} (h : t.Of d)
    (hcall : t.call = .profile) (hanswer : t.answer = .profile r) :
    ProfileCourse d t.said r ∧ t.after = d := by
  obtain ⟨call, said, answer, after⟩ := t
  subst hcall hanswer
  obtain ⟨r', hr, hsame⟩ := runs_mapView.mp h
  cases hsame
  exact runs_profile.mp hr

/-- **A descriptor is made in parts.** -/
theorem inParts_iff {d d' : Dataset F} {said : List (Exchange F)}
    {r : Except Failure Descriptor} : d.InParts said r d' ↔ DescriptorCourse d said r d' := by
  constructor
  · intro h
    cases h with
    | cut hu hcall hanswer => exact .refused (course_of_digest hu hcall hanswer)
    | @whole u v w s schema profile h hu hv hw =>
      cases h with
      | cons hturn h =>
      cases h with
      | cons vturn h =>
      cases h with
      | cons wturn _ =>
      have hdigest := course_of_digest hturn hu.1 hu.2
      have hschema := course_of_schema vturn hv.1 hv.2
      obtain ⟨hprofile, hafter⟩ := course_of_profile wturn hw.1 hw.2
      rw [hafter, ← (hdigest.sameAs.trans hschema.sameAs).descriptor]
      exact .decided hdigest hschema hprofile
  · intro h
    cases h with
    | @refused said f d' hd =>
      have hturn : Turn.Of d ⟨.digest, said, .digest (.error f), d'⟩ :=
        runs_mapView.mpr ⟨_, runs_digest.mpr hd, rfl⟩
      exact .cut hturn rfl rfl
    | @decided first second third s schema profile d₁ d₂ hd hs hp =>
      have hu : Turn.Of d ⟨.digest, first, .digest (.ok s), d₁⟩ :=
        runs_mapView.mpr ⟨_, runs_digest.mpr hd, rfl⟩
      have hv : Turn.Of d₁ ⟨.schema, second, .schema schema, d'⟩ :=
        runs_mapView.mpr ⟨_, runs_schema.mpr hs, rfl⟩
      have hw : Turn.Of d' ⟨.profile, third, .profile profile, d'⟩ :=
        runs_mapView.mpr ⟨_, runs_profile.mpr ⟨hp, rfl⟩, rfl⟩
      rw [(hd.sameAs.trans hs.sameAs).descriptor]
      exact .whole (.cons hu (.cons hv (.cons hw .nil))) ⟨rfl, rfl⟩ ⟨rfl, rfl⟩ ⟨rfl, rfl⟩

/-! ## Where it can fail -/

/-- A descriptor that fails for want of a digest has begun nothing.  Every other one leaves digest
and schema known, and the only count in it decides. -/
theorem DescriptorCourse.ends {d d' : Dataset F} {said : List (Exchange F)}
    {r : Except Failure Descriptor} (h : DescriptorCourse d said r d') :
    (∃ f, said = [⟨.planHash d.frame, .error f⟩] ∧ r = .error f ∧ d' = d) ∨
    ∃ s schema reply, d'.knownDigest = some s ∧ d'.knownSchema = some schema ∧
      counts said = [⟨.countRows d.frame d.options.timeout d.options.confidence, reply⟩] ∧
      r = reply.map fun n => Descriptor.of d s schema ⟨n⟩ := by
  cases h with
  | @refused said f d' hd =>
    cases hd with
    | failed _ => exact .inl ⟨f, rfl, rfl, rfl⟩
  | @decided first second third s schema profile d₁ d₂ hd hs hp =>
    have hsame := hd.sameAs.trans hs.sameAs
    obtain ⟨hschema, hdigest⟩ := hs.remembers
    obtain ⟨reply, hcounts, rfl⟩ := hp.counts
    refine .inr ⟨s, schema, reply, hdigest.trans hd.remembers, hschema, ?_, ?_⟩
    · rw [counts_append, counts_append, hd.counts, hs.counts, hcounts, hsame.frame, hsame.options]
      rfl
    · rw [hsame.descriptor]
      cases reply with
      | error f => rfl
      | ok n => rfl

/-! ## Calls for a descriptor -/

/-- The call is for a descriptor, as it is or in JSON. -/
def ViewCall.makesDescriptor : ViewCall → Bool
  | descriptor | descriptorText => true
  | digest | profile | schema | split => false

/-- The answer in which a descriptor comes: in JSON if that is called for, otherwise as it is. -/
def ViewCall.answerOf (c : ViewCall) (r : Except Failure Descriptor) : ViewAnswer :=
  match c with
  | descriptorText => .descriptorText (r.map fun x => x.toJson.render)
  | _ => .descriptor r

theorem turn_descriptor_iff {d : Dataset F} {t : Turn F} (hcall : t.call.makesDescriptor = true) :
    t.Of d ↔ ∃ r, DescriptorCourse d t.said r t.after ∧ t.answer = t.call.answerOf r := by
  obtain ⟨call, said, answer, after⟩ := t
  cases call with
  | descriptor =>
    show Runs (mapView .descriptor Dataset.descriptor d) said (answer, after) ↔ _
    rw [runs_mapView]
    exact exists_congr fun r => and_congr_left fun _ => runs_descriptor
  | descriptorText =>
    show Runs (mapView .descriptorText Dataset.descriptorText d) said (answer, after) ↔ _
    rw [runs_mapView]
    constructor
    · rintro ⟨text, htext, rfl⟩
      obtain ⟨r, hr, rfl⟩ := runs_descriptorText.mp htext
      exact ⟨r, hr, rfl⟩
    · rintro ⟨r, hr, hanswer⟩
      exact ⟨_, runs_descriptorText.mpr ⟨r, hr, rfl⟩, hanswer⟩
  | digest | profile | schema | split => cases hcall

/-- Only a call for a descriptor, as it is, is answered by one. -/
theorem call_of_descriptor {d : Dataset F} {t : Turn F} {r : Except Failure Descriptor}
    (h : t.Of d) (hanswer : t.answer = .descriptor r) : t.call = .descriptor := by
  obtain ⟨call, said, answer, after⟩ := t
  subst hanswer
  cases call with
  | descriptor => rfl
  | digest | profile | schema | split | descriptorText =>
    obtain ⟨a, -, ha⟩ := runs_mapView.mp h
    cases ha

/-! ## Runs -/

/-- What no turn changes once it is there is the same in a whole run, from where it is there on. -/
theorem takes_one {α : Type} [Inhabited α] (cell : Dataset F → Option α)
    (hkeep : ∀ {d : Dataset F} {t : Turn F} {a : α}, t.Of d → cell d = some a →
      cell t.after = some a) {d : Dataset F} {turns : List (Turn F)} (h : Takes d turns) :
    ∃ a, ∀ t ∈ turns, ∀ b, cell t.after = some b → b = a := by
  -- From a value on all turns have that value.
  have hall : ∀ {d : Dataset F} {turns : List (Turn F)} {a : α}, Takes d turns →
      cell d = some a → ∀ t ∈ turns, cell t.after = some a := by
    intro d turns a h
    induction h with
    | nil => exact fun _ t ht => absurd ht List.not_mem_nil
    | @cons d t rest ht _ ih =>
      intro hd u hu
      rcases List.mem_cons.mp hu with rfl | hu
      · exact hkeep ht hd
      · exact ih (hkeep ht hd) u hu
  induction h with
  | nil => exact ⟨default, fun t ht => absurd ht List.not_mem_nil⟩
  | @cons d t rest ht hrest ih =>
    cases hcell : cell t.after with
    | some a =>
      refine ⟨a, fun u hu b hb => ?_⟩
      rcases List.mem_cons.mp hu with rfl | hu
      · exact Option.some.inj (hb.symm.trans hcell)
      · exact Option.some.inj (hb.symm.trans (hall hrest hcell u hu))
    | none =>
      obtain ⟨a, ha⟩ := ih
      refine ⟨a, fun u hu b hb => ?_⟩
      rcases List.mem_cons.mp hu with rfl | hu
      · exact nomatch hb.symm.trans hcell
      · exact ha u hu b hb

theorem takes_sameAs {d : Dataset F} {turns : List (Turn F)} (h : Takes d turns) :
    ∀ t ∈ turns, ∃ e, t.Of e ∧ d.SameAs e := by
  induction h with
  | nil => exact fun t ht => absurd ht List.not_mem_nil
  | @cons d t rest ht _ ih =>
    intro u hu
    rcases List.mem_cons.mp hu with rfl | hu
    · exact ⟨d, ht, .refl d⟩
    · obtain ⟨e, hof, hsame⟩ := ih u hu
      exact ⟨e, hof, (turn_sameAs ht).trans hsame⟩

/-- In a run there are one digest and one schema for all descriptors: those that are known behind
any of its turns. -/
theorem takes_oneMemory {d : Dataset F} {turns : List (Turn F)} (h : Takes d turns) :
    ∃ s schema, ∀ t ∈ turns, (∀ s', t.after.knownDigest = some s' → s' = s) ∧
      ∀ schema', t.after.knownSchema = some schema' → schema' = schema := by
  obtain ⟨s, hs⟩ := takes_one knownDigest (fun ht hk => (turn_settled ht hk).memory) h
  obtain ⟨schema, hschema⟩ :=
    takes_one knownSchema (fun ht hk => (turn_keepsOutcome ht hk).memory) h
  exact ⟨s, schema, fun t ht => ⟨hs t ht, hschema t ht⟩⟩

/-- In a run, every call for a descriptor fails, or it gives the one that has the digest and the
schema of the run, and as its profile the answer to its own count. -/
theorem takes_descriptors {d : Dataset F} {turns : List (Turn F)} (h : Takes d turns) :
    ∃ s schema, ∀ t ∈ turns, t.call.makesDescriptor = true →
      (∃ f, t.answer = t.call.answerOf (.error f)) ∨
      ∃ n, counts t.said =
          [⟨.countRows d.frame d.options.timeout d.options.confidence, .ok n⟩] ∧
        t.answer = t.call.answerOf (.ok (Descriptor.of d s schema ⟨n⟩)) := by
  obtain ⟨s, schema, hmemory⟩ := takes_oneMemory h
  refine ⟨s, schema, fun t ht hcall => ?_⟩
  obtain ⟨hdigest, hschema⟩ := hmemory t ht
  obtain ⟨e, hof, hsame⟩ := takes_sameAs h t ht
  obtain ⟨r, hr, hanswer⟩ := (turn_descriptor_iff hcall).mp hof
  rcases hr.ends with ⟨f, -, rfl, -⟩ | ⟨s', schema', reply, hs', hschema', hcounts, rfl⟩
  · exact .inl ⟨f, hanswer⟩
  · cases reply with
    | error f => exact .inl ⟨f, hanswer⟩
    | ok n =>
      obtain rfl := hdigest s' hs'
      obtain rfl := hschema schema' hschema'
      refine .inr ⟨n, ?_, ?_⟩
      · rw [hcounts, hsame.frame, hsame.options]
      · rw [hanswer, hsame.descriptor]
        rfl

/-- **A descriptor is made in parts, and all descriptors of a dataset differ in their profile
alone.**  To ask for one is to ask for the digest, then, if it has come, for the schema, then for the
profile: the same is asked and told, and the same is remembered.  Without a digest the failure of the
frame is the answer, and nothing else has been asked or changed; otherwise digest and schema are
known afterwards, and the answer to the only count decides.  In a run there are one digest and one
schema, so that every call for a descriptor fails or gives the one of these and of its own count; so
any two descriptors in a run have the same entries, and they are the same but for the profile. -/
theorem descriptors_share_all_but_profile (d : Dataset F) :
    (∀ t : Turn F, t.call.makesDescriptor = true →
      (t.Of d ↔ ∃ r, d.InParts t.said r t.after ∧ t.answer = t.call.answerOf r)) ∧
    (∀ t : Turn F, t.call.makesDescriptor = true → t.Of d →
      (∃ f, t.said = [⟨.planHash d.frame, .error f⟩] ∧ t.answer = t.call.answerOf (.error f) ∧
        t.after = d) ∨
      ∃ s schema reply, t.after.knownDigest = some s ∧ t.after.knownSchema = some schema ∧
        counts t.said = [⟨.countRows d.frame d.options.timeout d.options.confidence, reply⟩] ∧
        t.answer = t.call.answerOf (reply.map fun n => Descriptor.of d s schema ⟨n⟩)) ∧
    ∀ turns, Takes d turns →
      (∃ s schema, ∀ t ∈ turns, t.call.makesDescriptor = true →
        (∃ f, t.answer = t.call.answerOf (.error f)) ∨
        ∃ n, counts t.said =
            [⟨.countRows d.frame d.options.timeout d.options.confidence, .ok n⟩] ∧
          t.answer = t.call.answerOf (.ok (Descriptor.of d s schema ⟨n⟩))) ∧
      ∀ t ∈ turns, ∀ u ∈ turns, ∀ x y, t.answer = .descriptor (.ok x) →
        u.answer = .descriptor (.ok y) →
        y.keys = x.keys ∧ y = { x with profile := y.profile } := by
  refine ⟨fun t hcall => ?_, fun t hcall h => ?_, fun turns h => ⟨takes_descriptors h, ?_⟩⟩
  · rw [turn_descriptor_iff hcall]
    exact exists_congr fun r => and_congr_left fun _ => inParts_iff.symm
  · obtain ⟨r, hr, hanswer⟩ := (turn_descriptor_iff hcall).mp h
    rcases hr.ends with ⟨f, hsaid, rfl, hafter⟩ | ⟨s, schema, reply, hs, hschema, hcounts, rfl⟩
    · exact .inl ⟨f, hsaid, hanswer, hafter⟩
    · exact .inr ⟨s, schema, reply, hs, hschema, hcounts, hanswer⟩
  · obtain ⟨s, schema, hall⟩ := takes_descriptors h
    -- An answer that is a descriptor belongs to a call for one.
    have hof : ∀ t ∈ turns, ∀ x, t.answer = .descriptor (.ok x) →
        ∃ n, x = Descriptor.of d s schema ⟨n⟩ := by
      intro t ht x hx
      obtain ⟨e, hturn, -⟩ := takes_sameAs h t ht
      have hcall := call_of_descriptor hturn hx
      have hanswers := hall t ht (congrArg ViewCall.makesDescriptor hcall)
      rw [hcall, hx] at hanswers
      rcases hanswers with ⟨f, hf⟩ | ⟨n, -, hn⟩
      · cases hf
      · cases hn
        exact ⟨n, rfl⟩
    intro t ht u hu x y hx hy
    obtain ⟨n, rfl⟩ := hof t ht x hx
    obtain ⟨m, rfl⟩ := hof u hu y hy
    exact ⟨rfl, rfl⟩

/-- A dataset over a stand-in for a frame that was given a digest. -/
def supplied : Dataset Unit :=
  fresh () (.table (.tableName "t")) ⟨none, none, some "d"⟩ .standard

/-- The same dataset once its schema is known. -/
def suppliedKnown : Dataset Unit :=
  { supplied with knownSchema := some (some ⟨[⟨.long, "x", true⟩]⟩) }

/-- A call for a descriptor of that dataset once its schema is known, with a count in it. -/
def laterDescriptor (n : UInt64) : Turn Unit :=
  ⟨.descriptor,
    [⟨.countRows () supplied.options.timeout supplied.options.confidence, .ok n⟩],
    .descriptor (.ok (Descriptor.of supplied "d" (some ⟨[⟨.long, "x", true⟩]⟩) ⟨n⟩)), suppliedKnown⟩

/-- A descriptor that fails for want of a count, and two more for which the counts differ. -/
def threeDescriptors (f : Failure) : List (Turn Unit) :=
  [⟨.descriptor,
    [⟨.columns (), .ok [("x", .i64)]⟩,
     ⟨.countRows () supplied.options.timeout supplied.options.confidence, .error f⟩],
    .descriptor (.error f), suppliedKnown⟩,
   laterDescriptor 3, laterDescriptor 4]

theorem takes_threeDescriptors (f : Failure) : Takes supplied (threeDescriptors f) := by
  have hinferred : SchemaCourse supplied [⟨.columns (), .ok [("x", .i64)]⟩]
      (some ⟨[⟨.long, "x", true⟩]⟩) suppliedKnown := .inferred rfl (.standard rfl)
  have hfirst := DescriptorCourse.decided (.known rfl) hinferred (.failed (f := f))
  have hlater : ∀ n, Turn.Of suppliedKnown (laterDescriptor n) := by
    intro n
    have hcount : ProfileCourse suppliedKnown
        [⟨.countRows () supplied.options.timeout supplied.options.confidence, .ok n⟩] (.ok ⟨n⟩) :=
      .counted (runs_pure.mpr ⟨rfl, rfl⟩)
    have hcourse := DescriptorCourse.decided (d := suppliedKnown) (.known rfl) (.known rfl) hcount
    exact (turn_descriptor_iff rfl).mpr ⟨_, hcourse, rfl⟩
  refine .cons ((turn_descriptor_iff rfl).mpr ⟨_, hfirst, rfl⟩) ?_
  exact .cons (hlater 3) (.cons (hlater 4) .nil)

theorem later_descriptors_differ_in_profile :
    Takes supplied (threeDescriptors (.tableNotFound "t")) ∧
      ∃ x y, (laterDescriptor 3).answer = .descriptor (.ok x) ∧
        (laterDescriptor 4).answer = .descriptor (.ok y) ∧
        y.keys = x.keys ∧ y = { x with profile := y.profile } := by
  have htakes := takes_threeDescriptors (.tableNotFound "t")
  obtain ⟨-, hshare⟩ := (descriptors_share_all_but_profile supplied).2.2 _ htakes
  refine ⟨htakes, _, _, rfl, rfl, hshare (laterDescriptor 3) ?_ (laterDescriptor 4) ?_ _ _ rfl rfl⟩
  · exact List.mem_cons_of_mem _ List.mem_cons_self
  · exact List.mem_cons_of_mem _ (List.mem_cons_of_mem _ List.mem_cons_self)

end Dataset
end Lineage
