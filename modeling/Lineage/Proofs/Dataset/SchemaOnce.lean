import Lineage.Proofs.Dataset.Making
import Lineage.Proofs.Dataset.Turns
/-
  A schema is worked out once, whatever comes of it.

  The frame and the inferrer may answer as they like, and differently each time.  The first call
  that gets as far as the schema settles it: the frame is asked for its columns, the inferrer for
  what it makes of them, and what comes of it is kept, be it a schema or the knowledge that there is
  none.  In the second case the observer is told of the failure, this once.  A descriptor gets as
  far as the schema only if its digest has come.

  A digest fails again and again until it comes (`DigestOnce`); a schema is not tried twice.  What a
  turn does to the schema is told in one place, `turn_cases`; the rest follows for a turn in each of
  the two states, and then for all turns (`schema_settles_at_first_access`).
-/

namespace Lineage

open Dialogue

variable {F : Type}

/-! ## What is said about the schema -/

/-- The question belongs to working out a schema: for the columns of a frame, or for what an
inferrer makes of them. -/
def Question.isSchemaWork : Question F → Bool
  | columns _ | infer _ _ => true
  | _ => false

/-- The exchanges of a course in which a schema is worked out. -/
def schemaWork (said : List (Exchange F)) : List (Exchange F) :=
  said.filter fun x => x.question.isSchemaWork

theorem schemaWork_append (first second : List (Exchange F)) :
    schemaWork (first ++ second) = schemaWork first ++ schemaWork second := List.filter_append ..

/-- A report is no work on a schema. -/
theorem schemaWork_of_isReport {said : List (Exchange F)}
    (h : ∀ x ∈ said, x.question.isReport = true) : schemaWork said = [] := by
  refine filter_of_isReport (fun q hq => ?_) h
  cases q with
  | columns f => exact absurd hq Bool.false_ne_true
  | infer id columns => exact absurd hq Bool.false_ne_true
  | _ => rfl

/-- The event is that a dataset goes on without a schema. -/
def Event.isDegraded : Event → Bool
  | schemaDegraded _ => true
  | _ => false

namespace Dataset

/-- What the observer is told when the work on a schema has come to this. -/
def degradations : Except Failure Schema → List Event
  | .error f => [.schemaDegraded f]
  | .ok _ => []

/-- Nothing in these exchanges is about the schema. -/
structure Apart (d : Dataset F) (said : List (Exchange F)) : Prop where
  work : schemaWork said = []
  news : d.NewsOf Event.isDegraded said []

theorem apart_of_reports {d : Dataset F} {said : List (Exchange F)} (hw : schemaWork said = [])
    (hr : reports said = []) : d.Apart said := ⟨hw, newsOf_nil hr⟩

theorem apart_nil {d : Dataset F} : d.Apart [] := apart_of_reports rfl rfl

/-- Telling of another event is apart from the schema. -/
theorem apart_emit {d : Dataset F} {e : Event} {told : List (Exchange F)}
    (ht : Runs (d.emit e) told ()) (he : e.isDegraded = false) : d.Apart told := by
  refine ⟨schemaWork_of_isReport (isReport_of_emit ht), ?_⟩
  have hnews : [e].filter Event.isDegraded = [] := by simp [he]
  exact hnews ▸ newsOf_emit ht

theorem Apart.append {d : Dataset F} {first second : List (Exchange F)} (h : d.Apart first)
    (k : d.Apart second) : d.Apart (first ++ second) := by
  refine ⟨?_, h.news.append k.news⟩
  rw [schemaWork_append, h.work, k.work]
  rfl

theorem SameAs.apart {d e : Dataset F} (h : d.SameAs e) {said : List (Exchange F)}
    (hs : e.Apart said) : d.Apart said := ⟨hs.work, h.newsOf hs.news⟩

theorem DigestCourse.apart {d d' : Dataset F} {said : List (Exchange F)}
    {r : Except Failure String} (h : DigestCourse d said r d') :
    d.Apart said ∧ d'.knownSchema = d.knownSchema := by
  cases h with
  | known _ => exact ⟨apart_nil, rfl⟩
  | failed _ => exact ⟨apart_of_reports rfl rfl, rfl⟩
  | @computed hash s told _ _ ht =>
    have hasked : d.Apart [⟨.planHash d.frame, .ok hash⟩, ⟨.note (.digestComputed d.name s), ()⟩] :=
      apart_of_reports rfl rfl
    exact ⟨hasked.append (apart_emit ht rfl), rfl⟩

theorem ProfileCourse.apart {d : Dataset F} {said : List (Exchange F)}
    {r : Except Failure Profile} (h : ProfileCourse d said r) : d.Apart said := by
  cases h with
  | failed => exact apart_of_reports rfl rfl
  | @counted n told ht =>
    have hasked : d.Apart [⟨.countRows d.frame d.options.timeout d.options.confidence, .ok n⟩] :=
      apart_of_reports rfl rfl
    exact hasked.append (apart_emit ht rfl)

theorem SplitCourse.apart {d : Dataset F} {said : List (Exchange F)}
    {r : Except Failure Split} (h : SplitCourse d said r) : d.Apart said := by
  cases h with
  | failed => exact apart_of_reports rfl rfl
  | @materialized t told ht =>
    have hasked : d.Apart [⟨.firstRows d.frame d.options.rowLimit, .ok t⟩,
        ⟨.note (.rowsMaterialized d.name t.height d.options.rowLimit), ()⟩] :=
      apart_of_reports rfl rfl
    exact hasked.append (apart_emit ht rfl)

/-! ## Working out a schema -/

/-- In these exchanges a schema is worked out, and this comes of it; the observer is told of it if
it is a failure. -/
structure WorksOut (d : Dataset F) (said : List (Exchange F)) (outcome : Except Failure Schema) :
    Prop where
  work : InferredCourse d (schemaWork said) outcome
  news : d.NewsOf Event.isDegraded said (degradations outcome)

theorem WorksOut.append {d : Dataset F} {first said last : List (Exchange F)}
    {outcome : Except Failure Schema} (h : d.WorksOut said outcome) (hf : d.Apart first)
    (hl : d.Apart last) : d.WorksOut (first ++ (said ++ last)) outcome := by
  constructor
  · rw [schemaWork_append, schemaWork_append, hf.work, hl.work, List.append_nil]
    exact h.work
  · have hnews := hf.news.append (h.news.append hl.news)
    rw [List.append_nil] at hnews
    exact hnews

theorem SameAs.worksOut {d e : Dataset F} (h : d.SameAs e) {said : List (Exchange F)}
    {outcome : Except Failure Schema} (hw : e.WorksOut said outcome) : d.WorksOut said outcome := by
  refine ⟨?_, h.newsOf hw.news⟩
  have hwork := hw.work
  generalize schemaWork said = asked at hwork ⊢
  cases hwork with
  | failed => rw [h.frame]; exact .failed
  | standard hi => rw [h.frame]; exact .standard (h.options ▸ hi)
  | external hi => rw [h.frame]; exact .external (h.options ▸ hi)

/-- All that is asked on the way to a schema is work on it, and no report. -/
theorem InferredCourse.work {d : Dataset F} {asked : List (Exchange F)}
    {r : Except Failure Schema} (h : InferredCourse d asked r) :
    schemaWork asked = asked ∧ reports asked = [] := by
  cases h with
  | failed => exact ⟨rfl, rfl⟩
  | standard _ => exact ⟨rfl, rfl⟩
  | external _ => exact ⟨rfl, rfl⟩

/-- With an outcome at hand the schema is that one and nothing happens. -/
theorem SchemaCourse.of_known {d d' : Dataset F} {said : List (Exchange F)}
    {r s : Option Schema} (h : SchemaCourse d said r d') (hk : d.knownSchema = some s) :
    said = [] ∧ r = s ∧ d' = d := by
  cases h with
  | known h =>
    rw [hk] at h
    exact ⟨rfl, (Option.some.inj h).symm, rfl⟩
  | inferred h _ => exact nomatch hk.symm.trans h
  | degraded h _ _ => exact nomatch hk.symm.trans h

/-- Without an outcome a schema is worked out, and what comes of it is kept. -/
theorem SchemaCourse.of_open {d d' : Dataset F} {said : List (Exchange F)}
    {r : Option Schema} (h : SchemaCourse d said r d') (hk : d.knownSchema = none) :
    ∃ outcome, d.WorksOut said outcome ∧ r = outcome.toOption ∧
      d'.knownSchema = some outcome.toOption := by
  cases h with
  | known h => exact nomatch h.symm.trans hk
  | @inferred asked s _ hi =>
    obtain ⟨hwork, hreports⟩ := hi.work
    refine ⟨.ok s, ⟨?_, newsOf_nil hreports⟩, rfl, rfl⟩
    rw [hwork]
    exact hi
  | @degraded asked told f _ hi ht =>
    obtain ⟨hwork, hreports⟩ := hi.work
    have hnote : d.NewsOf Event.isDegraded [⟨.note (.schemaFailed d.name f), ()⟩] [] :=
      newsOf_nil rfl
    refine ⟨.error f, ⟨?_, ?_⟩, rfl, rfl⟩
    · have htold : schemaWork told = [] := schemaWork_of_isReport (isReport_of_emit ht)
      rw [schemaWork_append, hwork]
      show InferredCourse d (asked ++ schemaWork told) (.error f)
      rw [htold, List.append_nil]
      exact hi
    · exact (newsOf_nil hreports).append (hnote.append (newsOf_emit ht))

/-! ## What a turn does to the schema -/

/-- The call gets as far as the schema: it is for the schema, or for a descriptor whose digest has
come. -/
def Turn.reachesSchema (t : Turn F) : Bool :=
  match t.call with
  | .schema => true
  | .descriptor | .descriptorText => t.after.knownDigest.isSome
  | .digest | .profile | .split => false

/-- An answer has no other outcome of the schema than this one: the schema itself is it, and
descriptors are made from it. -/
def ViewAnswer.HasSchema (s : Option Schema) : ViewAnswer → Prop
  | schema r => r = s
  | descriptor r => ∀ x, r = .ok x → x.schema = s.map Descriptor.schemaText
  | descriptorText r =>
    ∀ text, r = .ok text →
      ∃ x : Descriptor, x.schema = s.map Descriptor.schemaText ∧ text = x.toJson.render
  | digest _ | profile _ | split _ => True

theorem hasSchema_text {r : Except Failure Descriptor} {s : Option Schema}
    (h : (ViewAnswer.descriptor r).HasSchema s) :
    (ViewAnswer.descriptorText (r.map fun y => y.toJson.render)).HasSchema s := by
  intro text ht
  cases r with
  | error f => exact nomatch ht
  | ok x => exact ⟨x, h x rfl, (Except.ok.inj ht).symm⟩

/-- The turn has nothing to do with the schema. -/
structure PassesBy (d : Dataset F) (t : Turn F) : Prop where
  reaches : t.reachesSchema = false
  apart : d.Apart t.said
  memory : t.after.knownSchema = d.knownSchema
  answer : ∀ s, t.answer.HasSchema s

/-- The schema is asked for within the turn, in these exchanges and with this answer; whatever
comes before and behind them is apart from it. -/
structure Consults (d : Dataset F) (t : Turn F) (asked : List (Exchange F)) (s : Option Schema) :
    Prop where
  reaches : t.reachesSchema = true
  course : ∃ d₁, d.SameAs d₁ ∧ d₁.knownSchema = d.knownSchema ∧ SchemaCourse d₁ asked s t.after
  within : ∃ first last, t.said = first ++ (asked ++ last) ∧ d.Apart first ∧ d.Apart last
  answer : t.answer.HasSchema s

/-- A descriptor without a digest never gets to the schema; one with a digest asks for the schema
between the digest and the profile. -/
theorem DescriptorCourse.schema_cases {d d' : Dataset F} {said : List (Exchange F)}
    {r : Except Failure Descriptor} (h : DescriptorCourse d said r d') :
    d.PassesBy ⟨.descriptor, said, .descriptor r, d'⟩ ∨
      ∃ asked s, d.Consults ⟨.descriptor, said, .descriptor r, d'⟩ asked s := by
  cases h with
  | @refused said f _ hd =>
    left
    obtain ⟨hapart, hmemory⟩ := hd.apart
    refine ⟨?_, hapart, hmemory, fun s x hx => nomatch hx⟩
    cases hd with
    | failed hk => exact congrArg Option.isSome hk
  | @decided first asked last digest s profile d₁ d₂ hd hs hp =>
    right
    obtain ⟨hapart, hmemory⟩ := hd.apart
    refine ⟨asked, s, ?_, ⟨d₁, hd.sameAs, hmemory, hs⟩, ⟨first, last, rfl, hapart, ?_⟩, ?_⟩
    · have hdigest : d'.knownDigest = some digest := hs.remembers.2.trans hd.remembers
      exact congrArg Option.isSome hdigest
    · exact (hd.sameAs.trans hs.sameAs).apart hp.apart
    · intro x hx
      cases profile with
      | error f => exact nomatch hx
      | ok p => exact (Except.ok.inj hx) ▸ rfl

/-- **What a turn does to the schema.**  It passes by, or the schema is asked for within it. -/
theorem turn_cases {d : Dataset F} {t : Turn F} (h : t.Of d) :
    d.PassesBy t ∨ ∃ asked s, d.Consults t asked s := by
  obtain ⟨call, said, answer, after⟩ := t
  cases call with
  | digest =>
    obtain ⟨r, hr, rfl⟩ := runs_mapView.mp h
    obtain ⟨hapart, hmemory⟩ := (runs_digest.mp hr).apart
    exact .inl ⟨rfl, hapart, hmemory, fun _ => trivial⟩
  | profile =>
    obtain ⟨r, hr, rfl⟩ := runs_mapView.mp h
    obtain ⟨hp, rfl⟩ := runs_profile.mp hr
    exact .inl ⟨rfl, hp.apart, rfl, fun _ => trivial⟩
  | split =>
    obtain ⟨r, hr, rfl⟩ := runs_mapView.mp h
    obtain ⟨hp, rfl⟩ := runs_split.mp hr
    exact .inl ⟨rfl, hp.apart, rfl, fun _ => trivial⟩
  | schema =>
    obtain ⟨s, hs, rfl⟩ := runs_mapView.mp h
    refine .inr ⟨said, s, rfl, ⟨d, .refl d, rfl, runs_schema.mp hs⟩, ?_, rfl⟩
    exact ⟨[], [], (List.append_nil said).symm, apart_nil, apart_nil⟩
  | descriptor =>
    obtain ⟨r, hr, rfl⟩ := runs_mapView.mp h
    exact (runs_descriptor.mp hr).schema_cases
  | descriptorText =>
    -- The text is that of a descriptor, which is made all the same.
    obtain ⟨text, htext, rfl⟩ := runs_mapView.mp h
    obtain ⟨r, hr, rfl⟩ := runs_descriptorText.mp htext
    rcases hr.schema_cases with hpasses | ⟨asked, s, hconsults⟩
    · refine .inl ⟨hpasses.reaches, hpasses.apart, hpasses.memory, fun s => ?_⟩
      exact hasSchema_text (hpasses.answer s)
    · refine .inr ⟨asked, s, hconsults.reaches, hconsults.course, hconsults.within, ?_⟩
      exact hasSchema_text hconsults.answer

/-! ## The three kinds of turns -/

/-- A turn that leaves the schema open: it does not get there, and nothing is said about it. -/
structure LeavesUnasked (d : Dataset F) (t : Turn F) : Prop where
  reaches : t.reachesSchema = false
  apart : d.Apart t.said
  memory : t.after.knownSchema = none

/-- A turn that settles the schema: it is worked out, and the outcome is kept, told if it is a
failure, and shown by the answer. -/
structure Attempts (d : Dataset F) (t : Turn F) (outcome : Except Failure Schema) : Prop where
  reaches : t.reachesSchema = true
  worksOut : d.WorksOut t.said outcome
  memory : t.after.knownSchema = some outcome.toOption
  answer : t.answer.HasSchema outcome.toOption

/-- A turn behind the settled schema: nobody is asked or told, and the answer shows that outcome. -/
structure KeepsOutcome (d : Dataset F) (t : Turn F) (s : Option Schema) : Prop where
  apart : d.Apart t.said
  memory : t.after.knownSchema = some s
  answer : t.answer.HasSchema s

theorem SameAs.leavesUnasked {d e : Dataset F} (h : d.SameAs e) {t : Turn F}
    (ht : e.LeavesUnasked t) : d.LeavesUnasked t :=
  ⟨ht.reaches, h.apart ht.apart, ht.memory⟩

theorem SameAs.attempts {d e : Dataset F} (h : d.SameAs e) {t : Turn F}
    {outcome : Except Failure Schema} (ht : e.Attempts t outcome) : d.Attempts t outcome :=
  ⟨ht.reaches, h.worksOut ht.worksOut, ht.memory, ht.answer⟩

theorem SameAs.keepsOutcome {d e : Dataset F} (h : d.SameAs e) {t : Turn F} {s : Option Schema}
    (ht : e.KeepsOutcome t s) : d.KeepsOutcome t s :=
  ⟨h.apart ht.apart, ht.memory, ht.answer⟩

/-- A turn of a dataset that has an outcome keeps to it. -/
theorem turn_keepsOutcome {d : Dataset F} {t : Turn F} {s : Option Schema} (h : t.Of d)
    (hk : d.knownSchema = some s) : d.KeepsOutcome t s := by
  rcases turn_cases h with hpasses | ⟨asked, s', hconsults⟩
  · exact ⟨hpasses.apart, hpasses.memory.trans hk, hpasses.answer s⟩
  · obtain ⟨d₁, hsame, hkept, hcourse⟩ := hconsults.course
    obtain ⟨first, last, hsaid, hfirst, hlast⟩ := hconsults.within
    have hk₁ : d₁.knownSchema = some s := hkept.trans hk
    obtain ⟨rfl, rfl, hafter⟩ := hcourse.of_known hk₁
    refine ⟨?_, ?_, hconsults.answer⟩
    · rw [hsaid]
      exact hfirst.append hlast
    · rw [hafter]
      exact hk₁

/-- A turn of a dataset without an outcome leaves it open or settles it. -/
theorem turn_unsettled {d : Dataset F} {t : Turn F} (h : t.Of d) (hk : d.knownSchema = none) :
    d.LeavesUnasked t ∨ ∃ outcome, d.Attempts t outcome := by
  rcases turn_cases h with hpasses | ⟨asked, s, hconsults⟩
  · exact .inl ⟨hpasses.reaches, hpasses.apart, hpasses.memory.trans hk⟩
  · obtain ⟨d₁, hsame, hkept, hcourse⟩ := hconsults.course
    obtain ⟨first, last, hsaid, hfirst, hlast⟩ := hconsults.within
    obtain ⟨outcome, hworks, rfl, hmemory⟩ := hcourse.of_open (hkept.trans hk)
    refine .inr ⟨outcome, hconsults.reaches, ?_, hmemory, hconsults.answer⟩
    rw [hsaid]
    exact (hsame.worksOut hworks).append hfirst hlast

/-! ## All turns -/

/-- Behind a settled schema all turns keep to its outcome. -/
theorem takes_keepsOutcome {d : Dataset F} {turns : List (Turn F)} {s : Option Schema}
    (h : Takes d turns) (hk : d.knownSchema = some s) : ∀ t ∈ turns, d.KeepsOutcome t s := by
  induction h with
  | nil => exact fun u hu => absurd hu List.not_mem_nil
  | @cons d t rest ht _ ih =>
    have hkeeps := turn_keepsOutcome ht hk
    intro u hu
    rcases List.mem_cons.mp hu with rfl | hu
    · exact hkeeps
    · exact (turn_sameAs ht).keepsOutcome (ih hkeeps.memory u hu)

/-- Turns from an open schema: all leave it open, or they do up to one that settles it and all
behind that keep to its outcome. -/
theorem takes_unsettled {d : Dataset F} {turns : List (Turn F)} (h : Takes d turns)
    (hk : d.knownSchema = none) :
    (∀ t ∈ turns, d.LeavesUnasked t) ∨
    ∃ before t later outcome, turns = before ++ t :: later ∧ (∀ u ∈ before, d.LeavesUnasked u) ∧
      d.Attempts t outcome ∧ ∀ u ∈ later, d.KeepsOutcome u outcome.toOption := by
  induction h with
  | nil => exact .inl fun u hu => absurd hu List.not_mem_nil
  | @cons d t rest ht hrest ih =>
    have hsame := turn_sameAs ht
    rcases turn_unsettled ht hk with hopen | ⟨outcome, hattempts⟩
    · -- What the later turns do is told of the dataset behind this turn; `hsame` carries it back.
      have hfirst : ∀ {before : List (Turn F)}, (∀ u ∈ before, t.after.LeavesUnasked u) →
          ∀ u ∈ t :: before, d.LeavesUnasked u := by
        intro before hbefore u hu
        rcases List.mem_cons.mp hu with rfl | hu
        · exact hopen
        · exact hsame.leavesUnasked (hbefore u hu)
      rcases ih hopen.memory with hall | ⟨before, u, later, outcome, rfl, hbefore, hu, hlater⟩
      · exact .inl (hfirst hall)
      · refine .inr ⟨t :: before, u, later, outcome, rfl, hfirst hbefore, hsame.attempts hu, ?_⟩
        exact fun v hv => hsame.keepsOutcome (hlater v hv)
    · refine .inr ⟨[], t, rest, outcome, rfl, fun v hv => absurd hv List.not_mem_nil, hattempts, ?_⟩
      exact fun v hv => hsame.keepsOutcome (takes_keepsOutcome hrest hattempts.memory v hv)

/-! ## Making -/

/-- Making a dataset tells the observer nothing, and the frame is asked for its columns once if
there is a label column, and otherwise nobody is asked for anything that makes a schema. -/
theorem Made.asksColumns {given : Option String} {made : List (Exchange F)} {d : Dataset F}
    (h : Made given made d) :
    ∃ columns, schemaWork made = d.targets.toList.map fun _ => ⟨.columns d.frame, .ok columns⟩ := by
  obtain ⟨errands, last, frame, source, labels, options, rfl, herrands, hmake, -⟩ := h.ends
  obtain ⟨rfl, columns, rfl⟩ := fresh_of_make hmake
  refine ⟨columns, ?_⟩
  have hno : schemaWork errands = [] := by
    refine List.filter_eq_nil_iff.mpr ?_
    rintro ⟨q, r⟩ hx
    cases q with
    | columns f => exact absurd (herrands _ hx) not_false
    | infer id columns => exact absurd (herrands _ hx) not_false
    | _ => exact Bool.false_ne_true
  rw [schemaWork_append, hno, List.nil_append]
  refine List.filter_eq_self.mpr ?_
  intro x hx
  obtain ⟨target, -, rfl⟩ := List.mem_map.mp hx
  rfl

/-- **The schema is settled by the first access.**  Whatever the frame, the inferrer and everyone
else answer: making a dataset asks the frame for its columns once if there is a label column and
never otherwise, tells the observer nothing, and leaves the schema open.  Then every call passes the
schema by, up to the first one that reaches it.  In that call, and in no other, the frame is asked
for its columns and the inferrer for a schema of them; it comes to a schema if both have answered
well, and to the failure of the one that has not, which the observer is told of at this one time.
That outcome is what every call shows from then on, with nobody asked or told again. -/
theorem schema_settles_at_first_access {given : Option String} {made : List (Exchange F)}
    {d : Dataset F} (hd : Made given made d) {turns : List (Turn F)} (h : Takes d turns) :
    (∃ columns,
      schemaWork made = d.targets.toList.map fun _ => ⟨.columns d.frame, .ok columns⟩) ∧
    d.NewsOf Event.isDegraded made [] ∧ d.knownSchema = none ∧
    ((∀ t ∈ turns, d.LeavesUnasked t) ∨
      ∃ before t later outcome, turns = before ++ t :: later ∧ (∀ u ∈ before, d.LeavesUnasked u) ∧
        d.Attempts t outcome ∧ ∀ u ∈ later, d.KeepsOutcome u outcome.toOption) := by
  obtain ⟨-, hopen⟩ := hd.remembers
  exact ⟨hd.asksColumns, newsOf_nil hd.discreet.reports, hopen, takes_unsettled h hopen⟩

/-- A dataset over a stand-in for a frame, with a label column, an inferrer of its own and a
recorder that watches it. -/
def labelled : Dataset Unit :=
  fresh () (.table (.tableName "t")) ⟨some "y", none, none⟩
    { DatasetOptions.standard with inferrer := .external 0, observer := some (.recorder "log") }

/-- The columns that the frame under `labelled` tells. -/
def labelledColumns : FrameSchema := [("y", .i64)]

/-- A descriptor that gets no digest, then the schema, which the inferrer refuses, and the schema
once more. -/
def refusedSchema (f g : Failure) : List (Turn Unit) :=
  [⟨.descriptor, [⟨.planHash (), .error f⟩], .descriptor (.error f), labelled⟩,
   ⟨.schema,
    [⟨.columns (), .ok labelledColumns⟩, ⟨.infer 0 labelledColumns, .error g⟩,
     ⟨.note (.schemaFailed labelled.name g), ()⟩,
     ⟨.deliver "log" labelled.context (.schemaDegraded g), ()⟩],
    .schema none, { labelled with knownSchema := some none }⟩,
   ⟨.schema, [], .schema none, { labelled with knownSchema := some none }⟩]

theorem takes_refusedSchema (f g : Failure) : Takes labelled (refusedSchema f g) := by
  have htold : Runs (labelled.emit (.schemaDegraded g))
      [⟨.deliver "log" labelled.context (.schemaDegraded g), ()⟩] () := runs_single.mpr rfl
  have hrefused : DescriptorCourse labelled [⟨.planHash (), .error f⟩] (.error f) labelled :=
    .refused (.failed rfl)
  have hdegraded : SchemaCourse labelled
      ([⟨.columns (), .ok labelledColumns⟩, ⟨.infer 0 labelledColumns, .error g⟩] ++
        ⟨.note (.schemaFailed labelled.name g), ()⟩ ::
          [⟨.deliver "log" labelled.context (.schemaDegraded g), ()⟩])
      none { labelled with knownSchema := some none } := .degraded rfl (.external rfl) htold
  refine .cons (runs_mapView.mpr ⟨_, runs_descriptor.mpr hrefused, rfl⟩) ?_
  refine .cons (runs_mapView.mpr ⟨_, runs_schema.mpr hdegraded, rfl⟩) ?_
  exact .cons (runs_mapView.mpr ⟨_, runs_schema.mpr (.known rfl), rfl⟩) .nil

/-- A schema that is refused once stays refused. -/
theorem schema_settles_at_refusal :
    Made none [⟨.columns (), .ok labelledColumns⟩] labelled ∧
      Takes labelled (refusedSchema (.tableNotFound "t") (.unsupportedColumnType "y" "i64")) ∧
      (∃ columns, schemaWork [⟨.columns (), .ok labelledColumns⟩] =
        labelled.targets.toList.map fun _ => ⟨.columns labelled.frame, .ok columns⟩) ∧
      labelled.NewsOf Event.isDegraded [⟨.columns (), .ok labelledColumns⟩] [] ∧
      labelled.knownSchema = none ∧
      ((∀ t ∈ refusedSchema (.tableNotFound "t") (.unsupportedColumnType "y" "i64"),
        labelled.LeavesUnasked t) ∨
      ∃ before t later outcome,
        refusedSchema (.tableNotFound "t") (.unsupportedColumnType "y" "i64") =
          before ++ t :: later ∧
        (∀ u ∈ before, labelled.LeavesUnasked u) ∧ labelled.Attempts t outcome ∧
        ∀ u ∈ later, labelled.KeepsOutcome u outcome.toOption) := by
  have hmake : Runs (make () labelled.source ⟨some "y", none, none⟩ labelled.options)
      [⟨.columns (), .ok labelledColumns⟩] (.ok labelled) :=
    runs_ask_bind.mpr ⟨.ok labelledColumns, [], rfl, runs_pure.mpr ⟨rfl, rfl⟩⟩
  have hmade : Made none [⟨.columns (), .ok labelledColumns⟩] labelled := .direct hmake rfl
  have htakes := takes_refusedSchema (.tableNotFound "t") (.unsupportedColumnType "y" "i64")
  exact ⟨hmade, htakes, schema_settles_at_first_access hmade htakes⟩

end Dataset
end Lineage
