import Lineage.Proofs.Dataset.Making
import Lineage.Proofs.Dataset.Turns
/-
  A digest is computed once, and never made up.

  The frame may answer as it likes, and differently each time.  As long as a dataset has no digest,
  each call that needs one asks the frame for its hash once; a failure is passed on and leaves
  everything open.  The first hash that comes settles the digest: it is kept, the observer is told
  of it, and nobody is asked again.  A digest given from the start is settled in the same sense.

  Nothing is said of digests when the dataset is made.  One turn from each of the two states
  (`turn_settled`, `turn_open`) and an induction over the turns give the theorem
  `digest_settles_once`.
-/

namespace Lineage

open Dialogue

variable {F : Type}

/-! ## What is said about the digest -/

/-- The event is that a digest has been computed. -/
def Event.isDigest : Event → Bool
  | digest _ => true
  | _ => false

namespace Dataset

/-- In these exchanges the observer is told of exactly these digests, beside other events. -/
def DigestNews (d : Dataset F) (said : List (Exchange F)) (news : List Event) : Prop :=
  ∃ events, d.Told events said ∧ events.filter Event.isDigest = news

theorem DigestNews.append {d : Dataset F} {first second : List (Exchange F)}
    {news more : List Event} (h : d.DigestNews first news) (k : d.DigestNews second more) :
    d.DigestNews (first ++ second) (news ++ more) := NewsOf.append h k

theorem SameAs.digestNews {d e : Dataset F} (h : d.SameAs e) {said : List (Exchange F)}
    {news : List Event} (hn : e.DigestNews said news) : d.DigestNews said news := h.newsOf hn

/-- Nothing in these exchanges is about the digest. -/
structure Silent (d : Dataset F) (said : List (Exchange F)) : Prop where
  replies : hashReplies said = []
  news : d.DigestNews said []

theorem Silent.append {d : Dataset F} {first second : List (Exchange F)} (h : d.Silent first)
    (k : d.Silent second) : d.Silent (first ++ second) :=
  ⟨by rw [hashReplies_append, h.replies, k.replies]; rfl, h.news.append k.news⟩

theorem SameAs.silent {d e : Dataset F} (h : d.SameAs e) {said : List (Exchange F)}
    (hs : e.Silent said) : d.Silent said := ⟨hs.replies, h.digestNews hs.news⟩

theorem Discreet.silent {said : List (Exchange F)} (h : Discreet said) (d : Dataset F) :
    d.Silent said := ⟨h.replies, [], told_nil h.reports, rfl⟩

/-- Telling of another event is silent. -/
theorem silent_emit {d : Dataset F} {e : Event} {told : List (Exchange F)}
    (ht : Runs (d.emit e) told ()) (he : e.isDigest = false) : d.Silent told := by
  refine ⟨hashReplies_of_isReport (isReport_of_emit ht), [e], told_emit ht, ?_⟩
  simp [he]

theorem ProfileCourse.silent {d : Dataset F} {said : List (Exchange F)}
    {r : Except Failure Profile} (h : ProfileCourse d said r) : d.Silent said := by
  cases h with
  | failed => exact Discreet.silent ⟨rfl, rfl⟩ _
  | @counted n told ht =>
    have hasked :
        d.Silent [⟨.countRows d.frame d.options.timeout d.options.confidence, .ok n⟩] :=
      Discreet.silent ⟨rfl, rfl⟩ _
    exact hasked.append (silent_emit ht rfl)

theorem SplitCourse.silent {d : Dataset F} {said : List (Exchange F)}
    {r : Except Failure Split} (h : SplitCourse d said r) : d.Silent said := by
  cases h with
  | failed => exact Discreet.silent ⟨rfl, rfl⟩ _
  | @materialized t told ht =>
    have hasked : d.Silent [⟨.firstRows d.frame d.options.rowLimit, .ok t⟩,
        ⟨.note (.rowsMaterialized d.name t.height d.options.rowLimit), ()⟩] :=
      Discreet.silent ⟨rfl, rfl⟩ _
    exact hasked.append (silent_emit ht rfl)

theorem InferredCourse.silent {d : Dataset F} {said : List (Exchange F)}
    {r : Except Failure Schema} (h : InferredCourse d said r) : d.Silent said := by
  cases h with
  | failed => exact Discreet.silent ⟨rfl, rfl⟩ _
  | standard _ => exact Discreet.silent ⟨rfl, rfl⟩ _
  | external _ => exact Discreet.silent ⟨rfl, rfl⟩ _

theorem SchemaCourse.silent {d d' : Dataset F} {said : List (Exchange F)} {r : Option Schema}
    (h : SchemaCourse d said r d') : d.Silent said ∧ d'.knownDigest = d.knownDigest := by
  cases h with
  | known _ => exact ⟨Discreet.silent ⟨rfl, rfl⟩ _, rfl⟩
  | inferred _ hi => exact ⟨hi.silent, rfl⟩
  | @degraded asked told f _ hi ht =>
    have hnote : d.Silent [⟨.note (.schemaFailed d.name f), ()⟩] := Discreet.silent ⟨rfl, rfl⟩ _
    exact ⟨hi.silent.append (hnote.append (silent_emit ht rfl)), rfl⟩

/-! ## The three kinds of turns -/

/-- The call cannot do without the digest. -/
def ViewCall.needsDigest : ViewCall → Bool
  | digest | descriptor | descriptorText => true
  | profile | schema | split => false

/-- The failure that an answer consists in. -/
def ViewAnswer.failure? : ViewAnswer → Option Failure
  | digest (.error f) | profile (.error f) | split (.error f) | descriptor (.error f)
  | descriptorText (.error f) => some f
  | _ => none

/-- An answer has no other digest than this one: the digest itself is it, and descriptors carry
it. -/
def ViewAnswer.Carries (s : String) : ViewAnswer → Prop
  | digest r => r = .ok s
  | descriptor r => ∀ x, r = .ok x → x.digest = s
  | descriptorText r =>
    ∀ text, r = .ok text → ∃ x : Descriptor, x.digest = s ∧ text = x.toJson.render
  | profile _ | schema _ | split _ => True

/-- A turn that leaves the digest open: if it is needed the frame is asked for its hash once, and
its failure is the answer; otherwise nothing is said about it. -/
structure LeavesOpen (d : Dataset F) (t : Turn F) : Prop where
  asked : if t.call.needsDigest then
      ∃ f, hashReplies t.said = [(d.frame, .error f)] ∧ t.answer.failure? = some f
    else hashReplies t.said = []
  news : d.DigestNews t.said []
  memory : t.after.knownDigest = none

/-- A turn that settles the digest: the frame is asked for its hash once, and the digest of that is
kept, reported once and carried by the answer. -/
structure Settles (d : Dataset F) (t : Turn F) (hash : Int64) (s : String) : Prop where
  needed : t.call.needsDigest = true
  asked : hashReplies t.said = [(d.frame, .ok hash)]
  computed : Digest.ofHash hash = .ok s
  news : d.DigestNews t.said [.digest s]
  memory : t.after.knownDigest = some s
  answer : t.answer.Carries s

/-- A turn behind the settled digest: nobody is asked or told, and the answer carries it. -/
structure KeepsTo (d : Dataset F) (t : Turn F) (s : String) : Prop where
  silent : d.Silent t.said
  memory : t.after.knownDigest = some s
  answer : t.answer.Carries s

theorem SameAs.leavesOpen {d e : Dataset F} (h : d.SameAs e) {t : Turn F} (ht : e.LeavesOpen t) :
    d.LeavesOpen t :=
  ⟨h.frame ▸ ht.asked, h.digestNews ht.news, ht.memory⟩

theorem SameAs.settles {d e : Dataset F} (h : d.SameAs e) {t : Turn F} {hash : Int64} {s : String}
    (ht : e.Settles t hash s) : d.Settles t hash s :=
  ⟨ht.needed, h.frame ▸ ht.asked, ht.computed, h.digestNews ht.news, ht.memory, ht.answer⟩

theorem SameAs.keepsTo {d e : Dataset F} (h : d.SameAs e) {t : Turn F} {s : String}
    (ht : e.KeepsTo t s) : d.KeepsTo t s :=
  ⟨h.silent ht.silent, ht.memory, ht.answer⟩

/-! ## One turn -/

/-- With a digest at hand the digest is that one and nothing happens. -/
theorem DigestCourse.of_known {d d' : Dataset F} {said : List (Exchange F)}
    {r : Except Failure String} {s : String} (h : DigestCourse d said r d')
    (hk : d.knownDigest = some s) : said = [] ∧ r = .ok s ∧ d' = d := by
  cases h with
  | known h =>
    rw [hk] at h
    exact ⟨rfl, congrArg Except.ok (Option.some.inj h).symm, rfl⟩
  | failed h => exact nomatch hk.symm.trans h
  | computed h _ _ => exact nomatch hk.symm.trans h

/-- With a digest at hand nothing is said about it, and it is that of the descriptor. -/
theorem DescriptorCourse.of_known {d d' : Dataset F} {said : List (Exchange F)}
    {r : Except Failure Descriptor} {s : String} (h : DescriptorCourse d said r d')
    (hk : d.knownDigest = some s) :
    d.Silent said ∧ d'.knownDigest = some s ∧ ∀ x, r = .ok x → x.digest = s := by
  cases h with
  | refused hd => exact nomatch (hd.of_known hk).2.1
  | @decided first second third s' schema profile d₁ d₂ hd hs hp =>
    obtain ⟨rfl, hr, rfl⟩ := hd.of_known hk
    cases hr
    obtain ⟨hsilent, hmemory⟩ := hs.silent
    refine ⟨hsilent.append (hs.sameAs.silent hp.silent), hmemory.trans hk, ?_⟩
    intro x hx
    cases profile with
    | error f => exact nomatch hx
    | ok p => exact (Except.ok.inj hx) ▸ rfl

/-- A digest that is worked out is reported once, and the frame was asked once. -/
theorem DigestCourse.of_open {d d' : Dataset F} {said : List (Exchange F)}
    {r : Except Failure String} (h : DigestCourse d said r d') (hk : d.knownDigest = none) :
    (∃ f, hashReplies said = [(d.frame, .error f)] ∧ d.DigestNews said [] ∧
      r = .error f ∧ d' = d) ∨
    ∃ hash s, hashReplies said = [(d.frame, .ok hash)] ∧ Digest.ofHash hash = .ok s ∧
      d.DigestNews said [.digest s] ∧ r = .ok s ∧ d'.knownDigest = some s := by
  cases h with
  | known h => exact nomatch h.symm.trans hk
  | @failed f _ => exact .inl ⟨f, rfl, ⟨[], told_nil rfl, rfl⟩, rfl, rfl⟩
  | @computed hash s told _ hs ht =>
    have htold : d.Told [.digest s] told := told_emit ht
    refine .inr ⟨hash, s, ?_, hs, ⟨[.digest s], htold, rfl⟩, rfl, rfl⟩
    show (d.frame, Except.ok hash) :: hashReplies told = _
    rw [hashReplies_of_isReport (isReport_of_emit ht)]

/-- A descriptor without a digest at hand fails with the frame, or settles the digest. -/
theorem DescriptorCourse.of_open {d d' : Dataset F} {said : List (Exchange F)}
    {r : Except Failure Descriptor} (h : DescriptorCourse d said r d')
    (hk : d.knownDigest = none) :
    (∃ f, hashReplies said = [(d.frame, .error f)] ∧ d.DigestNews said [] ∧
      r = .error f ∧ d' = d) ∨
    ∃ hash s, hashReplies said = [(d.frame, .ok hash)] ∧ Digest.ofHash hash = .ok s ∧
      d.DigestNews said [.digest s] ∧ (∀ x, r = .ok x → x.digest = s) ∧
      d'.knownDigest = some s := by
  cases h with
  | refused hd =>
    rcases hd.of_open hk with ⟨f, hasked, hnews, hr, hd'⟩ | ⟨_, _, _, _, _, hr, _⟩
    · exact .inl ⟨f, hasked, hnews, congrArg Except.error (Except.error.inj hr), hd'⟩
    · exact nomatch hr
  | @decided first second third s schema profile d₁ d₂ hd hs hp =>
    -- The digest has come; the schema and the profile behind it say nothing more about it.
    rcases hd.of_open hk with ⟨_, _, _, hr, _⟩ | ⟨hash, s', hasked, hof, hnews, hr, hmemory⟩
    · exact nomatch hr
    · cases hr
      obtain ⟨hsilent, hkept⟩ := hs.silent
      have hrest : d.Silent (second ++ third) :=
        hd.sameAs.silent (hsilent.append (hs.sameAs.silent hp.silent))
      refine .inr ⟨hash, s, ?_, hof, ?_, ?_, hkept.trans hmemory⟩
      · rw [hashReplies_append, hasked, hrest.replies]
        rfl
      · exact hnews.append hrest.news
      · intro x hx
        cases profile with
        | error f => exact nomatch hx
        | ok p => exact (Except.ok.inj hx) ▸ rfl

/-- The text of a descriptor carries the digest that the descriptor has. -/
theorem carries_text {r : Except Failure Descriptor} {s : String}
    (h : ∀ x, r = .ok x → x.digest = s) :
    (ViewAnswer.descriptorText (r.map fun y => y.toJson.render)).Carries s := by
  intro text ht
  cases r with
  | error f => exact nomatch ht
  | ok x => exact ⟨x, h x rfl, (Except.ok.inj ht).symm⟩

/-- A turn that can do without the digest says nothing about it and leaves it as it is. -/
theorem turn_silent {d : Dataset F} {t : Turn F} (h : t.Of d) (hneed : t.call.needsDigest = false) :
    d.Silent t.said ∧ t.after.knownDigest = d.knownDigest ∧ ∀ s, t.answer.Carries s := by
  obtain ⟨call, said, answer, after⟩ := t
  cases call with
  | profile =>
    obtain ⟨r, hr, rfl⟩ := runs_mapView.mp h
    obtain ⟨hp, rfl⟩ := runs_profile.mp hr
    exact ⟨hp.silent, rfl, fun _ => trivial⟩
  | schema =>
    obtain ⟨r, hr, rfl⟩ := runs_mapView.mp h
    obtain ⟨hsilent, hkept⟩ := (runs_schema.mp hr).silent
    exact ⟨hsilent, hkept, fun _ => trivial⟩
  | split =>
    obtain ⟨r, hr, rfl⟩ := runs_mapView.mp h
    obtain ⟨hp, rfl⟩ := runs_split.mp hr
    exact ⟨hp.silent, rfl, fun _ => trivial⟩
  | digest | descriptor | descriptorText => cases hneed

/-- A turn of a dataset that has a digest keeps to it. -/
theorem turn_settled {d : Dataset F} {t : Turn F} {s : String} (h : t.Of d)
    (hk : d.knownDigest = some s) : d.KeepsTo t s := by
  cases hneed : t.call.needsDigest with
  | false =>
    obtain ⟨hsilent, hkept, hcarries⟩ := turn_silent h hneed
    exact ⟨hsilent, hkept.trans hk, hcarries s⟩
  | true =>
    obtain ⟨call, said, answer, after⟩ := t
    cases call with
    | digest =>
      obtain ⟨r, hr, rfl⟩ := runs_mapView.mp h
      obtain ⟨rfl, rfl, rfl⟩ := (runs_digest.mp hr).of_known hk
      exact ⟨Discreet.silent discreet_nil _, hk, rfl⟩
    | descriptor =>
      obtain ⟨r, hr, rfl⟩ := runs_mapView.mp h
      obtain ⟨hsilent, hmemory, hx⟩ := (runs_descriptor.mp hr).of_known hk
      exact ⟨hsilent, hmemory, hx⟩
    | descriptorText =>
      -- The text is that of a descriptor, which is made all the same.
      obtain ⟨r, hr, rfl⟩ := runs_mapView.mp h
      obtain ⟨x, hx, rfl⟩ := runs_descriptorText.mp hr
      obtain ⟨hsilent, hmemory, hx⟩ := hx.of_known hk
      exact ⟨hsilent, hmemory, carries_text hx⟩
    | profile | schema | split => cases hneed

/-- A turn of a dataset without a digest leaves it open or settles it. -/
theorem turn_open {d : Dataset F} {t : Turn F} (h : t.Of d) (hk : d.knownDigest = none) :
    d.LeavesOpen t ∨ ∃ hash s, d.Settles t hash s := by
  cases hneed : t.call.needsDigest with
  | false =>
    obtain ⟨hsilent, hkept, -⟩ := turn_silent h hneed
    refine .inl ⟨?_, hsilent.news, hkept.trans hk⟩
    rw [hneed]
    exact hsilent.replies
  | true =>
    obtain ⟨call, said, answer, after⟩ := t
    cases call with
    | digest =>
      obtain ⟨r, hr, rfl⟩ := runs_mapView.mp h
      rcases (runs_digest.mp hr).of_open hk with
        ⟨f, hasked, hnews, rfl, rfl⟩ | ⟨hash, s, hasked, hof, hnews, rfl, hmemory⟩
      · exact .inl ⟨⟨f, hasked, rfl⟩, hnews, hk⟩
      · exact .inr ⟨hash, s, rfl, hasked, hof, hnews, hmemory, rfl⟩
    | descriptor =>
      obtain ⟨r, hr, rfl⟩ := runs_mapView.mp h
      rcases (runs_descriptor.mp hr).of_open hk with
        ⟨f, hasked, hnews, rfl, rfl⟩ | ⟨hash, s, hasked, hof, hnews, hx, hmemory⟩
      · exact .inl ⟨⟨f, hasked, rfl⟩, hnews, hk⟩
      · exact .inr ⟨hash, s, rfl, hasked, hof, hnews, hmemory, hx⟩
    | descriptorText =>
      obtain ⟨r, hr, rfl⟩ := runs_mapView.mp h
      obtain ⟨x, hx, rfl⟩ := runs_descriptorText.mp hr
      rcases hx.of_open hk with
        ⟨f, hasked, hnews, rfl, rfl⟩ | ⟨hash, s, hasked, hof, hnews, hx, hmemory⟩
      · exact .inl ⟨⟨f, hasked, rfl⟩, hnews, hk⟩
      · exact .inr ⟨hash, s, rfl, hasked, hof, hnews, hmemory, carries_text hx⟩
    | profile | schema | split => cases hneed

/-! ## All turns -/

/-- Behind a settled digest all turns keep to it. -/
theorem takes_settled {d : Dataset F} {turns : List (Turn F)} {s : String} (h : Takes d turns)
    (hk : d.knownDigest = some s) : ∀ t ∈ turns, d.KeepsTo t s := by
  induction h with
  | nil => exact fun u hu => absurd hu List.not_mem_nil
  | @cons d t rest ht _ ih =>
    have hkeeps := turn_settled ht hk
    intro u hu
    rcases List.mem_cons.mp hu with rfl | hu
    · exact hkeeps
    · exact (turn_sameAs ht).keepsTo (ih hkeeps.memory u hu)

/-- Turns from an open digest: all leave it open, or they do up to one that settles it and all
behind that keep to it. -/
theorem takes_open {d : Dataset F} {turns : List (Turn F)} (h : Takes d turns)
    (hk : d.knownDigest = none) :
    (∀ t ∈ turns, d.LeavesOpen t) ∨
    ∃ before t later hash s, turns = before ++ t :: later ∧ (∀ u ∈ before, d.LeavesOpen u) ∧
      d.Settles t hash s ∧ ∀ u ∈ later, d.KeepsTo u s := by
  induction h with
  | nil => exact .inl fun u hu => absurd hu List.not_mem_nil
  | @cons d t rest ht hrest ih =>
    -- What the later turns do is told of the dataset behind this turn; `hsame` carries it back.
    have hsame := turn_sameAs ht
    rcases turn_open ht hk with hopen | ⟨hash, s, hsettles⟩
    · rcases ih hopen.memory with hall | ⟨before, u, later, hash, s, rfl, hbefore, hu, hlater⟩
      · refine .inl fun v hv => ?_
        rcases List.mem_cons.mp hv with rfl | hv
        · exact hopen
        · exact hsame.leavesOpen (hall v hv)
      · refine .inr ⟨t :: before, u, later, hash, s, rfl, fun v hv => ?_, hsame.settles hu,
          fun v hv => hsame.keepsTo (hlater v hv)⟩
        rcases List.mem_cons.mp hv with rfl | hv
        · exact hopen
        · exact hsame.leavesOpen (hbefore v hv)
    · refine .inr ⟨[], t, rest, hash, s, rfl, fun v hv => absurd hv List.not_mem_nil, hsettles,
        fun v hv => ?_⟩
      exact hsame.keepsTo (takes_settled hrest hsettles.memory v hv)

/-- **The digest is computed at most once and never made up.**  Whatever the surroundings answer:
making a dataset asks no frame for its hash and reports no digest.  A dataset that was given a
digest never asks for a hash, reports no digest and has no other one.
Otherwise every call that needs the digest asks the frame for its hash once and fails with the
frame, up to the first hash that comes; that one call keeps and reports its digest, and from then on
no frame is asked and no digest reported, and every answer carries that digest. -/
theorem digest_settles_once {given : Option String} {made : List (Exchange F)} {d : Dataset F}
    (hd : Made given made d) {turns : List (Turn F)} (h : Takes d turns) :
    d.Silent made ∧
    (∀ s, given = some s → ∀ t ∈ turns, d.KeepsTo t s) ∧
    (given = none →
      (∀ t ∈ turns, d.LeavesOpen t) ∨
      ∃ before t later hash s, turns = before ++ t :: later ∧ (∀ u ∈ before, d.LeavesOpen u) ∧
        d.Settles t hash s ∧ ∀ u ∈ later, d.KeepsTo u s) := by
  obtain ⟨hdigest, -⟩ := hd.remembers
  refine ⟨hd.discreet.silent d, ?_, ?_⟩
  · rintro s rfl
    exact takes_settled h hdigest
  · rintro rfl
    exact takes_open h hdigest

/-- A dataset over a stand-in for a frame, with a recorder that watches it. -/
def watched : Dataset Unit :=
  fresh () (.table (.sql "SELECT 1")) ⟨none, none, none⟩
    { DatasetOptions.standard with observer := some (.recorder "log") }

/-- The digest is asked for three times: in vain, then with an answer, then again. -/
def threeCalls (f : Failure) (hash : Int64) (s : String) : List (Turn Unit) :=
  [⟨.digest, [⟨.planHash (), .error f⟩], .digest (.error f), watched⟩,
   ⟨.digest,
    [⟨.planHash (), .ok hash⟩, ⟨.note (.digestComputed watched.name s), ()⟩,
     ⟨.deliver "log" watched.context (.digest s), ()⟩],
    .digest (.ok s), { watched with knownDigest := some s }⟩,
   ⟨.digest, [], .digest (.ok s), { watched with knownDigest := some s }⟩]

theorem digest_settles_at_second_call :
    ∃ s, Digest.ofHash 7 = .ok s ∧ Made none [] watched ∧
      Takes watched (threeCalls (.tableNotFound "t") 7 s) ∧
      ((∀ t ∈ threeCalls (.tableNotFound "t") 7 s, watched.LeavesOpen t) ∨
      ∃ before t later hash s', threeCalls (.tableNotFound "t") 7 s = before ++ t :: later ∧
        (∀ u ∈ before, watched.LeavesOpen u) ∧ watched.Settles t hash s' ∧
        ∀ u ∈ later, watched.KeepsTo u s') := by
  obtain ⟨s, hs⟩ := ofHash_ok 7
  have hmake : Runs (make () watched.source ⟨none, none, none⟩ watched.options) [] (.ok watched) :=
    runs_pure.mpr ⟨rfl, rfl⟩
  have hmade : Made none [] watched := .direct hmake rfl
  have htold : Runs (watched.emit (.digest s))
      [⟨.deliver "log" watched.context (.digest s), ()⟩] () := runs_single.mpr rfl
  have htakes : Takes watched (threeCalls (.tableNotFound "t") 7 s) := by
    refine .cons (runs_mapView.mpr ⟨_, runs_digest.mpr (.failed rfl), rfl⟩) ?_
    refine .cons (runs_mapView.mpr ⟨_, runs_digest.mpr (.computed rfl hs htold), rfl⟩) ?_
    exact .cons (runs_mapView.mpr ⟨_, runs_digest.mpr (.known rfl), rfl⟩) .nil
  exact ⟨s, hs, hmade, htakes, (digest_settles_once hmade htakes).2.2 rfl⟩

end Dataset
end Lineage
