import Lineage.Proofs.Evaluation.Contexts
/-
  Examples in JSON.

  An example is written as an object and read back from there.  Its texts come back as they were,
  and so does its context, also when there is none.  The score is the weak point: it is written with
  the digits that tell it from all other doubles, but read by rounding these digits, and then again
  when they are scaled, so another double may come of it.  There is no text at all for an infinite
  score.

  What an example is read from is told by the members of an object (`IsTold`), whatever their order.
  What is written of an example comes back as such an object (`back_toJson`), and its members say
  what is read (`isTold_membersBack_iff`).
-/

namespace Lineage

open Json (Doc Decoder Field Told)
open Json.Decoder.Number (toBinary64)

/-- Of the documents of a value, a context is read from that of what it is written as. -/
theorem GradingContext.accepts_decoder : decoder.Accepts fun j g => j = g.toJson := by
  intro m doc j g hm hdoc
  constructor
  · exact fun h => hdoc.unique (spells_of_decoder h)
  · rintro rfl
    exact g.reads_toJson m doc hm hdoc

theorem GradingContext.toJson_ne_null (g : GradingContext) : g.toJson ≠ .null := by
  cases g <;> exact fun h => by cases h

/-- Different contexts are written differently, as each is read back. -/
theorem GradingContext.toJson_inj {g g' : GradingContext} (h : g.toJson = g'.toJson) : g = g' := by
  have hback := readText_toJson g
  rw [h, readText_toJson g'] at hback
  exact (Except.ok.inj hback).symm

/-- A context tells itself, and no other one is written as it is. -/
theorem GradingContext.told_iff {context context' : Option GradingContext} :
    Told toJson (context.map toJson) context' ↔ context' = context := by
  cases context with
  | none =>
    cases context' with
    | none => exact iff_of_true (.inl rfl) rfl
    | some g => exact iff_of_false (fun h => by cases h) fun h => by cases h
  | some g =>
    cases context' with
    | none =>
      refine iff_of_false ?_ fun h => by cases h
      rintro (hno | hnull)
      · cases hno
      · exact toJson_ne_null g (Option.some.inj hnull)
    | some g' =>
      show some g.toJson = some g'.toJson ↔ _
      rw [Option.some_inj, Option.some_inj]
      exact ⟨fun h => (toJson_inj h).symm, fun h => h ▸ rfl⟩

namespace Example

/-! ## Reading members -/

/-- The members tell the example: its texts, a number for its score, and its context, which may be
missing or `null` where there is none. -/
structure IsTold (e : Example) (members : List (String × Json)) : Prop where
  input : members.lookup "input" = some (.text e.input)
  output : members.lookup "output" = some (.text e.output)
  score : ∃ n, members.lookup "score" = some (.number n) ∧ toBinary64 n = e.score
  justification : members.lookup "justification" = some (.text e.justification)
  context : Told GradingContext.toJson (members.lookup "grading_context") e.context

theorem value_score {members : List (String × Json)} {x : Binary64} :
    Field.Value ⟨"score", Decoder.binary64, none, none⟩
        (fun j x => ∃ n, j = .number n ∧ toBinary64 n = x) members x ↔
      ∃ n, members.lookup "score" = some (.number n) ∧ toBinary64 n = x := by
  unfold Field.Value
  cases members.lookup "score" with
  | some j => simp only [Option.some.injEq]
  | none => exact iff_of_false (fun h => by cases h) (by rintro ⟨_, h, -⟩; cases h)

theorem value_context {members : List (String × Json)} {context : Option GradingContext} :
    Field.Value ⟨"grading_context", GradingContext.decoder.option, some none, some none⟩
        (fun j o => j = .null ∧ o = none ∨ j ≠ .null ∧ ∃ g : GradingContext, j = g.toJson ∧ some g = o)
        members context ↔ Told GradingContext.toJson (members.lookup "grading_context") context :=
  Field.value_optional GradingContext.toJson_ne_null

/-- The record of an example gathers what the members tell. -/
theorem record_accepts : record.Accepts fun members e => e.IsTold members := by
  have htext := fun name : String =>
    Field.accepts (f := ⟨name, Decoder.text, none, none⟩) Decoder.accepts_text
  have hscore := Field.accepts (f := ⟨"score", Decoder.binary64, none, none⟩)
    Decoder.accepts_binary64
  have hcontext := Field.accepts
    (f := ⟨"grading_context", GradingContext.decoder.option, some none, some none⟩)
    GradingContext.accepts_decoder.option
  have hrecord : record.Accepts _ :=
    ((htext "input").and ((htext "output").and
      (hscore.and ((htext "justification").and hcontext)))).map
        fun x => Example.mk x.1 x.2.1 x.2.2.1 x.2.2.2.1 x.2.2.2.2
  refine hrecord.congr fun members e => ?_
  constructor
  · rintro ⟨⟨i, o, s, j, c⟩, ⟨hi, ho, hs, hj, hc⟩, rfl⟩
    exact ⟨Field.value_required.mp hi, Field.value_required.mp ho, value_score.mp hs,
      Field.value_required.mp hj, value_context.mp hc⟩
  · rintro ⟨hi, ho, hs, hj, hc⟩
    refine ⟨(e.input, e.output, e.score, e.justification, e.context), ⟨?_, ?_, ?_, ?_, ?_⟩, rfl⟩
    · exact Field.value_required.mpr hi
    · exact Field.value_required.mpr ho
    · exact value_score.mpr hs
    · exact Field.value_required.mpr hj
    · exact value_context.mpr hc

/-- **A text that is an object is read as the example that its members tell**, in any order. -/
theorem readText_object {text : String} {members : List (String × Json)}
    (h : Json.parse text = .ok (.object members)) (hnodup : (members.map Prod.fst).Nodup)
    (e : Example) : decoder.readText text = .ok e ↔ e.IsTold members := by
  obtain ⟨hspells, hdepth, hreaders⟩ := Json.spells_of_parse h
  have hnames : (Json.ownNames record.fields members).Nodup := hnodup.filter _
  rw [Decoder.readText, hreaders]
  cases hdoc : Doc.ofChars text.toList with
  | object start docs ending =>
    rw [hdoc] at hspells
    cases hspells with
    | object _ stop hdocs =>
      have hread : decoder (.direct Doc.depthLimit) (.object start docs (.closed stop)) = .ok e ↔ _ :=
        record_accepts.object "struct EvaluationExample" hdepth hdocs
      exact hread.trans (and_iff_right hnames)
  | _ =>
    rw [hdoc] at hspells
    cases hspells

/-! ## Writing and reading back -/

/-- The members that come back of what is written. -/
def membersBack (e : Example) : List (String × Json) :=
  [("input", .text e.input), ("output", .text e.output), ("score", (Json.Number.float e.score).back),
    ("justification", .text e.justification)] ++
    e.context.toList.map fun c => ("grading_context", c.toJson)

theorem back_toJson (e : Example) : e.toJson.Signed ∧ e.toJson.back = .object e.membersBack := by
  obtain ⟨i, o, s, j, context⟩ := e
  cases context with
  | none => exact ⟨⟨trivial, trivial, trivial, trivial, trivial⟩, rfl⟩
  | some g =>
    obtain ⟨hsigned, hback⟩ := Json.back_of_whole g.whole_toJson
    refine ⟨⟨trivial, trivial, trivial, trivial, hsigned, trivial⟩, ?_⟩
    show Json.object [_, _, _, _, ("grading_context", g.toJson.back)] = _
    rw [hback]
    rfl

theorem nodup_membersBack (e : Example) : (e.membersBack.map Prod.fst).Nodup := by
  obtain ⟨i, o, s, j, context⟩ := e
  cases context with
  | none =>
    have hnames : ["input", "output", "score", "justification"].Nodup := by decide
    exact hnames
  | some g =>
    have hnames : ["input", "output", "score", "justification", "grading_context"].Nodup := by decide
    exact hnames

theorem depth_back_toJson (e : Example) : e.toJson.back.depth < Doc.depthLimit := by
  obtain ⟨i, o, s, j, context⟩ := e
  have hscore : (Json.Number.float s).back.depth = 0 := by
    rw [Json.Number.back]
    split_ifs <;> rfl
  have hfour : ∀ g : Nat, max 0 (max 0 (max (Json.Number.float s).back.depth (max 0 g))) = g := by
    intro g
    rw [hscore]
    omega
  rw [(back_toJson _).2]
  cases context with
  | none =>
    show max 0 (max 0 (max (Json.Number.float s).back.depth (max 0 0))) + 1 < 128
    rw [hfour]
    decide
  | some g =>
    have hcontext := g.depth_toJson
    show max 0 (max 0 (max (Json.Number.float s).back.depth (max 0 (max g.toJson.depth 0)))) + 1 < 128
    rw [hfour]
    omega

/-- A score that comes back is a number only if it is finite. -/
theorem number_back_iff {x y : Binary64} :
    (∃ n, (Json.Number.float x).back = .number n ∧ toBinary64 n = y) ↔
      x.isFinite = true ∧ y = Json.reread x := by
  rw [Json.Number.back]
  cases x.isFinite with
  | true =>
    constructor
    · rintro ⟨n, hn, rfl⟩
      obtain rfl := Json.number.inj hn
      exact ⟨rfl, rfl⟩
    · rintro ⟨-, rfl⟩
      exact ⟨_, rfl, rfl⟩
  | false => exact iff_of_false (by rintro ⟨_, hno, -⟩; cases hno) (by rintro ⟨hno, -⟩; cases hno)

/-- The members that come back tell one example, if the score is finite: the one that was written,
with the score that comes back. -/
theorem isTold_membersBack_iff {e e' : Example} : e'.IsTold e.membersBack ↔
    e.score.isFinite = true ∧ e' = { e with score := Json.reread e.score } := by
  obtain ⟨i, o, x, j, context⟩ := e
  obtain ⟨i', o', x', j', context'⟩ := e'
  have hcontext : (Example.mk i o x j context).membersBack.lookup "grading_context" =
      context.map GradingContext.toJson := by
    cases context <;> rfl
  constructor
  · rintro ⟨hinput, houtput, ⟨n, hscore, hnumber⟩, hjustification, htold⟩
    cases hinput
    cases houtput
    cases hjustification
    obtain ⟨hfinite, rfl⟩ := number_back_iff.mp ⟨n, Option.some.inj hscore, hnumber⟩
    rw [hcontext] at htold
    obtain rfl : context' = context := GradingContext.told_iff.mp htold
    exact ⟨hfinite, rfl⟩
  · rintro ⟨hfinite, he⟩
    cases he
    obtain ⟨n, hscore, hnumber⟩ := number_back_iff.mpr ⟨hfinite, rfl⟩
    refine ⟨rfl, rfl, ⟨n, congrArg some hscore, hnumber⟩, rfl, ?_⟩
    rw [hcontext]
    exact GradingContext.told_iff.mpr rfl

/-- What is read of what is written of an example. -/
theorem readText_toJson {e e' : Example} : decoder.readText e.toJson.render = .ok e' ↔
    e.score.isFinite = true ∧ e' = { e with score := Json.reread e.score } := by
  obtain ⟨hsigned, hback⟩ := e.back_toJson
  have hparse := Json.parse_back hsigned e.depth_back_toJson
  rw [hback] at hparse
  exact (readText_object hparse e.nodup_membersBack e').trans isTold_membersBack_iff

/-- **What comes back of an example.**  An example whose score is finite is read back as it was, but
that another score may come back; with any other score nothing is read.  So an example survives just
when its score does.  A score does that is the double nearest to a decimal of few digits. -/
theorem examples_come_back (e : Example) :
    (∀ e' : Example, decoder.readText e.toJson.render = .ok e' ↔
      e.score.isFinite = true ∧ e' = { e with score := Json.reread e.score }) ∧
    (decoder.readText e.toJson.render = .ok e ↔
      e.score.isFinite = true ∧ Json.reread e.score = e.score) ∧
    ∀ (negative : Bool) (n places : Nat), n ≤ 3 * 10 ^ 14 → places ≤ 21 →
      e.score = .ofRatio negative n (10 ^ places) → decoder.readText e.toJson.render = .ok e := by
  have hsame : decoder.readText e.toJson.render = .ok e ↔
      e.score.isFinite = true ∧ Json.reread e.score = e.score := by
    rw [readText_toJson]
    refine and_congr_right fun _ => ⟨fun h => ?_, fun h => ?_⟩
    · exact (congrArg Example.score h).symm
    · rw [h]
  refine ⟨fun e' => readText_toJson, hsame, fun negative n places hn hplaces hscore => ?_⟩
  rw [hsame, hscore]
  exact Json.reread_ofRatio negative hn hplaces

/-- An example with a score. -/
def scored (x : Binary64) : Example := ⟨"question", "answer", x, "reason", none⟩

theorem scored_hundredths :
    85 ≤ 3 * 10 ^ 14 ∧ decoder.readText (scored (.ofRatio true 85 (10 ^ 2))).toJson.render =
      .ok (scored (.ofRatio true 85 (10 ^ 2))) := by
  have hn : 85 ≤ 3 * 10 ^ 14 := by decide
  exact ⟨hn, (examples_come_back _).2.2 true 85 2 hn (by decide) rfl⟩

/-- Fourteen fifteenths, `0.9333333333333333`, come back as the double below.  No text can be read
as an infinite score. -/
theorem scores_lost :
    (Binary64.ofRatio false 14 15 = ⟨4606581938849701342⟩ ∧
      decoder.readText (scored ⟨4606581938849701342⟩).toJson.render =
        .ok (scored ⟨4606581938849701341⟩)) ∧
    (Binary64.infinity false).isNaN = false ∧
    ∀ e, decoder.readText (scored (.infinity false)).toJson.render ≠ .ok e := by
  have hfraction : Binary64.ofRatio false 14 15 = ⟨4606581938849701342⟩ := by decide +kernel
  have hfinite : (⟨4606581938849701342⟩ : Binary64).isFinite = true := by decide +kernel
  have hless : Json.reread ⟨4606581938849701342⟩ = ⟨4606581938849701341⟩ := by decide +kernel
  refine ⟨⟨hfraction, readText_toJson.mpr ⟨hfinite, congrArg scored hless.symm⟩⟩, by decide,
    fun e h => ?_⟩
  have hinfinite : (Binary64.infinity false).isFinite = false := by decide
  cases hinfinite.symm.trans (readText_toJson.mp h).1

end Example
end Lineage
