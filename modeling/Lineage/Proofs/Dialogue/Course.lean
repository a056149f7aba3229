import Lineage.Dialogue
/-
  Courses of dialogues.

  A dialogue fixes what is asked, not what is answered.  One of its courses is a list of
  exchanges, each a question with some answer, together with the value that the dialogue then ends
  in (`Dialogue.Runs`).  Nothing ties the answers to each other, so what holds of all courses holds
  in all surroundings, also in those that change or fail from one question to the next; in
  particular it holds of `Dialogue.run` (`Dialogue.runs_run`).

  A course of a bind is a course of the first part and one of the second (`Dialogue.runs_bind`);
  that, with the courses of single questions, takes every dialogue apart.
-/

namespace Lineage

/-- A question with its answer. -/
structure Exchange (F : Type) where
  question : Question F
  answer : question.Answer

namespace Dialogue

variable {F α β σ : Type}

/-- The dialogue can be carried out with these exchanges, and ends in this value. -/
inductive Runs : Dialogue F α → List (Exchange F) → α → Prop
  | done (a : α) : Runs (done a) [] a
  | ask {q : Question F} {next : q.Answer → Dialogue F α} {said : List (Exchange F)} {a : α}
      (r : q.Answer) : Runs (next r) said a → Runs (ask q next) (⟨q, r⟩ :: said) a

theorem runs_pure {a b : α} {said : List (Exchange F)} :
    Runs (pure a : Dialogue F α) said b ↔ said = [] ∧ b = a := by
  constructor
  · intro h
    cases h
    exact ⟨rfl, rfl⟩
  · rintro ⟨rfl, rfl⟩
    exact .done b

theorem runs_ask {q : Question F} {next : q.Answer → Dialogue F α} {said : List (Exchange F)}
    {a : α} : Runs (ask q next) said a ↔
      ∃ r rest, said = ⟨q, r⟩ :: rest ∧ Runs (next r) rest a := by
  constructor
  · intro h
    cases h with
    | ask r h => exact ⟨r, _, rfl, h⟩
  · rintro ⟨r, rest, rfl, h⟩
    exact .ask r h

theorem runs_bind {d : Dialogue F α} {f : α → Dialogue F β} {said : List (Exchange F)} {b : β} :
    Runs (d >>= f) said b ↔
      ∃ first a second, said = first ++ second ∧ Runs d first a ∧ Runs (f a) second b := by
  show Runs (d.bind f) said b ↔ _
  induction d generalizing said with
  | done a =>
    constructor
    · intro h
      exact ⟨[], a, said, rfl, .done a, h⟩
    · rintro ⟨first, a', second, rfl, ha, hb⟩
      cases ha
      exact hb
  | ask q next ih =>
    show Runs (.ask q fun r => (next r).bind f) said b ↔ _
    rw [runs_ask]
    constructor
    · rintro ⟨r, rest, rfl, h⟩
      obtain ⟨first, a, second, rfl, ha, hb⟩ := (ih r).mp h
      exact ⟨⟨q, r⟩ :: first, a, second, rfl, .ask r ha, hb⟩
    · rintro ⟨first, a, second, rfl, ha, hb⟩
      obtain ⟨r, rest, rfl, h⟩ := runs_ask.mp ha
      exact ⟨r, rest ++ second, rfl, (ih r).mpr ⟨rest, a, second, rfl, h, hb⟩⟩

/-- A single question ends in its answer. -/
theorem runs_single {q : Question F} {said : List (Exchange F)} {r : q.Answer} :
    Runs (ask q .done) said r ↔ said = [⟨q, r⟩] := by
  rw [runs_ask]
  constructor
  · rintro ⟨r', rest, rfl, h⟩
    cases h
    rfl
  · rintro rfl
    exact ⟨r, [], rfl, .done r⟩

/-- A course of a single question with a dialogue behind it. -/
theorem runs_ask_bind {q : Question F} {f : q.Answer → Dialogue F β} {said : List (Exchange F)}
    {b : β} : Runs (ask q .done >>= f) said b ↔
      ∃ r rest, said = ⟨q, r⟩ :: rest ∧ Runs (f r) rest b := runs_ask

/-- What surroundings make of a dialogue is one of its courses. -/
theorem runs_run (answer : (q : Question F) → σ → q.Answer × σ) (d : Dialogue F α) :
    ∀ s : σ, ∃ said, Runs d said (d.run answer s).1 := by
  induction d with
  | done a => exact fun s => ⟨[], .done a⟩
  | ask q next ih =>
    intro s
    obtain ⟨said, h⟩ := ih (answer q s).1 (answer q s).2
    exact ⟨⟨q, (answer q s).1⟩ :: said, .ask _ h⟩

end Dialogue

/-! ## Reports -/

/-- A message to an observer, or a question that an observer asks to deal with one. -/
def Question.isReport {F : Type} : Question F → Bool
  | deliver _ _ _ | note (.observed _ _) | now | appendLine _ _ => true
  | _ => false

/-- The part of a course in which observers are served. -/
def reports {F : Type} (said : List (Exchange F)) : List (Exchange F) :=
  said.filter fun x => x.question.isReport

@[simp] theorem reports_nil {F : Type} : reports ([] : List (Exchange F)) = [] := rfl

@[simp] theorem reports_append {F : Type} (first second : List (Exchange F)) :
    reports (first ++ second) = reports first ++ reports second := List.filter_append ..

/-- No report is among the exchanges with questions of a kind that no report is of. -/
theorem filter_of_isReport {F : Type} {kind : Question F → Bool}
    (hkind : ∀ q, q.isReport = true → kind q = false) {said : List (Exchange F)}
    (h : ∀ x ∈ said, x.question.isReport = true) : said.filter (fun x => kind x.question) = [] := by
  refine List.filter_eq_nil_iff.mpr fun x hx => ?_
  rw [hkind x.question (h x hx)]
  exact Bool.false_ne_true

/-! ## Hashes -/

/-- The answer to an exchange that asks a frame for its hash, with that frame. -/
def Exchange.hashReply? {F : Type} : Exchange F → Option (F × Except Failure Int64)
  | ⟨.planHash f, r⟩ => some (f, r)
  | _ => none

/-- The frames that are asked for their hash, with their answers, in order. -/
def hashReplies {F : Type} (said : List (Exchange F)) : List (F × Except Failure Int64) :=
  said.filterMap Exchange.hashReply?

theorem hashReplies_append {F : Type} (first second : List (Exchange F)) :
    hashReplies (first ++ second) = hashReplies first ++ hashReplies second :=
  List.filterMap_append ..

/-- A report asks no frame. -/
theorem hashReplies_of_isReport {F : Type} {said : List (Exchange F)}
    (h : ∀ x ∈ said, x.question.isReport = true) : hashReplies said = [] := by
  refine List.filterMap_eq_nil_iff.mpr ?_
  rintro ⟨q, r⟩ hx
  cases q with
  | planHash f => exact absurd (h _ hx) (by simp [Question.isReport])
  | _ => rfl

namespace Observer

open Dialogue

variable {F : Type}

mutual

/-- An observer that is told of an event does nothing but report. -/
theorem isReport_of_notify {c : Context} {e : Event} {said : List (Exchange F)} {u : Unit} :
    ∀ {o : Observer}, Runs (o.notify c e) said u → ∀ x ∈ said, x.question.isReport = true
  | .recorder id, h => by
    rw [runs_single.mp h]
    simp [Question.isReport]
  | .silent, h => by
    rw [(runs_pure.mp h).1]
    simp
  | .tracing, h => by
    rw [runs_single.mp h]
    simp [Question.isReport]
  | .file path, h => by
    obtain ⟨time, rest, rfl, hline⟩ := runs_ask_bind.mp h
    rw [runs_single.mp hline]
    simp [Question.isReport]
  | .composite _, h => isReport_of_notifyAll h

theorem isReport_of_notifyAll {c : Context} {e : Event} {said : List (Exchange F)} {u : Unit} :
    ∀ {os : List Observer}, Runs (notifyAll c e os) said u → ∀ x ∈ said, x.question.isReport = true
  | [], h => by
    rw [(runs_pure.mp h).1]
    simp
  | o :: rest, h => by
    obtain ⟨first, _, second, rfl, ho, hrest⟩ := runs_bind.mp h
    intro x hx
    rcases List.mem_append.mp hx with hx | hx
    · exact isReport_of_notify ho x hx
    · exact isReport_of_notifyAll hrest x hx

end

end Observer
end Lineage
