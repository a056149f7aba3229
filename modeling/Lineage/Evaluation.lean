import Lineage.Json.Decoder
/-
  Graded examples for prompts.

  An example shows a question, an answer, its score and why.  It may come with the context that
  the answer was given in: a text, or a list of entries, whose order and repetitions are kept.
  `render` sets it out for the prompt; `toJson` and `decoder` write it and read it back.
-/

namespace Lineage

/-- The context of an answer. -/
inductive GradingContext where
  | entries (entries : List (String × String))
  | text (text : String)
deriving DecidableEq, Repr

namespace GradingContext

/-- An entry, set out for the prompt. -/
def renderEntry (entry : String × String) : String :=
  "key: " ++ entry.1 ++ "\nvalue:\n" ++ entry.2

/-- The context, set out for the prompt: one entry below the other. -/
def render : GradingContext → String
  | entries es => String.intercalate "\n" (es.map renderEntry)
  | text s => s

/-- The context in JSON: entries are the members of an object, in order. -/
def toJson : GradingContext → Json
  | entries es => .object (es.map fun (key, value) => (key, .text value))
  | text s => .text s

/-- Reads a context. -/
def decoder : Json.Decoder GradingContext
  | _, .text _ (.ok s) _ => .ok (text s)
  | m, .object start members ending => do
    let es ← Json.Decoder.members Json.Decoder.text (← m.inside start) members
    ending.read
    return entries es
  | m, .array start items ending => do
    let _ ← m.inside start
    .error (m.mismatch "a string or a map of strings" (.array start items ending))
  | m, doc => .error (m.mismatch "a string or a map of strings" doc)

end GradingContext

/-- A graded example. -/
structure Example where
  input : String
  output : String
  score : Binary64
  justification : String
  context : Option GradingContext
deriving DecidableEq, Repr

namespace Example

/-- The example, set out for the prompt. -/
def render (e : Example) : String :=
  let context :=
    match e.context with
    | some c => "Additional information used by the model:\n" ++ c.render
    | none => ""
  "\nInput:\n" ++ e.input ++ "\n\nOutput:\n" ++ e.output ++ "\n\n" ++ context ++
    "\n\nscore: " ++ Decimal.Layout.plain.text e.score ++
    "\njustification: " ++ e.justification ++ "\n"

/-- The example in JSON; a context that is missing is left out. -/
def toJson (e : Example) : Json :=
  .object
    ([("input", .text e.input), ("output", .text e.output), ("score", .number (.float e.score)),
      ("justification", .text e.justification)] ++
      e.context.toList.map fun c => ("grading_context", c.toJson))

/-- The members to read. -/
def record : Json.Record Example :=
  let text (name : String) : Json.Field String := ⟨name, Json.Decoder.text, none, none⟩
  let score : Json.Field Binary64 := ⟨"score", Json.Decoder.binary64, none, none⟩
  let context : Json.Field (Option GradingContext) :=
    ⟨"grading_context", GradingContext.decoder.option, some none, some none⟩
  let parts :=
    (text "input").record.and ((text "output").record.and
      (score.record.and ((text "justification").record.and context.record)))
  parts.map fun (i, o, s, j, c) => ⟨i, o, s, j, c⟩

/-- Reads an example. -/
def decoder : Json.Decoder Example := record.decoder "struct EvaluationExample"

end Example
end Lineage
