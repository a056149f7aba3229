import Lineage.Dialogue
/-
  Datasets: a frame together with where it came from.

  A dataset remembers two things once it has worked them out, its digest and its schema; a digest
  may also be given to it from the start.
-/

namespace Lineage

/-- How a schema is worked out from the columns of a frame. -/
inductive Inferrer where
  /-- By the table of types. -/
  | standard
  /-- By someone else, known by a number. -/
  | external (id : Nat)
deriving DecidableEq, Repr

/-- Settings of a dataset. -/
structure DatasetOptions where
  /-- The most rows that are materialized. -/
  rowLimit : Nat
  /-- The time for counting rows. -/
  timeout : Duration
  /-- The confidence wanted of the count. -/
  confidence : Binary64
  inferrer : Inferrer
  observer : Option Observer

/-- Ten thousand rows, one second, nine tenths, and nobody watching. -/
def DatasetOptions.standard : DatasetOptions where
  rowLimit := 10000
  timeout := ⟨1000⟩
  confidence := .ofDecimal false 9 (-1)
  inferrer := .standard
  observer := none

/-- A frame and where it came from. -/
structure Dataset (F : Type) where
  frame : F
  source : Source
  /-- The label column. -/
  targets : Option String
  name : String
  /-- The digest, once it is known. -/
  knownDigest : Option String
  /-- The schema once it has been asked for; it may be that there is none. -/
  knownSchema : Option (Option Schema)
  options : DatasetOptions

/-- What is given with a dataset when it is made. -/
structure Labels where
  targets : Option String
  name : Option String
  digest : Option String
deriving DecidableEq, Repr

namespace Dataset

variable {F : Type}

/-- The name of a dataset that is given none. -/
def defaultName : String := "dataset"

/-- The dataset, in its events. -/
def context (d : Dataset F) : Context := ⟨d.name, d.source.typeName⟩

/-- Tells the observer of an event, if there is one. -/
def emit (d : Dataset F) (e : Event) : Dialogue F Unit :=
  match d.options.observer with
  | some o => o.notify d.context e
  | none => pure ()

/-- The dataset before anything has been worked out. -/
def fresh (frame : F) (source : Source) (labels : Labels) (options : DatasetOptions) :
    Dataset F where
  frame := frame
  source := source
  targets := labels.targets
  name := labels.name.getD defaultName
  knownDigest := labels.digest
  knownSchema := none
  options := options

/-- Makes a dataset.  If it has a label column, that must be one of the frame's columns; without
one the frame is not asked. -/
def make (frame : F) (source : Source) (labels : Labels) (options : DatasetOptions) :
    Dialogue F (Except Failure (Dataset F)) :=
  match labels.targets with
  | none => pure (.ok (fresh frame source labels options))
  | some target => do
    match ← Dialogue.columns frame with
    | .error f => return .error f
    | .ok columns =>
      if columns.any (·.1 == target) then return .ok (fresh frame source labels options)
      else return .error (.invalidParameter (.targetUnknown target))

end Dataset

/-! ## Descriptions -/

/-- The description of settings. -/
def DatasetOptions.describe (o : DatasetOptions) : String :=
  let profile :=
    "ProfileOptions \x7b timeout: " ++ o.timeout.describe ++ ", confidence: " ++
      Decimal.Layout.described.text o.confidence ++ " \x7d"
  "DatasetOptions \x7b pyfunc_row_limit: " ++ toString o.rowLimit ++ ", profile: " ++ profile ++
    ", observer_set: " ++ toString o.observer.isSome ++ ", .. \x7d"

/-- The description of a dataset. -/
def Dataset.describe {F : Type} (d : Dataset F) : String :=
  "Dataset \x7b name: " ++ Text.quoted d.name ++ ", source: " ++ d.source.describe ++
    ", targets: " ++ Text.optional Text.quoted d.targets ++
    ", digest: " ++ Text.optional Text.quoted d.knownDigest ++
    ", options: " ++ d.options.describe ++ ", .. \x7d"

end Lineage
