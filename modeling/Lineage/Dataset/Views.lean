import Lineage.Dataset.Basic
import Lineage.Digest
/-
  The views of a dataset: digest, profile, schema, first rows, and the descriptor of them all.

  A view is a dialogue that ends in its answer and in the dataset as it is afterwards.  The
  digest is asked of the frame until there is one, and remembered; the schema is worked out once,
  and if that fails the dataset has none from then on.  Profile and rows are worked out anew each
  time.
-/

namespace Lineage

/-- A view: a dialogue that may change what the dataset remembers. -/
abbrev View (F α : Type) := Dataset F → Dialogue F (α × Dataset F)

/-- The first rows of a dataset, with the label column set apart. -/
structure Split where
  inputs : Table
  outputs : Option Series

/-- What the tracking store keeps of a dataset. -/
structure Descriptor where
  name : String
  digest : String
  source : String
  sourceType : String
  schema : Option String
  profile : String
deriving DecidableEq, Repr

namespace Descriptor

/-- The entries of a descriptor, ordered by key. -/
def entries (d : Descriptor) : List (String × String) :=
  [("digest", d.digest), ("name", d.name), ("profile", d.profile)] ++
    (d.schema.toList.map fun s => ("schema", s)) ++
    [("source", d.source), ("source_type", d.sourceType)]

/-- A descriptor in JSON. -/
def toJson (d : Descriptor) : Json := .object (d.entries.map fun (key, value) => (key, .text value))

/-- The name under which the columns stand in the text of a schema. -/
def columnsKey : String := "mlflow_colspec"

/-- The text of a schema in a descriptor. -/
def schemaText (s : Schema) : String := (Json.object [(columnsKey, s.toDict)]).render

/-- A descriptor from its parts. -/
def of {F : Type} (d : Dataset F) (digest : String) (schema : Option Schema) (profile : Profile) :
    Descriptor where
  name := d.name
  digest := digest
  source := d.source.toDict.render
  sourceType := d.source.typeName
  schema := schema.map schemaText
  profile := profile.toJson.render

end Descriptor

namespace Dataset

variable {F : Type}

/-- The digest: the one that is known, or else the digest of the frame's plan. -/
def digest : View F (Except Failure String) := fun d =>
  match d.knownDigest with
  | some s => pure (.ok s, d)
  | none => do
    match (← Dialogue.planHash d.frame).bind Digest.ofHash with
    | .error f => return (.error f, d)
    | .ok s => do
      Dialogue.note (.digestComputed d.name s)
      d.emit (.digest s)
      return (.ok s, { d with knownDigest := some s })

/-- The profile: the number of rows. -/
def profile : View F (Except Failure Profile) := fun d => do
  match ← Dialogue.countRows d.frame d.options.timeout d.options.confidence with
  | .error f => return (.error f, d)
  | .ok n => do
    d.emit (.profile ⟨n⟩)
    return (.ok ⟨n⟩, d)

/-- Works out a schema for the frame. -/
def inferred (d : Dataset F) : Dialogue F (Except Failure Schema) := do
  match ← Dialogue.columns d.frame with
  | .error f => return .error f
  | .ok columns =>
    match d.options.inferrer with
    | .standard => return Schema.infer columns
    | .external id => Dialogue.infer id columns

/-- The schema, worked out at the first time. -/
def schema : View F (Option Schema) := fun d =>
  match d.knownSchema with
  | some s => pure (s, d)
  | none => do
    match ← d.inferred with
    | .ok s => return (some s, { d with knownSchema := some (some s) })
    | .error f => do
      Dialogue.note (.schemaFailed d.name f)
      d.emit (.schemaDegraded f)
      return (none, { d with knownSchema := some none })

/-- Sets the label column of a table apart. -/
def splitTable (targets : Option String) (t : Table) : Except Failure Split :=
  match targets with
  | none => .ok ⟨t, none⟩
  | some target =>
    match Table.indexOf? t.columns target, t.columns.lookup target with
    | some i, some dtype => .ok ⟨t.dropColumn i, some ⟨target, dtype, t.cells i⟩⟩
    | _, _ => .error (.internal (.targetLost target))

/-- The first rows, split. -/
def split : View F (Except Failure Split) := fun d => do
  match ← Dialogue.firstRows d.frame d.options.rowLimit with
  | .error f => return (.error f, d)
  | .ok t => do
    Dialogue.note (.rowsMaterialized d.name t.height d.options.rowLimit)
    d.emit (.materialized t.height t.width d.options.rowLimit)
    return (splitTable d.targets t, d)

/-- The descriptor: digest, schema and profile in this order, up to the first that fails. -/
def descriptor : View F (Except Failure Descriptor) := fun d => do
  let (digest, d) ← d.digest
  match digest with
  | .error f => return (.error f, d)
  | .ok digest => do
    let (schema, d) ← d.schema
    let (profile, d) ← d.profile
    return (profile.map (Descriptor.of d digest schema), d)

/-- The descriptor, in JSON. -/
def descriptorText : View F (Except Failure String) := fun d => do
  let (descriptor, d) ← d.descriptor
  return (descriptor.map fun x => x.toJson.render, d)

end Dataset
end Lineage
