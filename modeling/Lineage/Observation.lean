import Lineage.Decimal.Layout
import Lineage.Files.Format
import Lineage.Inference
import Lineage.Source
/-
  What can be seen of a dataset at work.

  An event tells that a dataset has computed something, or that it goes on without a schema; it
  is delivered to the dataset's observer.  A note is a line of the program's own diagnostics.
  Both are kept as data here, and their wording is made when they are shown.
-/

namespace Lineage

/-- The dataset that an event is about. -/
structure Context where
  dataset : String
  sourceType : String
deriving DecidableEq, Repr

/-- What has happened to a dataset. -/
inductive Event where
  | digest (digest : String)
  | profile (profile : Profile)
  | materialized (rows columns limit : Nat)
  | schemaDegraded (failure : Failure)

/-- The line that an event leaves in a log file, behind its time. -/
def Event.logLine (c : Context) (e : Event) : String :=
  let about (kind : String) := kind ++ " dataset=" ++ c.dataset ++ " source_type=" ++ c.sourceType
  match e with
  | digest d => about "digest" ++ " digest=" ++ d
  | profile p => about "profile" ++ s!" approx_count={p.approxCount}"
  | materialized rows columns limit =>
    about "materialized" ++ s!" rows={rows} columns={columns} limit={limit}"
  | schemaDegraded f => about "schema_degraded" ++ " err=" ++ f.message

/-- A span of time. -/
structure Duration where
  milliseconds : Nat
deriving DecidableEq, Repr

/-- The description of a span of time, in the largest unit that is not longer than it. -/
def Duration.describe (d : Duration) : String :=
  let ms := d.milliseconds
  if ms = 0 then "0ns"
  else if ms < 1000 then s!"{ms}ms"
  else
    let padded := (toString (1000 + ms % 1000)).toList.drop 1
    let fraction := (padded.reverse.dropWhile (· = '0')).reverse
    let point := if fraction.isEmpty then "" else "." ++ String.ofList fraction
    toString (ms / 1000) ++ point ++ "s"

/-- How urgent a note is. -/
inductive Level where
  | debug | info | warn
deriving DecidableEq, Repr

/-- A value in a note. -/
inductive NoteValue where
  | text (s : String)
  | number (n : Nat)
deriving DecidableEq, Repr

/-- A diagnostic note, by its cause. -/
inductive Note where
  | digestComputed (dataset digest : String)
  | schemaFailed (dataset : String) (failure : Failure)
  | rowsMaterialized (dataset : String) (rows limit : Nat)
  | snapshotLoading (path : String) (version : UInt64)
  | fileLoading (path : String) (format : FileFormat)
  | versionedLoaded (table : VersionedTable)
  | countSlow (timeout : Duration)
  | observed (context : Context) (event : Event)

namespace Note

/-- The urgency of a note. -/
def level : Note → Level
  | schemaFailed _ _ | observed _ (.schemaDegraded _) => .warn
  | observed _ _ => .info
  | _ => .debug

/-- The part of the program that a note comes from. -/
def target : Note → String
  | digestComputed _ _ | schemaFailed _ _ | rowsMaterialized _ _ _ => "tracked_dataset::dataset"
  | snapshotLoading _ _ | fileLoading _ _ => "tracked_dataset::catalog::local"
  | versionedLoaded _ => "tracked_dataset::factory"
  | countSlow _ => "tracked_dataset::frame::lazy"
  | observed _ _ => "tracked_dataset::events"

/-- The text of a note. -/
def message : Note → String
  | digestComputed _ _ => "computed dataset digest"
  | schemaFailed _ _ => "failed to infer schema for dataset"
  | rowsMaterialized _ _ _ => "materialized dataset rows"
  | snapshotLoading _ _ => "loading versioned table snapshot"
  | fileLoading _ _ => "loading table from path"
  | versionedLoaded _ => "loaded versioned table"
  | countSlow _ => "row count exceeded profile timeout"
  | observed _ (.digest _) => "digest computed"
  | observed _ (.profile _) => "profile computed"
  | observed _ (.materialized _ _ _) => "rows materialized"
  | observed _ (.schemaDegraded _) => "schema unavailable"

/-- The values that belong to an event. -/
def eventFields : Event → List (String × NoteValue)
  | .digest d => [("digest", .text d)]
  | .profile p => [("approx_count", .number p.approxCount.toNat)]
  | .materialized rows columns limit =>
    [("rows", .number rows), ("columns", .number columns), ("limit", .number limit)]
  | .schemaDegraded f => [("error", .text f.message)]

/-- The values that belong to a note. -/
def fields : Note → List (String × NoteValue)
  | digestComputed dataset digest => [("dataset", .text dataset), ("digest", .text digest)]
  | schemaFailed dataset f => [("dataset", .text dataset), ("error", .text f.message)]
  | rowsMaterialized dataset rows limit =>
    [("dataset", .text dataset), ("rows", .number rows), ("limit", .number limit)]
  | snapshotLoading path version => [("path", .text path), ("version", .number version.toNat)]
  | fileLoading path format => [("path", .text path), ("format", .text format.name)]
  | versionedLoaded table => [("source", .text table.describe)]
  | countSlow timeout => [("timeout_ms", .number timeout.milliseconds)]
  | observed c e =>
    ("dataset", .text c.dataset) :: ("source_type", .text c.sourceType) :: eventFields e

end Note

/-- Someone who is told of the events of a dataset. -/
inductive Observer where
  /-- Keeps the events under a name. -/
  | recorder (id : String)
  /-- Takes no notice. -/
  | silent
  /-- Makes a note of every event. -/
  | tracing
  /-- Writes a line for every event to the end of a file. -/
  | file (path : String)
  /-- Tells several others, in order. -/
  | composite (observers : List Observer)
deriving Inhabited

/-- The description of an observer that has one. -/
def Observer.describe? : Observer → Option String
  | tracing => some "TracingObserver"
  | composite observers =>
    some ("CompositeObserver \x7b observers_len: " ++ toString observers.length ++ " \x7d")
  | _ => none

end Lineage
