import Lineage.Session.State
/-
  The steps of a session and what they answer.

  A step that fails leaves the named frames and datasets as they were.  A step that names a frame
  or dataset that is not there, or a stand-in where a real frame is needed, is a mistake of the
  one who wrote it, and no failure of an operation.
-/

namespace Lineage.Session

/-- Where a frame is loaded from. -/
inductive Place where
  | path (path : String) (version : Option UInt64)
  | table (name : String) (version : Option UInt64)
  | query (query : String)
  | source (s : Source)

/-- What a dataset is to be told by: settings with an inferrer that may be a stand-in. -/
structure Settings where
  rowLimit : Option Nat
  timeout : Option Duration
  confidence : Option Binary64
  /-- A stand-in that fails with a failure, or only takes notice. -/
  inferrer : Option (Option Failure)
  observer : Option Observer

/-- How a dataset is made. -/
inductive Recipe where
  /-- Over a frame of the session itself, with settings, or over a copy of it. -/
  | over (frame : String) (source : Source) (labels : Labels) (settings : Option Settings)
  | load (request : VersionedRequest) (settings : Option Settings)
  | wrap (frame : String) (request : FrameRequest) (settings : Option Settings)

/-- What is asked of a dataset. -/
inductive Request where
  | source | digest | profile | schema | split | descriptor | descriptorText | describe

/-- What is asked of a frame. -/
inductive FrameRequestKind where
  | names | columns | hash
  | count (timeout : Duration)
  | head (rows : Nat)
  | describe

/-- A step of a session. -/
inductive Step where
  | makeDirectory (path : String)
  | write (path text : String)
  | writeTable (path : String) (columns : List Series)
  | remove (path : String)
  | readLog (path : String)
  | define (name : String) (columns : List Series) (steps : List Lineage.Step)
  | derive (name base : String) (steps : List Lineage.Step)
  | standIn (name : String) (script : Script)
  | inspect (frame : String) (what : FrameRequestKind)
  | register (table frame : String)
  | commit (table frame : String)
  | tables
  | isVersionedPath (path : String)
  | isVersionedTable (name : String)
  | latestOfPath (path : String)
  | latestOfTable (name : String)
  | load (place : Place) (name : Option String) (untouched : Bool)
  | override (call : CatalogCall) (argument : String) (reply : CatalogReply)
  | make (name : String) (recipe : Recipe)
  | view (dataset : String) (what : Request)
  | reload (dataset : String) (name : Option String) (untouched : Bool)
  | sameFrame (dataset frame : String)
  | describeObserver (o : Observer)

/-- The answer to a step. -/
inductive Reply where
  | nothing
  | failure (f : Failure)
  | mistake (message : String)
  | text (s : String)
  | texts (ss : List String)
  | truth (b : Bool)
  | version (v : Option UInt64)
  | columns (columns : FrameSchema)
  | hash (h : Int64)
  | table (t : Table)
  | tables (names : List String) (description : String)
  | summary (d : Dataset Frame)
  | source (s : Source)
  | schema (s : Option Schema)
  | split (s : Split)
  | descriptor (d : Descriptor)
  | descriptions (dataset options : String)

/-- A step's answer with the session behind it. -/
abbrev Outcome := Reply × State

/-- A result as an answer. -/
def reply {α : Type} (f : α → Reply) : Except Failure α → Reply
  | .ok a => f a
  | .error e => .failure e

namespace State

/-! ## Files -/

/-- A line of a log without the time it begins with. -/
def withoutTime (line : List Char) : List Char :=
  let digits := line.takeWhile Char.isDigit
  let number := digits.foldl (fun n c => 10 * n + (c.toNat - '0'.toNat)) 0
  match line.drop digits.length with
  | ' ' :: rest => if !digits.isEmpty && 1500000000 < number then rest else line
  | _ => line

/-- The lines of a log without their times. -/
def readLog (s : State) (path : String) : Outcome :=
  match s.files.text? path with
  | none => (.text "no file", s)
  | some text =>
    (.texts ((text.toList.splitOn '\n').map fun line => String.ofList (withoutTime line)), s)

/-! ## Frames -/

/-- Uses a frame by its name. -/
def withFrame (s : State) (name : String) (use : Frame → Outcome) : Outcome :=
  match s.frames.lookup name with
  | some f => use f
  | none => (.mistake s!"no frame {name}", s)

/-- Uses the plan of a frame. -/
def withPlan (s : State) (name : String) (use : Plan → Outcome) : Outcome :=
  s.withFrame name fun f =>
    match f.body with
    | .plan p => use p
    | .scripted _ => (.mistake "scripted frame", s)

/-- Names a frame. -/
def setFrame (s : State) (name : String) (f : Frame) : State :=
  { s with frames := replace name f s.frames }

/-- Names a new frame over a plan. -/
def define (s : State) (name : String) (p : Plan) : Outcome :=
  let (f, s) := s.newFrame (.plan p)
  (.nothing, s.setFrame name f)

/-- Uses the table with the given columns. -/
def withTable (s : State) (columns : List Series) (use : Table → Outcome) : Outcome :=
  match Table.ofSeries columns with
  | .ok t => use t
  | .error e => (.failure e, s)

/-- Names a new stand-in. -/
def standIn (s : State) (name : String) (script : Script) : Outcome :=
  let (id, s) := s.fresh
  let (f, s) := s.newFrame (.scripted id)
  (.nothing, (s.setScript id script).setFrame name f)

/-- The confidence with which a frame is counted when it is inspected. -/
def inspectionConfidence : Binary64 := .ofDecimal false 5 (-1)

/-- Answers a question about a frame. -/
def inspect (s : State) (name : String) (what : FrameRequestKind) : Outcome :=
  match what with
  | .describe => s.withPlan name fun _ => (.text "PolarsFrame \x7b .. \x7d", s)
  | what => s.withFrame name fun f =>
    match what with
    | .names =>
      let (r, s) := s.run (Dialogue.columns f)
      (reply (fun columns => .texts (columns.map Prod.fst)) r, s)
    | .columns =>
      let (r, s) := s.run (Dialogue.columns f)
      (reply .columns r, s)
    | .hash =>
      let (r, s) := s.run (Dialogue.planHash f)
      (reply .hash r, s)
    | .count timeout =>
      let (r, s) := s.run (Dialogue.countRows f timeout inspectionConfidence)
      (reply (fun n => .version (some n)) r, s)
    | .head n =>
      let (r, s) := s.run (Dialogue.firstRows f n)
      (reply .table r, s)
    | .describe => (.nothing, s)

/-! ## The catalog -/

/-- Adds a version to a table. -/
def commit (s : State) (table : String) (p : Plan) : Outcome :=
  match s.catalog.commit table p with
  | .ok (v, c) => (.version (some v), { s with catalog := c })
  | .error e => (.failure e, s)

/-- The dialogue that loads a frame. -/
def loading : Place → Dialogue Frame (Except Failure Frame)
  | .path p v => Dialogue.loadPath p v
  | .table n v => Dialogue.loadTable n v
  | .query q => Dialogue.runQuery q
  | .source src => src.load

/-- The result of a frame. -/
def collect (s : State) (f : Frame) : Outcome :=
  match f.body with
  | .plan p =>
    let (r, s) := askPlan p (fun files seen => p.collect files seen) s
    (reply .table r, s)
  | .scripted _ => (.mistake "scripted frame", s)

/-- Loads a frame, names it, and collects it unless it is to be left untouched. -/
def load (s : State) (d : Dialogue Frame (Except Failure Frame)) (name : Option String)
    (untouched : Bool) : Outcome :=
  match s.run d with
  | (.error e, s) => (.failure e, s)
  | (.ok f, s) =>
    let s :=
      match name with
      | some n => s.setFrame n f
      | none => s
    if untouched then (.nothing, s) else s.collect f

/-! ## Datasets -/

/-- The options that settings ask for. -/
def optionsOf (s : State) (settings : Option Settings) : DatasetOptions × State :=
  let standard := DatasetOptions.standard
  match settings with
  | none => (standard, s)
  | some x =>
    let (inferrer, s) :=
      match x.inferrer with
      | none => (Inferrer.standard, s)
      | some behaviour =>
        let (id, s) := s.fresh
        (Inferrer.external id, { s with inferrers := replace id behaviour s.inferrers })
    ({ rowLimit := x.rowLimit.getD standard.rowLimit
       timeout := x.timeout.getD standard.timeout
       confidence := x.confidence.getD standard.confidence
       inferrer := inferrer
       observer := x.observer }, s)

/-- Keeps a dataset that could be made. -/
def keep (name : String) (made : Except Failure (Dataset Frame) × State) : Outcome :=
  match made with
  | (.ok d, s) => (.summary d, { s with datasets := replace name d s.datasets })
  | (.error e, s) => (.failure e, s)

/-- Makes a dataset. -/
def make (s : State) (name : String) (recipe : Recipe) : Outcome :=
  match recipe with
  | .over frame source labels settings => s.withFrame frame fun f =>
    let (options, s) := s.optionsOf settings
    let (f, s) := if settings.isSome then (f, s) else s.newFrame f.body
    keep name (s.run (Dataset.make f source labels options))
  | .load request settings =>
    let (options, s) := s.optionsOf settings
    keep name (s.run (Dataset.loadVersioned request options))
  | .wrap frame request settings => s.withFrame frame fun f =>
    let (options, s) := s.optionsOf settings
    let (copy, s) := s.newFrame f.body
    keep name (s.run (Dataset.fromFrame copy request options))

/-- Uses a dataset by its name. -/
def withDataset (s : State) (name : String) (use : Dataset Frame → Outcome) : Outcome :=
  match s.datasets.lookup name with
  | some d => use d
  | none => (.mistake s!"no dataset {name}", s)

/-- Takes a view of a dataset, and keeps the dataset as it is afterwards. -/
def look {α : Type} (s : State) (name : String) (d : Dataset Frame) (v : View Frame α)
    (f : α → Reply) : Outcome :=
  let ((a, d), s) := s.run (v d)
  (f a, { s with datasets := replace name d s.datasets })

/-- Answers a question about a dataset. -/
def view (s : State) (name : String) (what : Request) : Outcome :=
  s.withDataset name fun d =>
    match what with
    | .source => (.source d.source, s)
    | .digest => s.look name d Dataset.digest (reply .text)
    | .profile => s.look name d Dataset.profile (reply fun p => .version (some p.approxCount))
    | .schema => s.look name d Dataset.schema .schema
    | .split => s.look name d Dataset.split (reply .split)
    | .descriptor => s.look name d Dataset.descriptor (reply .descriptor)
    | .descriptorText => s.look name d Dataset.descriptorText (reply .text)
    | .describe => (.descriptions d.describe d.options.describe, s)

/-! ## Steps -/

/-- Carries out a step. -/
def perform (s : State) : Step → Outcome
  | .makeDirectory path => (.nothing, { s with files := s.files.makeDirectory path })
  | .write path text => (.nothing, { s with files := s.files.write path (.text text) })
  | .writeTable path columns => s.withTable columns fun t =>
    (.nothing, { s with files := s.files.write path (.table t) })
  | .remove path => (.nothing, { s with files := s.files.remove path })
  | .readLog path => s.readLog path
  | .define name columns steps => s.withTable columns fun t => s.define name ⟨.memory t, steps⟩
  | .derive name base steps => s.withPlan base fun p =>
    s.define name { p with steps := p.steps ++ steps }
  | .standIn name script => s.standIn name script
  | .inspect frame what => s.inspect frame what
  | .register table frame => s.withPlan frame fun p =>
    (.nothing, { s with catalog := s.catalog.register table p })
  | .commit table frame => s.withPlan frame fun p => s.commit table p
  | .tables => (.tables s.catalog.tableNames s.catalog.describe, s)
  | .isVersionedPath path =>
    let (b, s) := s.run (Dialogue.isVersionedPath path)
    (.truth b, s)
  | .isVersionedTable name =>
    let (b, s) := s.run (Dialogue.isVersionedTable name)
    (.truth b, s)
  | .latestOfPath path =>
    let (v, s) := s.run (Dialogue.latestOfPath path)
    (.version v, s)
  | .latestOfTable name =>
    let (v, s) := s.run (Dialogue.latestOfTable name)
    (.version v, s)
  | .load place name untouched => s.load (loading place) name untouched
  | .override call argument r =>
    (.nothing, { s with overrides := replace (call, argument) r s.overrides })
  | .make name recipe => s.make name recipe
  | .view dataset what => s.view dataset what
  | .reload dataset name untouched => s.withDataset dataset fun d =>
    s.load d.source.load name untouched
  | .sameFrame dataset frame => s.withDataset dataset fun d =>
    s.withFrame frame fun f => (.truth (d.frame.id == f.id), s)
  | .describeObserver o =>
    match o.describe? with
    | some text => (.text text, s)
    | none => (.nothing, s)

/-- Carries out a step, and gives with its answer what happened meanwhile. -/
def step (s : State) (x : Step) : Reply × List Happening × State :=
  let (r, s) := ({ s with happenings := [] } : State).perform x
  (r, s.happenings.reverse, s)

end State
end Lineage.Session
