import Lineage.Catalog.Local
import Lineage.Dataset.Loading
import Lineage.Dataset.Views
/-
  Sessions: named frames and datasets over a catalog and a tree of files.

  A session also has stand-ins: frames, inferrers and answers of the catalog that follow a
  script, so that a dataset can be seen in surroundings that fail or change.  The session is what
  answers the questions of the dialogues (`Session.answer`), and it keeps a list of what has
  happened meanwhile.
-/

namespace Lineage.Session

/-- The replies of a stand-in for a frame.  They are used in turn, and the last one again and
again. -/
structure Script where
  columns : List (Except Failure FrameSchema)
  hash : List (Except Failure Int64)
  count : List (Except Failure UInt64)
  head : List (Except Failure Table)

/-- What a frame is made of. -/
inductive Body where
  | plan (p : Plan)
  /-- A stand-in, by the number of its script. -/
  | scripted (id : Nat)

/-- A frame, and a number that tells it from its copies. -/
structure Frame where
  id : Nat
  body : Body

/-- The questions to a catalog that can be scripted. -/
inductive CatalogCall where
  | isVersionedTable | isVersionedPath | latestOfPath | latestOfTable | loadPath | loadTable
  | runQuery
deriving DecidableEq, Repr

/-- A scripted answer of the catalog. -/
inductive CatalogReply where
  | truth (b : Bool)
  | version (v : Option UInt64)
  | table (t : Table)
  | failure (f : Failure)

/-- What happened in a session. -/
inductive Happening where
  | observed (recorder : String) (context : Context) (event : Event)
  | columnsAsked
  | hashAsked
  | countAsked (timeout : Duration) (confidence : Binary64)
  | rowsAsked (rows : Nat)
  | inferrerAsked (width : Nat)
  /-- A question to the catalog; one that loads has a version, which may be missing. -/
  | catalogAsked (call : CatalogCall) (argument : String) (version : Option (Option UInt64))
  | noted (n : Note)

/-- A session. -/
structure State where
  files : FileTree
  catalog : Catalog Plan
  overrides : List ((CatalogCall × String) × CatalogReply)
  frames : List (String × Frame)
  datasets : List (String × Dataset Frame)
  scripts : List (Nat × Script)
  /-- Stand-ins for inferrers: those that fail, and those that only take notice. -/
  inferrers : List (Nat × Option Failure)
  /-- What is known of files, by the numbers under which they were looked at. -/
  looks : List (Nat × Look)
  /-- The next number for a frame, script, inferrer or look. -/
  next : Nat
  /-- What has happened, the latest first. -/
  happenings : List Happening

/-- A session in which nothing has happened.  The working directory is empty. -/
def State.start : State where
  files := FileTree.empty.enter ["work"]
  catalog := .empty
  overrides := []
  frames := []
  datasets := []
  scripts := []
  inferrers := []
  looks := []
  next := 0
  happenings := []

/-- The time of a session, in seconds. -/
def clock : Nat := 1700000000

namespace State

/-- Keeps what has happened. -/
def record (s : State) (h : Happening) : State := { s with happenings := h :: s.happenings }

/-- A number that has not been used. -/
def fresh (s : State) : Nat × State := (s.next, { s with next := s.next + 1 })

/-- A frame over a plan, with a number of its own. -/
def newFrame (s : State) (body : Body) : Frame × State :=
  let (id, s) := s.fresh
  (⟨id, body⟩, s)

/-- The script of a stand-in. -/
def script (s : State) (id : Nat) : Script := (s.scripts.lookup id).getD ⟨[], [], [], []⟩

/-- Puts a value under a key, instead of the one that is there. -/
def replace {α β : Type} [BEq α] (key : α) (value : β) (entries : List (α × β)) :
    List (α × β) :=
  (key, value) :: entries.filter fun e => e.1 != key

/-- Changes the script of a stand-in. -/
def setScript (s : State) (id : Nat) (script : Script) : State :=
  { s with scripts := replace id script s.scripts }

end State

/-- The next reply of a script, and the replies left. -/
def nextReply {α : Type} (none : α) : List α → α × List α
  | [] => (none, [])
  | [a] => (a, [a])
  | a :: rest => (a, rest)

/-- A stand-in has no reply to a question. -/
def unscripted : Failure := .internal (.stated "no reply")

/-! ## Answers -/

/-- What is known of the origin of a plan.  Files are looked at when that is first asked for, and
then never again. -/
def lookAt (p : Plan) (s : State) : Except Failure Look × State :=
  match p.origin with
  | .memory t => (.ok (.ofTable t), s)
  | .files _ _ scan =>
    match s.looks.lookup scan with
    | some seen => (.ok seen, s)
    | none =>
      match p.origin.look s.files with
      | .ok seen => (.ok seen, { s with looks := (scan, seen) :: s.looks })
      | .error e => (.error e, s)

/-- Asks something of a plan. -/
def askPlan {α : Type} (p : Plan) (ask : FileTree → Look → Except Failure α) (s : State) :
    Except Failure α × State :=
  match lookAt p s with
  | (.ok seen, s) => (ask s.files seen, s)
  | (.error e, s) => (.error e, s)

/-- The columns of a frame. -/
def columnsOf (f : Frame) (s : State) : Except Failure FrameSchema × State :=
  match f.body with
  | .plan p => askPlan p (fun _ seen => p.schema seen) s
  | .scripted id =>
    let script := s.script id
    let (reply, left) := nextReply (.error unscripted) script.columns
    (reply, (s.setScript id { script with columns := left }).record .columnsAsked)

/-- The hash of a frame. -/
def hashOf (f : Frame) (s : State) : Except Failure Int64 × State :=
  match f.body with
  | .plan p => askPlan p (fun _ seen => p.semanticHash seen) s
  | .scripted id =>
    let script := s.script id
    let (reply, left) := nextReply (.error unscripted) script.hash
    (reply, (s.setScript id { script with hash := left }).record .hashAsked)

/-- The number of rows of a frame.  Counting always takes more than no time at all. -/
def countOf (f : Frame) (timeout : Duration) (confidence : Binary64) (s : State) :
    Except Failure UInt64 × State :=
  match f.body with
  | .plan p =>
    match askPlan p (fun files seen => p.count files seen) s with
    | (.error e, s) => (.error e, s)
    | (.ok n, s) => (.ok n, if timeout.milliseconds = 0 then s.record (.noted (.countSlow timeout)) else s)
  | .scripted id =>
    let script := s.script id
    let (reply, left) := nextReply (.error unscripted) script.count
    (reply, (s.setScript id { script with count := left }).record (.countAsked timeout confidence))

/-- The first rows of a frame. -/
def rowsOf (f : Frame) (n : Nat) (s : State) : Except Failure Table × State :=
  match f.body with
  | .plan p => askPlan p (fun files seen => p.head files seen n) s
  | .scripted id =>
    let script := s.script id
    let (reply, left) := nextReply (.error unscripted) script.head
    (reply, (s.setScript id { script with head := left }).record (.rowsAsked n))

/-- A plan, or its failure, as a frame. -/
def asFrame (r : Except Failure Plan) (s : State) : Except Failure Frame × State :=
  match r with
  | .error e => (.error e, s)
  | .ok p =>
    let (f, s) := s.newFrame (.plan p)
    (.ok f, s)

/-- A scripted reply as the plan that it stands for. -/
def CatalogReply.plan : CatalogReply → Except Failure Plan
  | table t => .ok (.ofTable t)
  | failure f => .error f
  | _ => .error unscripted

/-- The plan for a path, as a frame. -/
def loadPath (path : String) (version : Option UInt64) (s : State) :
    Except Failure Frame × State :=
  let (scan, s) := s.fresh
  let (notes, plan) := Catalog.loadPath s.files path version scan
  asFrame plan (notes.foldl (fun s n => s.record (.noted n)) s)

/-- The plan of a query, as a frame.  The query is checked at once and carried out when its plan is
used. -/
def runQuery (text : String) (s : State) : Except Failure Frame × State :=
  match s.catalog.query text with
  | .error e => (.error e, s)
  | .ok q =>
    let (plan, s) := askPlan q.table (fun _ seen => q.plan seen) s
    asFrame plan s

/-- Asks the catalog, unless its answer is scripted. -/
def askCatalog {α : Type} (call : CatalogCall) (argument : String)
    (version : Option (Option UInt64)) (scripted : CatalogReply → State → α × State)
    (ask : State → α × State) (s : State) : α × State :=
  let s := s.record (.catalogAsked call argument version)
  match s.overrides.lookup (call, argument) with
  | some reply => scripted reply s
  | none => ask s

/-- A scripted truth value. -/
def CatalogReply.isTrue : CatalogReply → Bool
  | truth b => b
  | _ => false

/-- A scripted version. -/
def CatalogReply.number : CatalogReply → Option UInt64
  | version v => v
  | _ => none

/-- The answer of a session to a question, and the session afterwards. -/
def answer : (q : Question Frame) → State → q.Answer × State
  | .columns f, s => columnsOf f s
  | .planHash f, s => hashOf f s
  | .countRows f timeout confidence, s => countOf f timeout confidence s
  | .firstRows f n, s => rowsOf f n s
  | .infer who columns, s =>
    let s := s.record (.inferrerAsked columns.length)
    match (s.inferrers.lookup who).join with
    | some f => (.error f, s)
    | none => (Schema.infer columns, s)
  | .isVersionedTable name, s =>
    askCatalog .isVersionedTable name none (fun r s => (r.isTrue, s))
      (fun s => (s.catalog.isVersioned name, s)) s
  | .isVersionedPath path, s =>
    askCatalog .isVersionedPath path none (fun r s => (r.isTrue, s))
      (fun s => (Snapshots.isVersioned s.files path, s)) s
  | .latestOfTable name, s =>
    askCatalog .latestOfTable name none (fun r s => (r.number, s))
      (fun s => (s.catalog.latestVersion name, s)) s
  | .latestOfPath path, s =>
    askCatalog .latestOfPath path none (fun r s => (r.number, s))
      (fun s => (Snapshots.latest s.files path, s)) s
  | .loadTable name version, s =>
    askCatalog .loadTable name (some version) (fun r s => asFrame r.plan s)
      (fun s => asFrame (s.catalog.load name version) s) s
  | .loadPath path version, s =>
    askCatalog .loadPath path (some version) (fun r s => asFrame r.plan s)
      (loadPath path version) s
  | .runQuery query, s =>
    askCatalog .runQuery query none (fun r s => asFrame r.plan s)
      (runQuery query) s
  | .deliver id c e, s => ((), s.record (.observed id c e))
  | .note n, s => ((), s.record (.noted n))
  | .now, s => (clock, s)
  | .appendLine path line, s => ((), { s with files := s.files.append path (line ++ "\n") })

/-- Carries out a dialogue in a session. -/
def State.run {α : Type} (s : State) (d : Dialogue Frame α) : α × State := d.run answer s

end Lineage.Session
