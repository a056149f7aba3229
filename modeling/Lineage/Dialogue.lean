import Lineage.Observation
import Lineage.Table.Basic
/-
  Computations that ask their surroundings.

  What a dataset does depends on things outside of it: its frame, the catalog, a schema inferrer,
  observers, the clock and log files.  A `Dialogue` is such a computation as a value: it is done,
  or it asks a question and goes on with the answer, whatever the answer is.  So a property can
  be stated for all surroundings, also for those that change their answers from one question to
  the next; `Dialogue.run` carries a dialogue out in given surroundings.
-/

namespace Lineage

/-- A question to the surroundings; `F` is the type of frames. -/
inductive Question (F : Type) where
  /-- The columns of a frame. -/
  | columns (frame : F)
  /-- The hash of the plan of a frame. -/
  | planHash (frame : F)
  /-- The number of rows of a frame, as well as it can be counted in some time. -/
  | countRows (frame : F) (timeout : Duration) (confidence : Binary64)
  /-- The first rows of a frame. -/
  | firstRows (frame : F) (rows : Nat)
  /-- The schema for some columns, from an inferrer known by a number. -/
  | infer (inferrer : Nat) (columns : FrameSchema)
  | isVersionedTable (name : String)
  | isVersionedPath (path : String)
  | latestOfTable (name : String)
  | latestOfPath (path : String)
  | loadTable (name : String) (version : Option UInt64)
  | loadPath (path : String) (version : Option UInt64)
  | runQuery (query : String)
  /-- Not a question but a message: an event for a recorder. -/
  | deliver (recorder : String) (context : Context) (event : Event)
  /-- A diagnostic note. -/
  | note (n : Note)
  /-- The time, in seconds. -/
  | now
  /-- A line for the end of a file. -/
  | appendLine (path line : String)

/-- The answers to a question. -/
def Question.Answer {F : Type} : Question F → Type
  | columns _ => Except Failure FrameSchema
  | planHash _ => Except Failure Int64
  | countRows _ _ _ => Except Failure UInt64
  | firstRows _ _ => Except Failure Table
  | infer _ _ => Except Failure Schema
  | isVersionedTable _ | isVersionedPath _ => Bool
  | latestOfTable _ | latestOfPath _ => Option UInt64
  | loadTable _ _ | loadPath _ _ | runQuery _ => Except Failure F
  | deliver _ _ _ | note _ | appendLine _ _ => Unit
  | now => Nat

/-- A computation that asks questions and ends in a value. -/
inductive Dialogue (F α : Type) where
  | done (a : α)
  | ask (q : Question F) (next : q.Answer → Dialogue F α)

namespace Dialogue

variable {F α β σ : Type}

/-- Goes on with the value that a dialogue ends in. -/
def bind : Dialogue F α → (α → Dialogue F β) → Dialogue F β
  | done a, f => f a
  | ask q next, f => ask q fun r => (next r).bind f

instance : Monad (Dialogue F) where
  pure := done
  bind := bind

/-- Carries out a dialogue in surroundings that answer each question and may change by it. -/
def run (answer : (q : Question F) → σ → q.Answer × σ) : Dialogue F α → σ → α × σ
  | done a, s => (a, s)
  | ask q next, s =>
    let (r, s) := answer q s
    (next r).run answer s

/-! ## The single questions -/

def columns (f : F) : Dialogue F (Except Failure FrameSchema) := ask (.columns f) done
def planHash (f : F) : Dialogue F (Except Failure Int64) := ask (.planHash f) done
def countRows (f : F) (timeout : Duration) (confidence : Binary64) :
    Dialogue F (Except Failure UInt64) := ask (.countRows f timeout confidence) done
def firstRows (f : F) (rows : Nat) : Dialogue F (Except Failure Table) :=
  ask (.firstRows f rows) done
def infer (inferrer : Nat) (columns : FrameSchema) : Dialogue F (Except Failure Schema) :=
  ask (.infer inferrer columns) done
def isVersionedTable (name : String) : Dialogue F Bool := ask (.isVersionedTable name) done
def isVersionedPath (path : String) : Dialogue F Bool := ask (.isVersionedPath path) done
def latestOfTable (name : String) : Dialogue F (Option UInt64) := ask (.latestOfTable name) done
def latestOfPath (path : String) : Dialogue F (Option UInt64) := ask (.latestOfPath path) done
def loadTable (name : String) (version : Option UInt64) : Dialogue F (Except Failure F) :=
  ask (.loadTable name version) done
def loadPath (path : String) (version : Option UInt64) : Dialogue F (Except Failure F) :=
  ask (.loadPath path version) done
def runQuery (query : String) : Dialogue F (Except Failure F) := ask (.runQuery query) done
def deliver (recorder : String) (c : Context) (e : Event) : Dialogue F Unit :=
  ask (.deliver recorder c e) done
def note (n : Note) : Dialogue F Unit := ask (.note n) done
def now : Dialogue F Nat := ask .now done
def appendLine (path line : String) : Dialogue F Unit := ask (.appendLine path line) done

end Dialogue

mutual

/-- Tells an observer of an event. -/
def Observer.notify {F : Type} (c : Context) (e : Event) : Observer → Dialogue F Unit
  | .recorder id => Dialogue.deliver id c e
  | .silent => pure ()
  | .tracing => Dialogue.note (.observed c e)
  | .file path => do
    let time ← Dialogue.now
    Dialogue.appendLine path (toString time ++ " " ++ e.logLine c)
  | .composite observers => Observer.notifyAll c e observers

/-- Tells several observers of an event, one after the other. -/
def Observer.notifyAll {F : Type} (c : Context) (e : Event) : List Observer → Dialogue F Unit
  | [] => pure ()
  | o :: rest => do
    o.notify c e
    Observer.notifyAll c e rest

end

end Lineage
