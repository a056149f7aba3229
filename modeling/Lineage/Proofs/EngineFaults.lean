import Lineage.Files.Records
import Lineage.Table.Step
/-
  Computations that can fail by the engine alone.

  Failures have many causes, but each part of the program has only a few of them.  Reading documents
  and carrying out steps are left to the engine, so there is one cause only: whatever goes wrong
  there is a failure of the engine (`Failure.IsEngine`).

  What is done in steps fails by the engine alone if each step does (`EngineOnly.bind` and the
  lemmas beside it).  The rest follows the definitions: values and types of documents, expressions,
  outputs, and the steps of plans.
-/

namespace Lineage

/-- The engine failed. -/
def Failure.IsEngine (f : Failure) : Prop := ∃ fault detail, f = .engine fault detail

/-- Whenever it fails, it is by the engine. -/
def EngineOnly {α : Type} (x : Except Failure α) : Prop := ∀ f, x = .error f → f.IsEngine

namespace EngineOnly

variable {α β : Type}

theorem ok (a : α) : EngineOnly (.ok a : Except Failure α) := fun _ h => nomatch h

theorem engine (fault : EngineFault) (detail : String) :
    EngineOnly (.error (.engine fault detail) : Except Failure α) := by
  intro f h
  cases h
  exact ⟨fault, detail, rfl⟩

theorem ite {p : Prop} [Decidable p] {x y : Except Failure α} (hx : EngineOnly x)
    (hy : EngineOnly y) : EngineOnly (if p then x else y) := by
  split
  · exact hx
  · exact hy

theorem bind {x : Except Failure α} {f : α → Except Failure β} (hx : EngineOnly x)
    (hf : ∀ a, EngineOnly (f a)) : EngineOnly (x >>= f) := by
  cases x with
  | error failure =>
    intro g h
    cases h
    exact hx failure rfl
  | ok a => exact hf a

theorem map {x : Except Failure α} (hx : EngineOnly x) (f : α → β) : EngineOnly (x.map f) := by
  cases x with
  | error failure =>
    intro g h
    cases h
    exact hx failure rfl
  | ok a => exact ok (f a)

theorem mapM {f : α → Except Failure β} (hf : ∀ a, EngineOnly (f a)) :
    ∀ as : List α, EngineOnly (as.mapM f)
  | [] => ok []
  | a :: as => by
    rw [List.mapM_cons]
    exact (hf a).bind fun b => (mapM hf as).bind fun bs => ok (b :: bs)

theorem forM {f : α → Except Failure Unit} (hf : ∀ a, EngineOnly (f a)) :
    ∀ as : List α, EngineOnly (as.forM f)
  | [] => ok ()
  | a :: as => by
    show EngineOnly (f a >>= fun _ => as.forM f)
    exact (hf a).bind fun _ => forM hf as

theorem foldlM {f : β → α → Except Failure β} (hf : ∀ b a, EngineOnly (f b a)) :
    ∀ (as : List α) (b : β), EngineOnly (as.foldlM f b)
  | [], b => ok b
  | a :: as, b => by
    rw [List.foldlM_cons]
    exact (hf b a).bind fun b' => foldlM hf as b'

end EngineOnly

/-! ## Documents -/

namespace Files.Records

theorem valueOf_engineOnly (cs : List Char) : EngineOnly (valueOf cs) := by
  unfold valueOf
  dsimp only
  split
  · exact .ite (.ok _) (.engine _ _)
  · exact .engine _ _

theorem rowOf_engineOnly (item : Item) : EngineOnly (rowOf item) := by
  unfold rowOf
  split
  · exact .ok _
  · exact .ok _
  · exact .engine _ _

theorem join_engineOnly (a b : Dtype) : EngineOnly (join a b) := by
  fun_induction join a b with
  | case5 a b ih => exact ih.map _
  | case16 => exact .engine _ _
  | _ => exact .ok _

mutual

theorem typeOf_engineOnly : ∀ item : Item, EngineOnly (typeOf item)
  | .null => .ok _
  | .bool _ => .ok _
  | .int _ => .ok _
  | .float _ => .ok _
  | .text _ => .ok _
  | .list items => by
    rw [typeOf]
    exact (typeOfAll_engineOnly items).map _
  | .object members => by
    rw [typeOf]
    exact (typesOf_engineOnly members).map _

theorem typeOfAll_engineOnly : ∀ items : List Item, EngineOnly (typeOfAll items)
  | [] => .ok _
  | item :: rest => by
    rw [typeOfAll]
    exact (typeOf_engineOnly item).bind fun a =>
      (typeOfAll_engineOnly rest).bind fun b => join_engineOnly a b

theorem typesOf_engineOnly : ∀ members : List (String × Item), EngineOnly (typesOf members)
  | [] => .ok _
  | (name, item) :: rest => by
    rw [typesOf]
    exact (typeOf_engineOnly item).bind fun a => (typesOf_engineOnly rest).bind fun b => .ok _

end

theorem columnsOf_engineOnly (rows : List Row) : EngineOnly (columnsOf rows) :=
  .mapM (fun _ => (typeOfAll_engineOnly _).bind fun _ => .ok _) _

theorem wholeCell_engineOnly (inLine : Bool) (n : Int) : EngineOnly (wholeCell inLine n) := by
  unfold wholeCell
  exact .ite (.ok _) (.ite (.engine _ _) (.ok _))

/-- A value fits or does not; only a list asks for its own values. -/
theorem cellOf_engineOnly_of {inLine : Bool} {item : Item} (d : Dtype)
    (hitems : ∀ e items, item = .list items → EngineOnly (cellsOf inLine e items)) :
    EngineOnly (cellOf inLine d item) := by
  unfold cellOf
  split
  case h_2 | h_6 | h_9 => exact .ite (.engine _ _) (.ok _)
  case h_4 | h_5 => exact wholeCell_engineOnly _ _
  case h_11 | h_12 => exact .ite (.ok _) (.engine _ _)
  case h_14 e items => exact (hitems e items rfl).map _
  case h_16 => exact .engine _ _
  all_goals exact .ok _

-- Along the values: only a list has values of its own to ask for.
mutual

theorem cellOf_engineOnly (inLine : Bool) : ∀ (item : Item) (d : Dtype),
    EngineOnly (cellOf inLine d item)
  | .list items, d => cellOf_engineOnly_of d fun e _ h => by
      cases h
      exact cellsOf_engineOnly inLine items e
  | .null, d | .bool _, d | .int _, d | .float _, d | .text _, d | .object _, d =>
    cellOf_engineOnly_of d nofun

theorem cellsOf_engineOnly (inLine : Bool) : ∀ (items : List Item) (d : Dtype),
    EngineOnly (cellsOf inLine d items)
  | [], _ => .ok _
  | item :: rest, d => by
    rw [cellsOf]
    exact (cellOf_engineOnly inLine item d).bind fun _ =>
      (cellsOf_engineOnly inLine rest d).bind fun _ => .ok _

end

theorem tableOf_engineOnly (rows : List Row) : EngineOnly (tableOf rows) := by
  unfold tableOf
  refine (columnsOf_engineOnly rows).bind fun columns => ?_
  have hcells : EngineOnly (rows.mapM fun row =>
      columns.mapM fun c => cellOf false c.2 (valueAt row c.1)) :=
    .mapM (fun row => .mapM (fun c => cellOf_engineOnly false (valueAt row c.1) c.2) columns) rows
  by_cases hnames : (rows.any fun row => row.any fun m => !columns.any (·.1 == m.1)) = true
  · rw [if_pos hnames]
    exact .engine _ _
  · rw [if_neg hnames]
    exact hcells.bind fun _ => .ok _

/-- A text that holds no table is a failure of the engine. -/
theorem ofDocument_engineOnly (text : String) : EngineOnly (ofDocument text) := by
  unfold ofDocument
  refine (valueOf_engineOnly _).bind fun item => ?_
  split
  · exact (EngineOnly.mapM rowOf_engineOnly _).bind fun rows => tableOf_engineOnly rows
  · exact tableOf_engineOnly _
  · exact .engine _ _

end Files.Records

/-! ## Expressions -/

theorem Arithmetic.dtype_engineOnly (op : Arithmetic) (a b : Operand) :
    EngineOnly (op.dtype a b) := by
  unfold Arithmetic.dtype
  dsimp only
  split
  case h_2 => exact .engine _ _
  case h_6 =>
    refine .ite ?_ (.engine _ _)
    split
    · exact .ok _
    · exact .engine _ _
  all_goals exact .ok _

theorem sumType_engineOnly (d : Dtype) : EngineOnly (sumType d) := by
  unfold sumType
  split
  case h_6 =>
    split
    case h_5 => exact .engine _ _
    all_goals exact .ok _
  all_goals exact .ok _

theorem Aggregate.dtype_engineOnly (f : Aggregate) (d : Dtype) : EngineOnly (f.dtype d) := by
  unfold Aggregate.dtype
  split
  case h_2 => exact sumType_engineOnly d
  case h_5 =>
    split
    · exact .ok _
    · exact .ok _
  all_goals exact .ok _

theorem typeOfColumn_engineOnly (columns : FrameSchema) (name : String) :
    EngineOnly (typeOfColumn columns name) := by
  unfold typeOfColumn
  split
  · exact .ok _
  · exact .engine _ _

namespace Expr

variable (columns : FrameSchema)

theorem dtype_engineOnly (e : Expr) : EngineOnly (e.dtype columns) := by
  induction e with
  | column name => exact typeOfColumn_engineOnly columns name
  | literal l => exact .ok _
  | rowCount => exact .ok _
  | arithmetic op a b iha ihb =>
    exact iha.bind fun s => ihb.bind fun t => op.dtype_engineOnly _ _
  | compare c a b iha ihb =>
    exact iha.bind fun s => ihb.bind fun t => .ite (.engine _ _) (.ok _)
  | both a b iha ihb => exact iha.bind fun _ => ihb.bind fun _ => .ok _
  | either a b iha ihb => exact iha.bind fun _ => ihb.bind fun _ => .ok _
  | negate a ih => exact ih.bind fun _ => .ok _
  | isNull a ih => exact ih.bind fun _ => .ok _
  | isPresent a ih => exact ih.bind fun _ => .ok _
  | like a pattern folded ih => exact ih.bind fun _ => .ok _
  | among a items ih =>
    refine ih.bind fun d => ?_
    split
    · exact .engine _ _
    · exact .ok _
  | overall f a ih => exact ih.bind fun d => f.dtype_engineOnly d

theorem checkCondition_engineOnly (e : Expr) : EngineOnly (e.checkCondition columns) :=
  .ite (.ok _) (.engine _ _)

theorem check_engineOnly (e : Expr) : EngineOnly (e.check columns) := by
  induction e with
  | column name => exact .ok _
  | literal l => exact .ok _
  | rowCount => exact .ok _
  | arithmetic op a b iha ihb => exact iha.bind fun _ => ihb
  | compare c a b iha ihb =>
    exact iha.bind fun _ => ihb.bind fun _ => .ite (.ok _) (.engine _ _)
  | both a b iha ihb =>
    exact iha.bind fun _ => ihb.bind fun _ =>
      (checkCondition_engineOnly columns a).bind fun _ => checkCondition_engineOnly columns b
  | either a b iha ihb =>
    exact iha.bind fun _ => ihb.bind fun _ =>
      (checkCondition_engineOnly columns a).bind fun _ => checkCondition_engineOnly columns b
  | negate a ih => exact ih.bind fun _ => checkCondition_engineOnly columns a
  | isNull a ih => exact ih
  | isPresent a ih => exact ih
  | among a items ih => exact ih
  | overall f a ih => exact ih
  | like a pattern folded ih =>
    refine ih.bind fun _ => ?_
    split
    · exact .ok _
    · exact .ok _
    · exact .engine _ _

end Expr

/-! ## Steps -/

theorem checkDistinct_engineOnly : ∀ names : List String, EngineOnly (checkDistinct names)
  | [] => .ok _
  | name :: rest => by
    rw [checkDistinct]
    exact .ite (.engine _ _) (checkDistinct_engineOnly rest)

namespace Step

variable (columns : FrameSchema)

theorem fields_engineOnly (outputs : List Output) : EngineOnly (fields columns outputs) :=
  (EngineOnly.mapM (fun o => (o.expr.dtype_engineOnly columns).bind fun _ => .ok _) outputs).bind
    fun _ => (checkDistinct_engineOnly _).bind fun _ => .ok _

theorem schema_engineOnly (s : Step) : EngineOnly (s.schema columns) := by
  cases s with
  | filter condition => exact (condition.dtype_engineOnly columns).bind fun _ => .ok _
  | select outputs => exact fields_engineOnly columns outputs
  | extend outputs => exact (fields_engineOnly columns outputs).bind fun _ => .ok _
  | lead outputs => exact (fields_engineOnly columns outputs).bind fun _ => .ok _
  | slice offset length => exact .ok _
  | distinct => exact .ok _
  | sort keys =>
    exact (EngineOnly.mapM (fun k => k.expr.dtype_engineOnly columns) keys).bind fun _ => .ok _

theorem check_engineOnly (s : Step) : EngineOnly (s.check columns) := by
  refine (EngineOnly.forM (Expr.check_engineOnly columns) s.exprs).bind fun _ => ?_
  split
  · exact Expr.checkCondition_engineOnly columns _
  · exact .ok _

/-- A step that cannot be carried out is a failure of the engine. -/
theorem apply_engineOnly (t : Table) (s : Step) : EngineOnly (s.apply t) :=
  (schema_engineOnly t.columns s).bind fun _ => (check_engineOnly t.columns s).bind fun _ => .ok _

end Step

end Lineage
