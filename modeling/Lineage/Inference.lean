import Lineage.Failure
import Lineage.Schema
import Lineage.Table.Dtype
/-
  Column specifications from the types of a frame's columns.
-/

namespace Lineage

/-- The type that the tracking store has for a type of column. -/
def ColumnType.ofDtype? : Dtype → Option ColumnType
  | .bool => some .boolean
  | .i8 | .i16 | .i32 | .u8 | .u16 => some .integer
  | .i64 | .u32 | .u64 => some .long
  | .f32 => some .float
  | .f64 => some .double
  | .str => some .string
  | .binary => some .binary
  | .date | .datetime _ _ => some .datetime
  | _ => none

/-- The specification of a column of a frame; it has to be there. -/
def ColumnSpec.infer (column : String × Dtype) : Except Failure ColumnSpec :=
  match ColumnType.ofDtype? column.2 with
  | some t => .ok ⟨t, column.1, true⟩
  | none => .error (.unsupportedColumnType column.1 column.2.text)

/-- The schema of a frame, or the failure of the first column that has no type in the tracking
store. -/
def Schema.infer (columns : FrameSchema) : Except Failure Schema :=
  (columns.mapM ColumnSpec.infer).map Schema.mk

end Lineage
