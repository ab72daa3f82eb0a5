import TypedModel.Hint.Basic
import TypedModel.Schema.Error

/-!
# Places within a value

A path leads from an input to a value within it, by list and row indices and by
names of map entries and record fields. A rejection is a place and what is wrong
there; its details are the texts that a schema error carries.
-/

namespace TypedModel

/-- One step into a value. -/
inductive PathStep where
  /-- An item of a list or a row of a frame. -/
  | index (i : Nat)
  /-- A map entry or a record field. -/
  | name (s : String)
  deriving DecidableEq

/-- Steps from the input to a value within it. -/
abbrev Path := List PathStep

/-- Text of a path with one more step: an index stands in brackets, a point
stands between a name and what precedes it. -/
def PathStep.extend (text : String) : PathStep → String
  | .index i => s!"{text}[{i}]"
  | .name s => if text = "" then s else s!"{text}.{s}"

/-- Text of a path. -/
def Path.render (path : Path) : String := path.foldl PathStep.extend ""

/-- Why a value does not fit a hint. -/
inductive Rejection where
  /-- The value at a path is of another kind than the hint there. -/
  | clash (path : Path) (hint : TypeHint) (value : Value)
  /-- A required field is not given at a path. -/
  | missing (path : Path)

namespace Rejection

/-- The texts of a rejection. -/
def details : Rejection → ValidationDetails
  | .clash path hint value => ⟨Path.render path, hint.kindName, value.kindName⟩
  | .missing path => .missingField (Path.render path)

/-- The schema error of a rejection. -/
def toSchemaError (r : Rejection) : SchemaError := .invalidInput r.details

end Rejection

end TypedModel
