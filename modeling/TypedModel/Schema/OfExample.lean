import TypedModel.Schema.Basic
import TypedModel.Schema.Error
import TypedModel.Value.Frame

/-!
# The schema of an example

A frame has a named column for each of its columns, typed by the first cell that
is not null; any other value has one unnamed column. Items of a list and values
of a map have a common type, or none in particular when they disagree; nulls do
not count. There is no schema for null, for a frame without columns, and where
an empty list or map would have to be typed.
-/

namespace TypedModel.Value

/-- The common type so far with one more: none in particular if they differ. -/
def commonType (soFar : Option ColType) (type : ColType) : Option ColType :=
  match soFar with
  | none => some type
  | some t => if t = type then some t else none

mutual

/-- The column type of a value, or why there is none. -/
def colType : Value → Except String ColType
  | .null | .frame _ => .ok .any
  | .bool _ => .ok (.scalar .boolean)
  | .long _ => .ok (.scalar .long)
  | .double _ => .ok (.scalar .double)
  | .str _ => .ok (.scalar .string)
  | .bytes _ => .ok (.scalar .binary)
  | .datetime _ => .ok (.scalar .datetime)
  | .list items =>
    if items.isEmpty then .error "Cannot infer the element type of an empty list"
    else (unifyItems none items).map .array
  | .map entries =>
    if entries.isEmpty then .error "Cannot infer the value type of an empty dict"
    else (unifyEntries none entries).map .map
  | .record ⟨_, fields⟩ => (fieldTypes fields).map .object
termination_by structural v => v

/-- The common type of items that are not null. Items behind the first
disagreement are not looked at. -/
def unifyItems (soFar : Option ColType) : List Value → Except String ColType
  | [] => .ok (soFar.getD .any)
  | item :: rest =>
    if item.isNull then unifyItems soFar rest
    else do
      let type ← colType item
      match commonType soFar type with
      | some type => unifyItems (some type) rest
      | none => .ok .any
termination_by structural items => items

/-- The common type of the values of a map that are not null. -/
def unifyEntries (soFar : Option ColType) : List (String × Value) → Except String ColType
  | [] => .ok (soFar.getD .any)
  | (_, value) :: rest =>
    if value.isNull then unifyEntries soFar rest
    else do
      let type ← colType value
      match commonType soFar type with
      | some type => unifyEntries (some type) rest
      | none => .ok .any
termination_by structural entries => entries

/-- Properties of a record instance; a null is not required. -/
def fieldTypes : List (String × Value) → Except String (List Property)
  | [] => .ok []
  | (name, value) :: rest => do
    let type ← colType value
    let properties ← fieldTypes rest
    .ok (⟨name, type, !value.isNull⟩ :: properties)
termination_by structural fields => fields

end

/-- A column of a frame, typed by its first cell that is not null; a column of
nulls is anything and not required. -/
def columnOfCells (name : String) (cells : List Value) : Except String ColSpec :=
  match cells.find? fun v => !v.isNull with
  | some v => (colType v).map fun type => ⟨some name, type, true⟩
  | none => .ok ⟨some name, .any, false⟩

/-- The columns of a frame from an index on. -/
def columnsOfFrame (f : Frame) : Nat → List String → Except String (List ColSpec)
  | _, [] => .ok []
  | i, name :: rest => do
    let column ← columnOfCells name (f.column i)
    let columns ← columnsOfFrame f (i + 1) rest
    .ok (column :: columns)

/-- The schema of an example. -/
def schema : Value → Except SchemaError Schema
  | .frame f =>
    if f.columns.isEmpty then
      .error (.inferenceFailed "Cannot infer a schema from a DataFrame without columns")
    else
      match columnsOfFrame f 0 f.columns with
      | .ok columns => .ok ⟨columns⟩
      | .error reason => .error (.inferenceFailed reason)
  | .null => .error (.inferenceFailed "Cannot infer a schema from a None input example")
  | v =>
    match colType v with
    | .ok type => .ok (.single type)
    | .error reason => .error (.inferenceFailed reason)

end TypedModel.Value
