import TypedModel.Schema.Basic
import TypedModel.Schema.Error
import TypedModel.Value.Basic

/-!
# Required columns

A frame or a map has to bring the required named columns of a schema. Other
values, and schemas without named columns, are not checked.
-/

namespace TypedModel

/-- Names that a frame or a map brings; none for other values. -/
def Value.columnNames? : Value → Option (List String)
  | .frame f => some f.columns
  | .map entries => some (Entries.names entries)
  | _ => none

namespace Schema

/-- Name of a column that has to be present. -/
def requiredName? (c : ColSpec) : Option String := if c.required then c.name else none

/-- The first required name that is not among those present. -/
def missingColumn? (s : Schema) (present : List String) : Option String :=
  (s.columns.filterMap requiredName?).find? fun name => !present.contains name

/-- Checks that a frame or a map brings the required columns. -/
def enforce (s : Schema) (v : Value) : Except SchemaError Unit :=
  match v.columnNames? with
  | none => .ok ()
  | some present =>
    match s.missingColumn? present with
    | some name => .error (.invalidInput (.missingField name))
    | none => .ok ()

end Schema

end TypedModel
