import TypedModel.Schema.Basic
import TypedModel.Schema.Error
import TypedModel.Hint.Basic

/-!
# The schema of a hint

Scalars have their data types, lists are arrays, dicts with text keys are maps,
records are objects, an optional hint is the type it makes optional, and any
other union is anything. A hint with a part that has no schema has none itself;
the error names the whole hint.
-/

namespace TypedModel

/-- Data type of a scalar kind. -/
def ScalarKind.dataType : ScalarKind → DataType
  | .int => .long
  | .str => .string
  | .bool => .boolean
  | .float => .double
  | .bytes => .binary
  | .datetime => .datetime

namespace TypeHint

/-- Whether a hint is the one of texts. -/
def isStr : TypeHint → Bool
  | .scalar .str => true
  | _ => false

/-- Outcome of a union: that of its only member beside none, otherwise anything. -/
def unionType {ε : Type} (members : List TypeHint) (types : List (Except ε ColType)) :
    Except ε ColType :=
  match members, types with
  | [a, b], [first, second] =>
    if a.isNone && !b.isNone then second
    else if b.isNone && !a.isNone then first
    else .ok .any
  | _, _ => .ok .any

mutual

/-- The column type of a hint, or why there is none. -/
def colType : TypeHint → Except String ColType
  | .scalar kind => .ok (.scalar kind.dataType)
  | .any => .ok .any
  | .list element => (colType element).map .array
  | .dict key value =>
    if key.isStr then (colType value).map .map
    else .error s!"dictionary keys must be `str`, got `{key.display}`"
  | .union members => unionType members (memberTypes members)
  | .record ⟨_, fields⟩ => (fieldTypes fields).map .object
  | .none => .error "`None` is only supported inside Optional[...]"
  | .frame =>
    .error "tabular hints carry no schema, it is inferred from the input example"
  | .foreign name => .error s!"`{name}` has no schema mapping"
termination_by structural h => h

/-- Outcomes of the members of a union. -/
def memberTypes : List TypeHint → List (Except String ColType)
  | [] => []
  | member :: rest => colType member :: memberTypes rest
termination_by structural members => members

/-- Properties of fields; a field with a default is not required. -/
def fieldTypes : List FieldSpec → Except String (List Property)
  | [] => .ok []
  | ⟨name, hint, default?⟩ :: rest => do
    let type ← colType hint
    let properties ← fieldTypes rest
    .ok (⟨name, type, default?.isNone⟩ :: properties)
termination_by structural fields => fields

end

/-- The schema of a hint: one unnamed column, which an optional hint does not
require. -/
def schema (h : TypeHint) : Except SchemaError Schema :=
  match h.colType with
  | .ok type => .ok ⟨[⟨Option.none, type, h.optional?.isNone⟩]⟩
  | .error reason => .error (.unsupportedHint h.display reason)

/-- The error of a hint without a schema. -/
def schemaError? (h : TypeHint) : Option SchemaError :=
  match h.schema with
  | .ok _ => Option.none
  | .error e => some e

end TypeHint

end TypedModel
