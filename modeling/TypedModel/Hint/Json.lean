import TypedModel.Hint.Basic
import TypedModel.Value.Json

/-!
# Hints as documents

The text of a hint shows a record by its name alone and writes some unions as
optional. The document of a hint keeps all of it: the form, the parts in order,
and the fields of every record with their defaults.
-/

namespace TypedModel

namespace TypeHint

/-- A document of a form and its parts. -/
def node (form : String) (parts : List (String × Json)) : Json :=
  .object (("t", .string form) :: parts)

/-- The document of a field, given that of its hint; one that is required has no
default. -/
def fieldNode (name : String) (hint : Json) (default? : Option Value) : Json :=
  .object [("name", .string name), ("hint", hint),
    ("default", default?.elim .null Value.toJson), ("required", .bool default?.isNone)]

mutual

/-- The document of a hint. -/
def toJson : TypeHint → Json
  | .scalar kind => node kind.name []
  | .none => node "none" []
  | .any => node "any" []
  | .list element => node "list" [("of", toJson element)]
  | .dict key value => node "dict" [("key", toJson key), ("value", toJson value)]
  | .union members => node "union" [("of", .array (membersToJson members))]
  | .record ⟨name, fields⟩ =>
    node "record" [("name", .string name), ("fields", .array (fieldsToJson fields))]
  | .frame => node "dataframe" []
  | .foreign name => node "opaque" [("name", .string name)]
termination_by structural h => h

/-- The documents of members. -/
def membersToJson : List TypeHint → List Json
  | [] => []
  | member :: rest => toJson member :: membersToJson rest
termination_by structural members => members

/-- The documents of fields. -/
def fieldsToJson : List FieldSpec → List Json
  | [] => []
  | ⟨name, hint, default?⟩ :: rest =>
    fieldNode name (toJson hint) default? :: fieldsToJson rest
termination_by structural fields => fields

end

end TypeHint

/-- The document of a field. -/
def FieldSpec.toJson (f : FieldSpec) : Json :=
  TypeHint.fieldNode f.name f.hint.toJson f.default?

end TypedModel
