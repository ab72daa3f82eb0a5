import TypedModel.Value.Basic

/-!
# Type hints

The closed set of hint shapes that a predict function can declare: scalars,
lists, dicts, unions, records, frames, anything, and classes that have no
schema. A record definition carries its fields in order; a field with a default
need not be given.
-/

namespace TypedModel

/-- Scalar kinds of a hint. -/
inductive ScalarKind where
  /-- 64-bit integers. -/
  | int
  /-- Texts. -/
  | str
  /-- Truth values. -/
  | bool
  /-- Doubles. -/
  | float
  /-- Octets. -/
  | bytes
  /-- Instants. -/
  | datetime
  deriving DecidableEq

/-- Name of a scalar kind as a hint writes it. -/
def ScalarKind.name : ScalarKind → String
  | .int => "int"
  | .str => "str"
  | .bool => "bool"
  | .float => "float"
  | .bytes => "bytes"
  | .datetime => "datetime"

mutual

/-- A type hint. -/
inductive TypeHint where
  /-- A scalar. -/
  | scalar (kind : ScalarKind)
  /-- The type of the missing value, meant for unions. -/
  | none
  /-- Anything. -/
  | any
  /-- Lists. -/
  | list (element : TypeHint)
  /-- Dicts. -/
  | dict (key : TypeHint) (value : TypeHint)
  /-- One of several hints, tried in order. -/
  | union (members : List TypeHint)
  /-- Instances of a record. -/
  | record (definition : RecordDef)
  /-- Frames; inputs are taken as they are. -/
  | frame
  /-- A class without a schema. -/
  | foreign (name : String)

/-- A record definition. -/
structure RecordDef where
  /-- Name of the record. -/
  name : String
  /-- Fields in the order of their declaration. -/
  fields : List FieldSpec

/-- A field of a record definition. -/
structure FieldSpec where
  /-- Name of the field. -/
  name : String
  /-- Declared hint. -/
  hint : TypeHint
  /-- Value of a field that is not given; without one the field is required. -/
  default? : Option Value

end

instance : Inhabited TypeHint := ⟨.any⟩

namespace TypeHint

/-- The optional form of a hint. -/
def optional (inner : TypeHint) : TypeHint := .union [inner, .none]

/-- Whether this is the type of the missing value. -/
def isNone : TypeHint → Bool
  | .none => true
  | _ => false

/-- The only hint beside none among the members of a union of two. -/
def optionalMember? : List TypeHint → Option TypeHint
  | [a, b] =>
    if a.isNone then if b.isNone then Option.none else some b
    else if b.isNone then some a else Option.none
  | _ => Option.none

/-- The hint that is made optional, in either order of the two members. -/
def optional? : TypeHint → Option TypeHint
  | .union members => optionalMember? members
  | _ => Option.none

/-- Hints whose inputs are taken unchecked and without a warning. -/
def isPassThrough : TypeHint → Bool
  | .frame => true
  | _ => false

/-- Comparison of optional default values, doubles compared numerically. -/
def sameDefault : Option Value → Option Value → Bool
  | some a, some b => a.sameAs b
  | Option.none, Option.none => true
  | _, _ => false

mutual

/-- Comparison of hints, doubles among the defaults compared numerically. -/
def sameAs : TypeHint → TypeHint → Bool
  | .scalar a, .scalar b => decide (a = b)
  | .none, .none | .any, .any | .frame, .frame => true
  | .list a, .list b => sameAs a b
  | .dict k a, .dict l b => sameAs k l && sameAs a b
  | .union as, .union bs => membersSameAs as bs
  | .record ⟨m, a⟩, .record ⟨n, b⟩ => m == n && fieldsSameAs a b
  | .foreign a, .foreign b => a == b
  | _, _ => false
termination_by structural h => h

/-- Comparison of members in order. -/
def membersSameAs : List TypeHint → List TypeHint → Bool
  | [], [] => true
  | a :: as, b :: bs => sameAs a b && membersSameAs as bs
  | _, _ => false
termination_by structural members => members

/-- Comparison of fields in order. -/
def fieldsSameAs : List FieldSpec → List FieldSpec → Bool
  | [], [] => true
  | ⟨m, a, d⟩ :: as, ⟨n, b, e⟩ :: bs =>
    m == n && sameAs a b && sameDefault d e && fieldsSameAs as bs
  | _, _ => false
termination_by structural fields => fields

end

/-- Text of a union, given the texts of its members. -/
def displayUnion (members : List TypeHint) (texts : List String) : String :=
  match members, texts with
  | [a, b], [first, second] =>
    if a.isNone && !b.isNone then s!"Optional[{second}]"
    else if b.isNone && !a.isNone then s!"Optional[{first}]"
    else s!"Union[{first}, {second}]"
  | _, _ => "Union[" ++ String.intercalate ", " texts ++ "]"

mutual

/-- Text of a hint. A union of none and one other hint is written as optional. -/
def display : TypeHint → String
  | .scalar kind => kind.name
  | .none => "None"
  | .any => "Any"
  | .list element => s!"list[{display element}]"
  | .dict key value => s!"dict[{display key}, {display value}]"
  | .union members => displayUnion members (displayMembers members)
  | .record ⟨name, _⟩ => name
  | .frame => "DataFrame"
  | .foreign name => name
termination_by structural h => h

/-- Texts of members. -/
def displayMembers : List TypeHint → List String
  | [] => []
  | member :: rest => display member :: displayMembers rest
termination_by structural members => members

end

/-- Kind of a hint as messages name what they expect. -/
def kindName : TypeHint → String
  | .scalar kind => kind.name
  | .none => "NoneType"
  | .any => "Any"
  | .list _ => "list"
  | .dict _ _ => "dict"
  | .union members => display (.union members)
  | .record definition => definition.name
  | .frame => "DataFrame"
  | .foreign name => name

end TypeHint

/-- Whether a field has to be given. -/
def FieldSpec.isRequired (f : FieldSpec) : Bool := f.default?.isNone

/-- The first field of a name. -/
def RecordDef.get? (d : RecordDef) (name : String) : Option FieldSpec :=
  d.fields.find? fun f => f.name == name

/-- The hints of a predict function. -/
structure TypeHints where
  /-- Hint of the input. -/
  input : Option TypeHint
  /-- Hint of the output. -/
  output : Option TypeHint

/-- Text of an optional hint. -/
def TypeHints.displayOne : Option TypeHint → String
  | some hint => hint.display
  | none => "None"

/-- Text of the hints of a function. -/
def TypeHints.display (h : TypeHints) : String :=
  s!"_TypeHints(input={displayOne h.input}, output={displayOne h.output})"

end TypedModel
