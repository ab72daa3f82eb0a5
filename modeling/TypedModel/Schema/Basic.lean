/-!
# Schemas

Column types, columns and schemas, and the signature of a model, which is the
pair of its input and output schemas. A column derived from a hint is unnamed;
the columns of a frame are named. Equality of all of these is decidable.
-/

namespace TypedModel

/-- Scalar data types. -/
inductive DataType where
  /-- 64-bit integers. -/
  | long
  /-- Texts. -/
  | string
  /-- Truth values. -/
  | boolean
  /-- Doubles. -/
  | double
  /-- Octets. -/
  | binary
  /-- Instants. -/
  | datetime
  deriving DecidableEq

/-- Written name of a data type. -/
def DataType.name : DataType → String
  | .long => "long"
  | .string => "string"
  | .boolean => "boolean"
  | .double => "double"
  | .binary => "binary"
  | .datetime => "datetime"

mutual

/-- The type of a column or property. -/
inductive ColType where
  /-- A scalar. -/
  | scalar (type : DataType)
  /-- Arrays whose items have one type. -/
  | array (items : ColType)
  /-- Maps from texts whose values have one type. -/
  | map (values : ColType)
  /-- Objects with properties in order. -/
  | object (properties : List Property)
  /-- Anything. -/
  | any

/-- A property of an object. -/
structure Property where
  /-- Name of the property. -/
  name : String
  /-- Type of the property. -/
  type : ColType
  /-- Whether the property has to be present. -/
  required : Bool

end

namespace ColType

instance : Inhabited ColType := ⟨.any⟩

/-- Data type of a scalar. -/
def dataType? : ColType → Option DataType
  | .scalar type => some type
  | _ => none

/-- Written name of the outermost type. -/
def typeName : ColType → String
  | .scalar type => type.name
  | .array _ => "array"
  | .map _ => "map"
  | .object _ => "object"
  | .any => "any"

mutual

/-- Text of a type; a property that need not be present has a question mark. -/
def display : ColType → String
  | .scalar type => type.name
  | .array items => s!"Array({display items})"
  | .map values => s!"Map({display values})"
  | .object properties =>
    "Object(" ++ String.intercalate ", " (displayProperties properties) ++ ")"
  | .any => "any"
termination_by structural t => t

/-- Texts of properties. -/
def displayProperties : List Property → List String
  | [] => []
  | ⟨name, type, required⟩ :: rest =>
    (name ++ (if required then ": " else "?: ") ++ display type) :: displayProperties rest
termination_by structural properties => properties

end

mutual

/-- Decides equality of types. -/
def same : ColType → ColType → Bool
  | .scalar a, .scalar b => decide (a = b)
  | .array a, .array b => same a b
  | .map a, .map b => same a b
  | .object as, .object bs => sameProperties as bs
  | .any, .any => true
  | _, _ => false
termination_by structural t => t

/-- Decides equality of properties. -/
def sameProperties : List Property → List Property → Bool
  | [], [] => true
  | ⟨m, a, p⟩ :: as, ⟨n, b, q⟩ :: bs =>
    decide (m = n) && same a b && decide (p = q) && sameProperties as bs
  | _, _ => false
termination_by structural properties => properties

end

mutual

/-- The decision accepts equal types. -/
theorem same_self : ∀ t : ColType, same t t = true
  | .scalar _ => by simp [same]
  | .array t => by simpa [same] using same_self t
  | .map t => by simpa [same] using same_self t
  | .object ps => by simpa [same] using sameProperties_self ps
  | .any => rfl

/-- The decision accepts equal properties. -/
theorem sameProperties_self : ∀ ps : List Property, sameProperties ps ps = true
  | [] => rfl
  | ⟨_, t, _⟩ :: ps => by simp [sameProperties, same_self t, sameProperties_self ps]

end

mutual

/-- The decision accepts equal types only. -/
theorem eq_of_same : ∀ {s t : ColType}, same s t = true → s = t
  | .scalar _, .scalar _, h => by simpa [same] using h
  | .array _, .array _, h => congrArg _ (eq_of_same (by simpa [same] using h))
  | .map _, .map _, h => congrArg _ (eq_of_same (by simpa [same] using h))
  | .object _, .object _, h => congrArg _ (eq_of_sameProperties (by simpa [same] using h))
  | .any, .any, _ => rfl

/-- The decision accepts equal properties only. -/
theorem eq_of_sameProperties :
    ∀ {ps qs : List Property}, sameProperties ps qs = true → ps = qs
  | [], [], _ => rfl
  | ⟨_, _, _⟩ :: _, ⟨_, _, _⟩ :: _, h => by
    simp only [sameProperties, Bool.and_eq_true, decide_eq_true_eq] at h
    obtain ⟨⟨⟨rfl, ht⟩, rfl⟩, hps⟩ := h
    rw [eq_of_same ht, eq_of_sameProperties hps]

end

/-- The decision is equality. -/
theorem same_eq_true_iff {s t : ColType} : same s t = true ↔ s = t :=
  ⟨eq_of_same, fun h => h ▸ same_self s⟩

instance : DecidableEq ColType := fun _ _ => decidable_of_iff _ same_eq_true_iff

end ColType

instance : DecidableEq Property := fun p q =>
  decidable_of_iff (p.name = q.name ∧ p.type = q.type ∧ p.required = q.required)
    ⟨fun h => by cases p; cases q; simpa using h, fun h => h ▸ ⟨rfl, rfl, rfl⟩⟩

/-- A column. -/
structure ColSpec where
  /-- Name of the column; columns derived from hints have none. -/
  name : Option String
  /-- Type of the column. -/
  type : ColType
  /-- Whether the column has to be present. -/
  required : Bool
  deriving DecidableEq

/-- A sequence of columns. -/
structure Schema where
  /-- Columns in order. -/
  columns : List ColSpec
  deriving DecidableEq

namespace Schema

/-- The schema of one unnamed column that has to be present. -/
def single (type : ColType) : Schema := ⟨[⟨none, type, true⟩]⟩

/-- The schema of an output that cannot be described. -/
def any : Schema := single .any

/-- Names of the columns that have one. -/
def columnNames (s : Schema) : List String := s.columns.filterMap ColSpec.name

/-- Whether there is no column. -/
def isEmpty (s : Schema) : Bool := s.columns.isEmpty

end Schema

/-- The schemas of a saved model. -/
structure ModelSignature where
  /-- Schema of the input. -/
  inputs : Option Schema
  /-- Schema of the output. -/
  outputs : Option Schema
  /-- Whether the signature was derived from hints. -/
  fromTypeHint : Bool
  deriving DecidableEq

/-- A signature that was not derived from hints. -/
def ModelSignature.ofSchemas (inputs outputs : Option Schema) : ModelSignature :=
  ⟨inputs, outputs, false⟩

/-- A signature derived from hints. -/
def ModelSignature.ofHints (inputs outputs : Schema) : ModelSignature :=
  ⟨some inputs, some outputs, true⟩

end TypedModel
