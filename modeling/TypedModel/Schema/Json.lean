import TypedModel.Schema.Basic
import TypedModel.Json.Decoder
import TypedModel.Json.Printer

/-!
# Schemas as documents

The fields of a type stand among the fields of the column or property that has
it: `type`, the parts of the type, then `required`. Reading takes fields in any
order and passes over unknown ones.
-/

namespace TypedModel

namespace ColType

mutual

/-- The fields that describe a type. -/
def toFields : ColType → List (String × Json)
  | .scalar type => [("type", .string type.name)]
  | .array items => [("type", .string "array"), ("items", .object (toFields items))]
  | .map values => [("type", .string "map"), ("values", .object (toFields values))]
  | .object properties =>
    [("type", .string "object"), ("properties", .array (propertiesToJson properties))]
  | .any => [("type", .string "any")]
termination_by structural t => t

/-- The documents of properties. -/
def propertiesToJson : List Property → List Json
  | [] => []
  | ⟨name, type, required⟩ :: rest =>
    .object (("name", .string name) :: toFields type ++ [("required", .bool required)]) ::
      propertiesToJson rest
termination_by structural properties => properties

end

/-- The document of a type. -/
def toJson (t : ColType) : Json := .object t.toFields

/-- Outermost forms of types. -/
inductive Form where
  /-- A scalar. -/
  | scalar (type : DataType)
  /-- An array. -/
  | array
  /-- A map. -/
  | map
  /-- An object. -/
  | object
  /-- Anything. -/
  | any
  deriving DecidableEq

/-- The written names of the forms. -/
def Form.options : List (String × Form) :=
  [("long", .scalar .long), ("string", .scalar .string), ("boolean", .scalar .boolean),
    ("double", .scalar .double), ("binary", .scalar .binary), ("datetime", .scalar .datetime),
    ("array", .array), ("map", .map), ("object", .object), ("any", .any)]

/-- The parts of a type, which are read whole before its form is known. -/
inductive Parts where
  /-- Fields beside the one that names the form. -/
  | fields (fields : List (String × Json))
  /-- Items behind the one that names the form. -/
  | items (items : List Json)

/-- The only part of a form, under its name or by itself. -/
def Parts.only {α : Type} (name : String) (part : Decoder α) :
    Parts → Except DecodeError α
  | .fields given => do
    let slot ← given.foldlM
      (fun slot f => if f.1 = name then Decoder.once slot part f.2 else .ok slot) none
    Decoder.required slot
  | .items [item] => part item
  | .items _ => .error .malformed

/-- No part at all. -/
def Parts.none : Parts → Except DecodeError Unit
  | .fields _ => .ok ()
  | .items given => if given.isEmpty then .ok () else .error .malformed

/-- A type of a known form. -/
def ofParts (type : Decoder ColType) (properties : Decoder (List Property)) (parts : Parts) :
    Form → Except DecodeError ColType
  | .scalar t => parts.none.map fun _ => .scalar t
  | .array => (parts.only "items" type).map .array
  | .map => (parts.only "values" type).map .map
  | .object => (parts.only "properties" properties).map .object
  | .any => parts.none.map fun _ => .any

/-- Form and other fields of a type's fields. -/
def splitForm (form : Decoder Form) (fields : List (String × Json)) :
    Except DecodeError (Form × List (String × Json)) := do
  let (slot, others) ← fields.foldlM step (none, [])
  .ok (← Decoder.required slot, others)
where
  /-- One field. -/
  step (slots : Option Form × List (String × Json)) (f : String × Json) :
      Except DecodeError (Option Form × List (String × Json)) := do
    if f.1 = "type" then .ok (← Decoder.once slots.1 form f.2, slots.2)
    else .ok (slots.1, slots.2 ++ [(f.1, ← Decoder.whole f.2)])

/-- A property: its own fields, and those of its type among them. -/
def decodeProperty (type : Decoder ColType) : Decoder Property
  | .object fields => do
    let (name, required, others) ← fields.foldlM step (none, none, [])
    .ok ⟨← Decoder.required name, ← type (.object others), ← Decoder.required required⟩
  | _ => .error .malformed
where
  /-- One field. -/
  step (slots : Option String × Option Bool × List (String × Json)) (f : String × Json) :
      Except DecodeError (Option String × Option Bool × List (String × Json)) := do
    match f.1 with
    | "name" => .ok (← Decoder.once slots.1 Decoder.string f.2, slots.2)
    | "required" => .ok (slots.1, ← Decoder.once slots.2.1 Decoder.bool f.2, slots.2.2)
    | _ => .ok (slots.1, slots.2.1, slots.2.2 ++ [(f.1, ← Decoder.whole f.2)])

/-- Reads a type within the given number of further levels, from an object or from
a list that names the form first. `held` tells that the tree was read whole before
its meaning was known, which holds of every type within another one. -/
def decodeWithin : Nat → Bool → Decoder ColType
  | 0, _, _ => .error .malformed
  | levels + 1, held, .object fields => do
    let (form, others) ← splitForm (Decoder.choice Form.options held) fields
    let type := decodeWithin levels true
    ofParts type (Decoder.list (decodeProperty type)) (.fields others) form
  | levels + 1, held, .array (first :: rest) => do
    let form ← Decoder.choice Form.options held first
    let rest ← rest.mapM Decoder.whole
    let type := decodeWithin levels true
    ofParts type (Decoder.list (decodeProperty type)) (.items rest) form
  | _, _, _ => .error .malformed

/-- The type of a document. The nesting limit of documents bounds the levels. -/
def decoder : Decoder ColType := decodeWithin (Json.nestingLimit + 1) false

/-- The type of fields that stand among other fields. -/
def fieldsDecoder : Decoder ColType := decodeWithin (Json.nestingLimit + 1) true

end ColType

/-- The document of a data type. -/
def DataType.toJson (t : DataType) : Json := .string t.name

/-- The written names of the data types. -/
def DataType.options : List (String × DataType) :=
  [("long", .long), ("string", .string), ("boolean", .boolean), ("double", .double),
    ("binary", .binary), ("datetime", .datetime)]

/-- The data type of a document. -/
def DataType.decoder : Decoder DataType := Decoder.nullary DataType.options false

/-- The document of a property. -/
def Property.toJson (p : Property) : Json :=
  .object (("name", .string p.name) :: p.type.toFields ++ [("required", .bool p.required)])

/-- The property of a document. -/
def Property.decoder : Decoder Property := ColType.decodeProperty ColType.fieldsDecoder

namespace ColSpec

/-- The document of a column; the name stands in front if there is one. -/
def toJson (c : ColSpec) : Json :=
  let name := match c.name with
    | some name => [("name", Json.string name)]
    | none => []
  .object (name ++ c.type.toFields ++ [("required", .bool c.required)])

/-- The column of a document. The name may be absent or null, and a column is
required unless it says otherwise. -/
def decoder : Decoder ColSpec
  | .object fields => do
    let (name, required, others) ← fields.foldlM step (none, none, [])
    .ok ⟨name.getD none, ← ColType.fieldsDecoder (.object others), required.getD true⟩
  | _ => .error .malformed
where
  /-- One field. -/
  step (slots : Option (Option String) × Option Bool × List (String × Json))
      (f : String × Json) :
      Except DecodeError (Option (Option String) × Option Bool × List (String × Json)) := do
    match f.1 with
    | "name" => .ok (← Decoder.once slots.1 (Decoder.nullable Decoder.string) f.2, slots.2)
    | "required" => .ok (slots.1, ← Decoder.once slots.2.1 Decoder.bool f.2, slots.2.2)
    | _ => .ok (slots.1, slots.2.1, slots.2.2 ++ [(f.1, ← Decoder.whole f.2)])

end ColSpec

namespace Schema

/-- The document of a schema. -/
def toJson (s : Schema) : Json := .object [("columns", .array (s.columns.map ColSpec.toJson))]

/-- The schema of a document: an object, or a list of the columns. -/
def decoder : Decoder Schema
  | .array [columns] => (Decoder.list ColSpec.decoder columns).map Schema.mk
  | .object fields => do
    let columns ← fields.foldlM step none
    .ok ⟨← Decoder.required columns⟩
  | _ => .error .malformed
where
  /-- One field. -/
  step (slot : Option (List ColSpec)) (f : String × Json) :
      Except DecodeError (Option (List ColSpec)) :=
    if f.1 = "columns" then Decoder.once slot (Decoder.list ColSpec.decoder) f.2
    else (Decoder.passOver f.2).map fun _ => slot

end Schema

namespace ModelSignature

/-- The document of a signature; absent schemas have no field. -/
def toJson (s : ModelSignature) : Json :=
  let schema (name : String) (schema : Option Schema) : List (String × Json) :=
    match schema with
    | some s => [(name, s.toJson)]
    | none => []
  .object (schema "inputs" s.inputs ++ schema "outputs" s.outputs ++
    [("from_type_hint", .bool s.fromTypeHint)])

/-- What the fields of a signature have given so far. -/
structure Slots where
  /-- The input schema. -/
  inputs : Option (Option Schema) := none
  /-- The output schema. -/
  outputs : Option (Option Schema) := none
  /-- The origin. -/
  fromTypeHint : Option Bool := none

/-- The signature of the fields given; absent ones have their defaults. -/
def Slots.finish (s : Slots) : ModelSignature :=
  ⟨s.inputs.getD none, s.outputs.getD none, s.fromTypeHint.getD false⟩

/-- One field. -/
def Slots.step (s : Slots) (f : String × Json) : Except DecodeError Slots := do
  match f.1 with
  | "inputs" =>
    .ok { s with inputs := ← Decoder.once s.inputs (Decoder.nullable Schema.decoder) f.2 }
  | "outputs" =>
    .ok { s with outputs := ← Decoder.once s.outputs (Decoder.nullable Schema.decoder) f.2 }
  | "from_type_hint" =>
    .ok { s with fromTypeHint := ← Decoder.once s.fromTypeHint Decoder.bool f.2 }
  | _ =>
    Decoder.passOver f.2
    .ok s

/-- The signature of a document: an object, or a list of up to three of its parts
in order. -/
def decoder : Decoder ModelSignature
  | .object fields => (fields.foldlM Slots.step {}).map Slots.finish
  | .array items =>
    if items.length ≤ 3 then
      ((["inputs", "outputs", "from_type_hint"].zip items).foldlM Slots.step {}).map Slots.finish
    else .error .malformed
  | _ => .error .malformed

end ModelSignature

end TypedModel
