import TypedModel.Value.Basic
import TypedModel.Json.Decoder
import TypedModel.Json.Printer
import TypedModel.Text.Base64
import TypedModel.Time.Rfc3339

/-!
# Values as documents

A value is written as an object of its kind and its content. Reading takes the
two fields in either order, or a list of the two. Beside this form, which keeps
every value, `ofJson` takes any document to the value it looks like.
-/

namespace TypedModel.Value

/-- Kinds of values. -/
inductive Kind where
  /-- No value. -/
  | null
  /-- Truth values. -/
  | bool
  /-- Integers. -/
  | long
  /-- Doubles. -/
  | double
  /-- Texts. -/
  | str
  /-- Octets. -/
  | bytes
  /-- Instants. -/
  | datetime
  /-- Lists. -/
  | list
  /-- Maps. -/
  | map
  /-- Record instances. -/
  | record
  /-- Frames. -/
  | frame
  deriving DecidableEq

/-- The written names of the kinds. -/
def Kind.options : List (String × Kind) :=
  [("null", .null), ("bool", .bool), ("long", .long), ("double", .double), ("str", .str),
    ("bytes", .bytes), ("datetime", .datetime), ("list", .list), ("map", .map),
    ("record", .record), ("frame", .frame)]

/-! ## Writing -/

/-- An object of a kind and a content. -/
def tagged (kind : String) (content : Json) : Json :=
  .object [("kind", .string kind), ("value", content)]

/-- Content of a double: a number, or a name where JSON has no number. -/
def doubleToJson : Double → Json
  | .nan => .string "NaN"
  | .infinite negative => .string (if negative then "-inf" else "inf")
  | x => .number (.double x)

mutual

/-- The document of a value. -/
def toJson : Value → Json
  | .null => .object [("kind", .string "null")]
  | .bool b => tagged "bool" (.bool b)
  | .long n => tagged "long" (.ofInt n.toInt)
  | .double x => tagged "double" (doubleToJson x)
  | .str s => tagged "str" (.string s)
  | .bytes octets => tagged "bytes" (.string (String.ofList (Text.base64Encode octets)))
  | .datetime t => tagged "datetime" (.string (Time.render "Z" t))
  | .list items => tagged "list" (.array (itemsToJson items))
  | .map entries => tagged "map" (.object (entriesToJson entries))
  | .record ⟨name, fields⟩ =>
    tagged "record" (.object [("name", .string name), ("fields", .array (fieldsToJson fields))])
  | .frame ⟨columns, rows⟩ =>
    tagged "frame"
      (.object [("columns", .array (columns.map .string)), ("rows", .array (rowsToJson rows))])
termination_by structural v => v

/-- The documents of items. -/
def itemsToJson : List Value → List Json
  | [] => []
  | item :: rest => toJson item :: itemsToJson rest
termination_by structural items => items

/-- The fields of a map. -/
def entriesToJson : List (String × Value) → List (String × Json)
  | [] => []
  | (name, value) :: rest => (name, toJson value) :: entriesToJson rest
termination_by structural entries => entries

/-- The fields of a record instance as pairs of name and value. -/
def fieldsToJson : List (String × Value) → List Json
  | [] => []
  | (name, value) :: rest => .array [.string name, toJson value] :: fieldsToJson rest
termination_by structural fields => fields

/-- The rows of a frame. -/
def rowsToJson : List (List Value) → List Json
  | [] => []
  | row :: rest => .array (itemsToJson row) :: rowsToJson rest
termination_by structural rows => rows

end

/-- Compact text of a value's document. -/
def toText (v : Value) : String := v.toJson.toText

/-! ## Reading -/

/-- Integers of 64 bits. -/
def decodeLong : Decoder Int64
  | .number (.int n) =>
    if Int64.minValue.toInt ≤ n ∧ n ≤ Int64.maxValue.toInt then .ok (Int64.ofInt n)
    else .error .malformed
  | _ => .error .malformed

/-- Doubles: any number, or one of the three names. -/
def decodeDouble : Decoder Double
  | .number n => .ok n.toDouble
  | .string "NaN" => .ok .nan
  | .string "inf" => .ok (.infinite false)
  | .string "-inf" => .ok (.infinite true)
  | .string text => .error (.invalidDouble text)
  | _ => .error .malformed

/-- Maps: of fields with one name the last stays. -/
def decodeEntries (value : Decoder Value) : Decoder (Entries Value)
  | .object fields =>
    fields.foldlM (fun entries f => (value f.2).map fun v => Entries.insert f.1 v entries) []
  | _ => .error .malformed

/-- Record instances: an object, or a list of name and fields. -/
def decodeRecord (value : Decoder Value) : Decoder Record
  | .array items => do
    let (name, fields) ← Decoder.pair Decoder.string fieldsDecoder (.array items)
    .ok ⟨name, fields⟩
  | .object fields => do
    let (name, fields) ← fields.foldlM step (none, none)
    .ok ⟨← Decoder.required name, ← Decoder.required fields⟩
  | _ => .error .malformed
where
  /-- Pairs of field name and value. -/
  fieldsDecoder : Decoder (List (String × Value)) :=
    Decoder.list (Decoder.pair Decoder.string value)
  /-- One field of the object. -/
  step (slots : Option String × Option (List (String × Value))) (f : String × Json) :
      Except DecodeError (Option String × Option (List (String × Value))) := do
    match f.1 with
    | "name" => .ok (← Decoder.once slots.1 Decoder.string f.2, slots.2)
    | "fields" => .ok (slots.1, ← Decoder.once slots.2 fieldsDecoder f.2)
    | _ =>
      Decoder.passOver f.2
      .ok slots

/-- Frames: an object, or a list of columns and rows. Rows may have any number of
cells. -/
def decodeFrame (value : Decoder Value) : Decoder Frame
  | .array items => do
    let (columns, rows) ← Decoder.pair columnsDecoder rowsDecoder (.array items)
    .ok ⟨columns, rows⟩
  | .object fields => do
    let (columns, rows) ← fields.foldlM step (none, none)
    .ok ⟨← Decoder.required columns, ← Decoder.required rows⟩
  | _ => .error .malformed
where
  /-- Column names. -/
  columnsDecoder : Decoder (List String) := Decoder.list Decoder.string
  /-- Rows of cells. -/
  rowsDecoder : Decoder (List (List Value)) := Decoder.list (Decoder.list value)
  /-- One field of the object. -/
  step (slots : Option (List String) × Option (List (List Value))) (f : String × Json) :
      Except DecodeError (Option (List String) × Option (List (List Value))) := do
    match f.1 with
    | "columns" => .ok (← Decoder.once slots.1 columnsDecoder f.2, slots.2)
    | "rows" => .ok (slots.1, ← Decoder.once slots.2 rowsDecoder f.2)
    | _ =>
      Decoder.passOver f.2
      .ok slots

/-- The content of a kind, `value` reading the values within. -/
def decodeContent (value : Decoder Value) : Kind → Decoder Value
  | .null => fun
    | .null => .ok .null
    | _ => .error .malformed
  | .bool => fun j => (Decoder.bool j).map .bool
  | .long => fun j => (decodeLong j).map .long
  | .double => fun j => (decodeDouble j).map .double
  | .str => fun j => (Decoder.string j).map .str
  | .bytes => fun j => do
    let text ← Decoder.string j
    (Decoder.required (Text.base64Decode? text.toList)).map .bytes
  | .datetime => fun j => do
    let text ← Decoder.string j
    (Decoder.required (Time.parse? text)).map .datetime
  | .list => fun j => (Decoder.list value j).map .list
  | .map => fun j => (decodeEntries value j).map .map
  | .record => fun j => (decodeRecord value j).map .record
  | .frame => fun j => (decodeFrame value j).map .frame

/-- What the fields of a value's object have given so far. -/
inductive Progress where
  /-- Neither kind nor content. -/
  | nothing
  /-- The kind. -/
  | kind (k : Kind)
  /-- The content, read whole until the kind is known. -/
  | content (j : Json)
  /-- Both. -/
  | both (v : Value)

/-- One field of a value's object. A content in front of its kind has been read
whole, which shows in how the values within it may be written. -/
def Progress.step (kind : Decoder Kind) (content : Kind → Decoder Value)
    (heldContent : Kind → Decoder Value) (p : Progress) (f : String × Json) :
    Except DecodeError Progress :=
  match f.1, p with
  | "kind", .nothing => (kind f.2).map .kind
  | "kind", .content j => do
    let k ← kind f.2
    (heldContent k j).map .both
  | "value", .nothing => (Decoder.whole f.2).map .content
  | "value", .kind k => (content k f.2).map .both
  | "kind", _ | "value", _ => .error .malformed
  | _, _ => (Decoder.passOver f.2).map fun _ => p

/-- The value that the fields have given; only null has no content. -/
def Progress.finish : Progress → Except DecodeError Value
  | .both v => .ok v
  | .kind .null => .ok .null
  | _ => .error .malformed

/-- Reads a value within the given number of further levels; `held` tells that
the tree was read whole before its kind was known. -/
def decodeWithin : Nat → Bool → Decoder Value
  | 0, _, _ => .error .malformed
  | levels + 1, held, .object fields => do
    let kind := Decoder.nullary Kind.options held
    let p ← fields.foldlM
      (Progress.step kind (decodeContent (decodeWithin levels held))
        (decodeContent (decodeWithin levels true)))
      .nothing
    p.finish
  | levels + 1, held, .array (k :: content :: rest) => do
    let k ← Decoder.choice Kind.options held k
    let v ← decodeContent (decodeWithin levels held) k content
    if rest.isEmpty then .ok v else .error .malformed
  | _, _, _ => .error .malformed

/-- The value of a document. Every level of values takes a container, so the
nesting limit of documents bounds the levels. -/
def decoder : Decoder Value := decodeWithin (Json.nestingLimit + 1) false

/-- The value of a text. -/
def parse (text : String) : Except DecodeError Value := Decoder.ofText decoder text

/-! ## Any document as a value -/

/-- A number as a value: an integer where it is one of 64 bits. -/
def ofNumber : Json.Number → Value
  | .int n =>
    if Int64.minValue.toInt ≤ n ∧ n ≤ Int64.maxValue.toInt then .long (Int64.ofInt n)
    else .double (.ofInt n)
  | .double x => .double x

mutual

/-- The value a document looks like: objects are maps, and there are neither
records, octets, instants nor frames. -/
def ofJson : Json → Value
  | .null => .null
  | .bool b => .bool b
  | .number n => ofNumber n
  | .string s => .str s
  | .array items => .list (ofJsonItems items)
  | .object fields => ofPairs (ofJsonFields fields)
  | .flawed _ => .null
termination_by structural j => j

/-- The values of items. -/
def ofJsonItems : List Json → List Value
  | [] => []
  | item :: rest => ofJson item :: ofJsonItems rest
termination_by structural items => items

/-- The values of fields. -/
def ofJsonFields : List (String × Json) → List (String × Value)
  | [] => []
  | (name, value) :: rest => (name, ofJson value) :: ofJsonFields rest
termination_by structural fields => fields

end

end TypedModel.Value
