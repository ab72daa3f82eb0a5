import TypedModel.Checksum.Crc32
import TypedModel.ModelId
import TypedModel.Schema.Json
import TypedModel.Store.Disk
import TypedModel.Store.Error
import TypedModel.Value.Json

/-!
# Manifests

A manifest describes a saved model: its identifier, the name of its logic, its
signature and its input example. A checksum covers the text of the last two. The
manifest is kept as an indented JSON file.
-/

namespace TypedModel

/-- The description of a saved model. -/
structure Manifest where
  /-- Identifier of the model. -/
  modelId : ModelId
  /-- Time of saving as a text. -/
  createdAt : String
  /-- Kind of the model. -/
  flavor : String
  /-- Name of the logic. -/
  predictFn : String
  /-- Signature, if one was inferred. -/
  signature : Option ModelSignature
  /-- Input example, if one was given. -/
  inputExample : Option Value
  /-- Checksum of signature and example. -/
  payloadChecksum : String
  /-- Version of the form. -/
  formatVersion : UInt8

namespace Manifest

/-- Name of the manifest file in a model's folder. -/
def fileName : String := "MLmodel.json"

/-- Kind of every model saved. -/
def functionFlavor : String := "python_function"

/-- The document of an optional signature. -/
def signatureToJson (signature : Option ModelSignature) : Json :=
  signature.elim .null ModelSignature.toJson

/-- The document of an optional example. -/
def exampleToJson (given : Option Value) : Json := given.elim .null Value.toJson

/-- The document that the checksum covers. -/
def payload (signature : Option ModelSignature) (given : Option Value) : Json :=
  .object [("signature", signatureToJson signature), ("input_example", exampleToJson given)]

/-- Checksum of a signature and an example. -/
def checksumOf (signature : Option ModelSignature) (given : Option Value) : String :=
  Checksum.ofText (payload signature given).toText

/-- The manifest of a model saved at a time, to the second. -/
def ofModel (id : ModelId) (predictFn : String) (signature : Option ModelSignature)
    (given : Option Value) (now : Instant) : Manifest where
  modelId := id
  createdAt := Time.render "Z" now.wholeSecond
  flavor := functionFlavor
  predictFn := predictFn
  signature := signature
  inputExample := given
  payloadChecksum := checksumOf signature given
  formatVersion := 1

/-- Checksum of the manifest's signature and example as they are. -/
def computedChecksum (m : Manifest) : String := checksumOf m.signature m.inputExample

/-- Checks the checksum. -/
def verify (m : Manifest) : Except StoreError Unit :=
  if m.computedChecksum = m.payloadChecksum then .ok ()
  else .error (.checksumMismatch m.modelId.uri m.payloadChecksum m.computedChecksum)

/-- The document of a manifest. -/
def toJson (m : Manifest) : Json :=
  .object [("model_id", .string m.modelId.render), ("created_at", .string m.createdAt),
    ("flavor", .string m.flavor), ("predict_fn", .string m.predictFn),
    ("signature", signatureToJson m.signature), ("input_example", exampleToJson m.inputExample),
    ("payload_checksum", .string m.payloadChecksum),
    ("format_version", .ofInt m.formatVersion.toNat)]

/-- Text of the manifest file. -/
def toText (m : Manifest) : String := m.toJson.toIndentedText

/-- Comparison of manifests that compares doubles numerically. -/
def sameAs (a b : Manifest) : Bool :=
  decide (a.modelId = b.modelId) && a.createdAt == b.createdAt && a.flavor == b.flavor &&
    a.predictFn == b.predictFn && decide (a.signature = b.signature) &&
    (match a.inputExample, b.inputExample with
      | some v, some w => v.sameAs w
      | none, none => true
      | _, _ => false) &&
    a.payloadChecksum == b.payloadChecksum && a.formatVersion == b.formatVersion

/-! ## Reading -/

/-- Identifiers in any of their written forms. -/
def decodeId : Decoder ModelId := fun j => do
  let text ← Decoder.string j
  Decoder.required (ModelId.parse? text)

/-- Integers from 0 to 255. -/
def decodeVersion : Decoder UInt8
  | .number (.int n) =>
    if 0 ≤ n ∧ n ≤ 255 then .ok (UInt8.ofNat n.toNat) else .error .malformed
  | _ => .error .malformed

/-- What the fields of a manifest have given so far. -/
structure Slots where
  /-- The identifier. -/
  modelId : Option ModelId := none
  /-- The time. -/
  createdAt : Option String := none
  /-- The kind. -/
  flavor : Option String := none
  /-- The name of the logic. -/
  predictFn : Option String := none
  /-- The signature. -/
  signature : Option (Option ModelSignature) := none
  /-- The example. -/
  inputExample : Option (Option Value) := none
  /-- The checksum. -/
  payloadChecksum : Option String := none
  /-- The version. -/
  formatVersion : Option UInt8 := none

/-- One field. -/
def Slots.step (s : Slots) (f : String × Json) : Except DecodeError Slots := do
  match f.1 with
  | "model_id" => .ok { s with modelId := ← Decoder.once s.modelId decodeId f.2 }
  | "created_at" => .ok { s with createdAt := ← Decoder.once s.createdAt Decoder.string f.2 }
  | "flavor" => .ok { s with flavor := ← Decoder.once s.flavor Decoder.string f.2 }
  | "predict_fn" => .ok { s with predictFn := ← Decoder.once s.predictFn Decoder.string f.2 }
  | "signature" =>
    let signature ← Decoder.once s.signature (Decoder.nullable ModelSignature.decoder) f.2
    .ok { s with signature := signature }
  | "input_example" =>
    let given ← Decoder.once s.inputExample (Decoder.nullable Value.decoder) f.2
    .ok { s with inputExample := given }
  | "payload_checksum" =>
    .ok { s with payloadChecksum := ← Decoder.once s.payloadChecksum Decoder.string f.2 }
  | "format_version" =>
    .ok { s with formatVersion := ← Decoder.once s.formatVersion decodeVersion f.2 }
  | _ =>
    Decoder.passOver f.2
    .ok s

/-- The manifest of the fields given; only signature and example may be absent. -/
def Slots.finish (s : Slots) : Except DecodeError Manifest := do
  .ok {
    modelId := ← Decoder.required s.modelId
    createdAt := ← Decoder.required s.createdAt
    flavor := ← Decoder.required s.flavor
    predictFn := ← Decoder.required s.predictFn
    signature := s.signature.getD none
    inputExample := s.inputExample.getD none
    payloadChecksum := ← Decoder.required s.payloadChecksum
    formatVersion := ← Decoder.required s.formatVersion }

/-- The fields in the order in which a list gives them. -/
def fieldNames : List String :=
  ["model_id", "created_at", "flavor", "predict_fn", "signature", "input_example",
    "payload_checksum", "format_version"]

/-- The manifest of a document: an object, or a list of all its parts in order. -/
def decoder : Decoder Manifest
  | .object fields => do (← fields.foldlM Slots.step {}).finish
  | .array items =>
    if items.length = fieldNames.length then do
      (← (fieldNames.zip items).foldlM Slots.step {}).finish
    else .error .malformed
  | _ => .error .malformed

/-- Reads the manifest file at a written path. -/
def read (disk : Disk) (path : String) : Except StoreError Manifest :=
  match disk.read path with
  | none => .error (.io path)
  | some text =>
    match Decoder.ofText decoder text with
    | .ok m => .ok m
    | .error _ => .error (.manifest path)

/-- Writes the manifest file at a written path. -/
def write (m : Manifest) (disk : Disk) (path : String) : Except StoreError Disk :=
  match disk.write path m.toText with
  | some disk => .ok disk
  | none => .error (.io path)

end Manifest

end TypedModel
