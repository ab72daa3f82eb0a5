import TypedModel.Json.Decoder
import TypedModel.Log.Logged
import TypedModel.Store.Disk
import TypedModel.Store.Error
import TypedModel.Text.Blank

/-!
# Store configuration

A store has a root folder, below which models lie, and three switches that are
on unless the configuration turns them off. The configuration file is JSON; its
root may not be blank.
-/

namespace TypedModel

/-- Configuration of a store. -/
structure StoreConfig where
  /-- Folder below which models lie. -/
  rootDir : String
  /-- Whether loading verifies checksums. -/
  verifyChecksums : Bool
  /-- Whether saving advises to decorate plain functions. -/
  warnUndecorated : Bool
  /-- Whether loaded models check their outputs. -/
  validateOutputs : Bool
  deriving DecidableEq

namespace StoreConfig

/-- The configuration of a root with every switch on. -/
def ofRoot (root : String) : StoreConfig := ⟨root, true, true, true⟩

/-- The folder of models, as a written path. -/
def modelsDir (c : StoreConfig) : String := DiskPath.joinText c.rootDir "models"

/-- Checks that the root is named. -/
def validate (c : StoreConfig) : Except StoreError Unit :=
  if Text.isBlankText c.rootDir then .error (.config .rootMissing) else .ok ()

/-- The document of a configuration. -/
def toJson (c : StoreConfig) : Json :=
  .object [("root_dir", .string c.rootDir), ("verify_checksums", .bool c.verifyChecksums),
    ("warn_undecorated", .bool c.warnUndecorated), ("validate_outputs", .bool c.validateOutputs)]

/-- What the fields of a configuration have given so far. -/
structure Slots where
  /-- The root. -/
  rootDir : Option String := none
  /-- The switch for checksums. -/
  verifyChecksums : Option Bool := none
  /-- The switch for the advice to decorate. -/
  warnUndecorated : Option Bool := none
  /-- The switch for output checks. -/
  validateOutputs : Option Bool := none

/-- One field. -/
def Slots.step (s : Slots) (f : String × Json) : Except DecodeError Slots := do
  match f.1 with
  | "root_dir" => .ok { s with rootDir := ← Decoder.once s.rootDir Decoder.string f.2 }
  | "verify_checksums" =>
    .ok { s with verifyChecksums := ← Decoder.once s.verifyChecksums Decoder.bool f.2 }
  | "warn_undecorated" =>
    .ok { s with warnUndecorated := ← Decoder.once s.warnUndecorated Decoder.bool f.2 }
  | "validate_outputs" =>
    .ok { s with validateOutputs := ← Decoder.once s.validateOutputs Decoder.bool f.2 }
  | _ =>
    Decoder.passOver f.2
    .ok s

/-- The configuration of the fields given; a root has to be among them. -/
def Slots.finish (s : Slots) : Except DecodeError StoreConfig := do
  .ok ⟨← Decoder.required s.rootDir, s.verifyChecksums.getD true, s.warnUndecorated.getD true,
    s.validateOutputs.getD true⟩

/-- The fields in the order in which a list gives them. -/
def fieldNames : List String :=
  ["root_dir", "verify_checksums", "warn_undecorated", "validate_outputs"]

/-- The configuration of a document: an object, or a list of its parts in order. -/
def decoder : Decoder StoreConfig
  | .object fields => do (← fields.foldlM Slots.step {}).finish
  | .array items =>
    if items.length ≤ fieldNames.length then do
      (← (fieldNames.zip items).foldlM Slots.step {}).finish
    else .error .malformed
  | _ => .error .malformed

/-- The configuration of a text. -/
def parse (text : String) : Except StoreError StoreConfig :=
  match Decoder.ofText decoder text with
  | .ok c => .ok c
  | .error _ => .error (.config .invalidJson)

/-- Reads the configuration file at a written path. -/
def load (disk : Disk) (path : String) : Logged (Except StoreError StoreConfig) :=
  match disk.read path with
  | none => pure (.error (.config .unreadable))
  | some text =>
    match parse text with
    | .error e => pure (.error e)
    | .ok c =>
      match c.validate with
      | .error e => pure (.error e)
      | .ok _ => do
        Logged.line (.ofEvent .configLoaded [("path", path), ("root_dir", c.rootDir)])
        pure (.ok c)

end StoreConfig

end TypedModel
