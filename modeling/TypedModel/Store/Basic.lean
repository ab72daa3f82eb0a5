import TypedModel.Predict.Signature
import TypedModel.Store.Config
import TypedModel.Store.Loaded
import TypedModel.Store.Manifest

/-!
# Model stores

A store keeps the manifest of each model in a folder named by its identifier,
and the logic, which is code, in a registry of its own. So a model saved through
another store has a manifest here but no logic. Several stores may share one
disk. Fresh identifiers and the time come from outside.
-/

namespace TypedModel

/-- A store. -/
structure Store where
  /-- Its configuration. -/
  config : StoreConfig
  /-- Registered logic by identifier; each identifier once. -/
  registry : List (ModelId × ModelLogic)

/-- What saving a model gives. -/
structure SavedModel where
  /-- Identifier of the model. -/
  modelId : ModelId
  /-- Address of the model. -/
  uri : String
  /-- Its signature. -/
  signature : Option ModelSignature
  /-- Its folder as a written path. -/
  path : String

/-- A store and its disk after an operation, and what it has given. -/
structure StoreReport (α : Type) where
  /-- The store. -/
  store : Store
  /-- The disk. -/
  disk : Disk
  /-- The result. -/
  result : α

namespace Store

/-- Folder of a model as a written path. -/
def modelDir (s : Store) (id : ModelId) : String :=
  DiskPath.joinText s.config.modelsDir id.render

/-- Manifest file of a model as a written path. -/
def manifestPath (s : Store) (id : ModelId) : String :=
  DiskPath.joinText (s.modelDir id) Manifest.fileName

/-- Whether there is a manifest file for a model. -/
def hasManifest (s : Store) (disk : Disk) (id : ModelId) : Bool :=
  disk.contains (s.manifestPath id)

/-- Opens a store without registered logic and makes its folder of models. Folders
made before a failure stay on the disk. -/
def openAt (disk : Disk) (config : StoreConfig) : Disk × Except StoreError Store :=
  match config.validate with
  | .error e => (disk, .error e)
  | .ok _ =>
    match disk.makeFolders config.modelsDir with
    | (disk, true) => (disk, .ok ⟨config, []⟩)
    | (disk, false) => (disk, .error (.io config.modelsDir))

/-- Registers logic under an identifier. -/
def register (s : Store) (id : ModelId) (logic : ModelLogic) : Store :=
  { s with registry := (id, logic) :: s.registry.filter fun e => e.1 != id }

/-- Removes logic from the registry. -/
def unregister (s : Store) (id : ModelId) : Store :=
  { s with registry := s.registry.filter fun e => e.1 != id }

/-- Writes the manifest of a model into a folder of its own. -/
def writeModel (s : Store) (disk : Disk) (manifest : Manifest) : Disk × Except StoreError Unit :=
  match disk.makeFolders (s.modelDir manifest.modelId) with
  | (disk, false) => (disk, .error (.io (s.modelDir manifest.modelId)))
  | (disk, true) =>
    match manifest.write disk (s.manifestPath manifest.modelId) with
    | .ok disk => (disk, .ok ())
    | .error e => (disk, .error e)

/-- Lines that report a saved model. -/
def savedLines (manifest : Manifest) : List LogLine :=
  let uri := manifest.modelId.uri
  let inferred :=
    if manifest.signature.isSome then [LogLine.ofEvent .signatureInferred [("model_uri", uri)]]
    else []
  inferred ++
    [.ofEvent .modelSaved [("model_uri", uri), ("checksum", manifest.payloadChecksum)]]

/-- Saves a model under a fresh identifier. The signature is the one given, or it
is inferred; no problem with the hints makes saving fail. -/
def save (s : Store) (disk : Disk) (logic : ModelLogic) (given : Option Value)
    (signature : Option ModelSignature) (id : ModelId) (now : Instant) :
    Logged (StoreReport (Except StoreError SavedModel)) := do
  let signature ← logic.inferSignature given signature s.config.warnUndecorated
  let manifest := Manifest.ofModel id logic.name signature given now
  match s.writeModel disk manifest with
  | (disk, .error e) => pure ⟨s, disk, .error e⟩
  | (disk, .ok _) =>
    let saved : SavedModel := ⟨id, id.uri, signature, s.modelDir id⟩
    ⟨⟨s.register id logic, disk, .ok saved⟩, savedLines manifest⟩

/-- The identifier of an address. -/
def idOfUri (uri : String) : Except StoreError ModelId :=
  match ModelId.ofUri? uri with
  | some id => .ok id
  | none => .error (.invalidUri uri)

/-- The identifier of an address for which there is a manifest file. -/
def idOfModel (s : Store) (disk : Disk) (uri : String) : Except StoreError ModelId := do
  let id ← idOfUri uri
  if s.hasManifest disk id then .ok id else .error (.notFound uri)

/-- The manifest of a model. -/
def manifest (s : Store) (disk : Disk) (uri : String) : Except StoreError Manifest := do
  let id ← s.idOfModel disk uri
  Manifest.read disk (s.manifestPath id)

/-- The loaded form of a model, before it is reported. -/
def loadModel (s : Store) (disk : Disk) (uri : String) : Except StoreError LoadedModel := do
  let id ← s.idOfModel disk uri
  let manifest ← Manifest.read disk (s.manifestPath id)
  if s.config.verifyChecksums then manifest.verify
  match s.registry.lookup id with
  | some logic =>
    .ok (.ofLogic id manifest.signature manifest.inputExample logic s.config.validateOutputs)
  | none => .error (.logicMissing uri)

/-- Loads a model. -/
def load (s : Store) (disk : Disk) (uri : String) : Logged (Except StoreError LoadedModel) :=
  match s.loadModel disk uri with
  | .ok model => do
    Logged.line (.ofEvent .modelLoaded [("model_uri", uri)])
    pure (.ok model)
  | .error e => pure (.error e)

/-- Removes a model: its folder and its logic. -/
def delete (s : Store) (disk : Disk) (uri : String) :
    Logged (StoreReport (Except StoreError Unit)) :=
  match s.idOfModel disk uri with
  | .error e => pure ⟨s, disk, .error e⟩
  | .ok id =>
    match disk.remove (s.modelDir id) with
    | none => pure ⟨s, disk, .error (.io (s.modelDir id))⟩
    | some disk => do
      Logged.line (.ofEvent .modelDeleted [("model_uri", uri)])
      pure ⟨s.unregister id, disk, .ok ()⟩

/-- Identifier of an entry of the folder of models that holds a manifest file. -/
def listedId? (s : Store) (disk : Disk) (name : String) : Option ModelId :=
  let folder := DiskPath.joinText s.config.modelsDir name
  if disk.contains (DiskPath.joinText folder Manifest.fileName) then ModelId.parse? name else none

/-- Identifiers of all models with a manifest file, ascending. A folder may be
named by its identifier in any written form. -/
def list (s : Store) (disk : Disk) : Except StoreError (List ModelId) :=
  match disk.names s.config.modelsDir with
  | none => .error (.io s.config.modelsDir)
  | some names =>
    .ok ((names.filterMap (s.listedId? disk)).mergeSort fun a b => a.code.val ≤ b.code.val)

end Store

end TypedModel
