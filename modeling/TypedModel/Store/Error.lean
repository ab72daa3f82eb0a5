/-!
# Store errors

The causes for which a store operation fails, with the text of each. What the
file system or the JSON reader would say beyond the cause is not kept.
-/

namespace TypedModel

/-- What is wrong with a configuration. -/
inductive ConfigProblem where
  /-- Its file cannot be read. -/
  | unreadable
  /-- Its text is no configuration. -/
  | invalidJson
  /-- It names no root. -/
  | rootMissing
  deriving DecidableEq

/-- Text of a configuration problem. -/
def ConfigProblem.message : ConfigProblem → String
  | .unreadable => "Failed to read config"
  | .invalidJson => "Invalid config JSON"
  | .rootMissing => "root_dir is required"

/-- Why a store operation failed. -/
inductive StoreError where
  /-- The file system refused. -/
  | io (path : String)
  /-- A manifest's text is no manifest. -/
  | manifest (path : String)
  /-- There is no manifest for the model. -/
  | notFound (uri : String)
  /-- The text is no address of a model. -/
  | invalidUri (uri : String)
  /-- The checksum of a manifest is not that of its payload. -/
  | checksumMismatch (uri expected actual : String)
  /-- The model was saved, but its logic is not registered here. -/
  | logicMissing (uri : String)
  /-- The configuration cannot be used. -/
  | config (problem : ConfigProblem)
  deriving DecidableEq

namespace StoreError

/-- What a manifest error says. -/
def manifestMessage : String := "Failed to parse manifest"

/-- Text of an error. -/
def display : StoreError → String
  | .io path => s!"I/O error at {path}"
  | .manifest path => s!"Invalid manifest {path}: {manifestMessage}"
  | .notFound uri => s!"Model not found: {uri}"
  | .invalidUri uri => s!"Invalid model URI: {uri}"
  | .checksumMismatch uri expected actual =>
    s!"Checksum mismatch for {uri}: expected {expected}, got {actual}"
  | .logicMissing uri => s!"Predict logic for {uri} is not registered in this process"
  | .config problem => s!"Config error: {problem.message}"

/-- Whether the error is about a model that is not there. -/
def isNotFound : StoreError → Bool
  | .notFound _ | .logicMissing _ => true
  | _ => false

end StoreError

end TypedModel
