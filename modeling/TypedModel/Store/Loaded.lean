import TypedModel.Predict.Logic
import TypedModel.Schema.Columns

/-!
# Loaded models

A model read back from a store serves calls through a guard of its own, which
never warns. Where its signature came from an example, the named columns of its
input schema have to be present first.
-/

namespace TypedModel

/-- A model read back from a store. -/
structure LoadedModel where
  /-- Identifier of the model. -/
  modelId : ModelId
  /-- Its signature. -/
  signature : Option ModelSignature
  /-- Its input example. -/
  inputExample : Option Value
  /-- Its logic. -/
  logic : ModelLogic
  /-- Its guard. -/
  guard : Guard
  /-- The context its body sees. -/
  context : ModelContext

namespace LoadedModel

/-- The loaded form of saved logic. -/
def ofLogic (id : ModelId) (signature : Option ModelSignature) (given : Option Value)
    (logic : ModelLogic) (validateOutputs : Bool) : LoadedModel where
  modelId := id
  signature := signature
  inputExample := given
  logic := logic
  guard := (Guard.silent logic.name logic.hints).withOutputValidation validateOutputs
  context := .ofModel id

/-- The input schema whose columns are enforced: that of a signature which was not
derived from hints. -/
def enforcedSchema? (m : LoadedModel) : Option Schema :=
  (m.signature.filter fun s => !s.fromTypeHint).bind ModelSignature.inputs

/-- Checks the columns of an input. -/
def checkColumns (m : LoadedModel) (input : Value) : Except SchemaError Unit :=
  match m.enforcedSchema? with
  | some schema => schema.enforce input
  | none => .ok ()

/-- A call of the model. Missing columns reject the input without a log line. -/
def predict (m : LoadedModel) (input : Value) (params : Option Params) : Logged Call :=
  match m.checkColumns input with
  | .error e => pure ⟨m.guard, none, .error (.invalidInput e)⟩
  | .ok _ =>
    m.guard.invoke input fun coerced => m.logic.invokeRaw (some m.context) coerced params

end LoadedModel

end TypedModel
