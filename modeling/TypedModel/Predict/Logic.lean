import TypedModel.ModelId
import TypedModel.Predict.Guard

/-!
# Predict logic

A model's predict logic is a plain function with hints, such a function behind a
guard, or a class of models whose body also sees the context it is loaded in.
-/

namespace TypedModel

/-- Parameters passed beside the input. -/
abbrev Params := Entries Value

/-- What a class of models sees of its surroundings. -/
structure ModelContext where
  /-- Identifier of the model once it is loaded. -/
  modelId : Option ModelId
  /-- Paths of artifacts by name. -/
  artifacts : Entries String

namespace ModelContext

/-- The context of a model that is not loaded. -/
def empty : ModelContext := ⟨none, []⟩

/-- The context of a loaded model. -/
def ofModel (id : ModelId) : ModelContext := ⟨some id, []⟩

end ModelContext

/-- A plain function with hints. -/
structure Callable where
  /-- Name of the function. -/
  name : String
  /-- Hints it declares. -/
  hints : TypeHints
  /-- The function. -/
  call : Value → Option Params → Except PredictError Value

/-- A function behind a guard. -/
structure Decorated where
  /-- The function. -/
  callable : Callable
  /-- Its guard. -/
  guard : Guard

/-- A class of models. -/
structure ModelClass where
  /-- Name of the class. -/
  name : String
  /-- Hints it declares. -/
  hints : TypeHints
  /-- Its predict method. -/
  predict : Option ModelContext → Value → Option Params → Except PredictError Value

/-- Name of a class that does not give one. -/
def ModelClass.defaultName : String := "PythonModel"

/-- A class of models behind a guard. -/
structure ValidatedModel where
  /-- The class. -/
  model : ModelClass
  /-- Its guard. -/
  guard : Guard

/-- Puts a function behind a guard, which warns at once about an unsupported
input hint. -/
def Callable.decorate (c : Callable) : Logged Decorated := do
  let guard ← (Guard.ofHints c.name c.hints).warnOnce
  pure ⟨c, guard⟩

/-- A guarded call of a function. -/
def Decorated.predict (d : Decorated) (input : Value) (params : Option Params) : Logged Call :=
  d.guard.invoke input fun coerced => d.callable.call coerced params

/-- Puts a class behind a guard, which warns at once about an unsupported input
hint. -/
def ModelClass.validated (m : ModelClass) : Logged ValidatedModel := do
  let guard ← (Guard.ofHints m.name m.hints).warnOnce
  pure ⟨m, guard⟩

/-- A guarded call of a class. -/
def ValidatedModel.predict (m : ValidatedModel) (context : Option ModelContext) (input : Value)
    (params : Option Params) : Logged Call :=
  m.guard.invoke input fun coerced => m.model.predict context coerced params

/-- Predict logic of a model. -/
inductive ModelLogic where
  /-- A plain function: its hints describe it and check nothing. -/
  | callable (c : Callable)
  /-- A function behind a guard. -/
  | decorated (d : Decorated)
  /-- A class of models. -/
  | modelClass (m : ModelClass)

namespace ModelLogic

/-- Hints of the logic. -/
def hints : ModelLogic → TypeHints
  | .callable c => c.hints
  | .decorated d => d.callable.hints
  | .modelClass m => m.hints

/-- Name of the logic. -/
def name : ModelLogic → String
  | .callable c => c.name
  | .decorated d => d.callable.name
  | .modelClass m => m.name

/-- Whether the logic is a plain function. -/
def isUndecorated : ModelLogic → Bool
  | .callable _ => true
  | _ => false

/-- Runs the body without any check; only a class sees the context. -/
def invokeRaw (logic : ModelLogic) (context : Option ModelContext) (input : Value)
    (params : Option Params) : Except PredictError Value :=
  match logic with
  | .callable c => c.call input params
  | .decorated d => d.callable.call input params
  | .modelClass m => m.predict context input params

end ModelLogic

end TypedModel
