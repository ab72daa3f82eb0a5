import TypedModel.Predict.Logic
import TypedModel.Schema.OfExample

/-!
# Signature inference

The signature of a model being saved: one that is given stands as it is,
otherwise it comes from the hints, or from the input example where the input
hint is absent, a frame, or without a schema. A function that declares only its
output has none. Whatever goes wrong is a warning; saving goes on.
-/

namespace TypedModel

namespace ModelLogic

/-- The signature of an example: the schemas of the example and of what the body
makes of it, the latter only where it succeeds. -/
def signatureOfExample (logic : ModelLogic) (given : Value) : Except String ModelSignature :=
  match given.schema with
  | .error e =>
    .error s!"Inferring model signature from input example failure: {e.message}"
  | .ok inputs =>
    let outputs :=
      match logic.invokeRaw none given none with
      | .ok output => output.schema.toOption
      | .error _ => none
    .ok (.ofSchemas (some inputs) outputs)

/-- The signature of an optional example; `failed` is the warning for an example
without a schema. -/
def signatureOfExample? (logic : ModelLogic) (given : Option Value)
    (failed : String → LogLine) : Logged (Option ModelSignature) :=
  match given with
  | none => pure none
  | some given =>
    match logic.signatureOfExample given with
    | .ok signature => pure (some signature)
    | .error reason => do
      Logged.line (failed reason)
      pure none

/-- The warning that no signature could be inferred. -/
def signatureFailed (logic : ModelLogic) (reason : String) : LogLine :=
  .warning .signatureFailed reason [("function", logic.name)]

/-- The warning that a hint gives no signature. -/
def passThroughFailed (hint : TypeHint) (reason : String) : LogLine :=
  .warning .signatureFailed
    ("Type hint `" ++ hint.display ++ "` cannot be used to infer model signature. " ++ reason)
    [("hint", hint.display)]

/-- The output schema after the body has run on the coerced example: that of the
output hint, or anything where the output does not fit it. -/
def outputOfRun (logic : ModelLogic) (hint : TypeHint) (outputs : Schema) (coerced : Value) :
    Logged Schema :=
  match logic.invokeRaw none coerced none with
  | .error e => do
    Logged.line (logic.signatureFailed
      s!"Failed to run predict on the input example: {e.message}")
    pure outputs
  | .ok output =>
    match hint.validate output with
    | .ok _ => pure outputs
    | .error e => do
      Logged.line (.warning .predictOutputMismatch
        ("Failed to validate output `" ++ output.display ++ "` against type hint `" ++
          hint.display ++ "`, setting output schema to Any. Error: " ++ e.message)
        [("function", logic.name)])
      pure .any

/-- The signature of an input hint with the schema `inputs`. An example is tried
out: it has to fit the input hint, and what the body makes of it the output
hint. -/
def signatureOfHints (logic : ModelLogic) (inputHint : TypeHint) (inputs : Schema)
    (given : Option Value) : Logged ModelSignature := do
  let outputHint := logic.hints.output.filter TypeHint.isCheckable
  let outputs :=
    match outputHint.bind fun hint => hint.schema.toOption with
    | some schema => schema
    | none => .any
  match given with
  | none => pure (.ofHints inputs outputs)
  | some given =>
    match inputHint.coerce given with
    | .error e => do
      Logged.line (.warning .inputExampleIncompatible
        ("Input example is not compatible with the type hint of the `predict` function. " ++
          "Error: " ++ e.message)
        [("function", logic.name)])
      pure (.ofHints inputs outputs)
    | .ok coerced =>
      match outputHint with
      | none => pure (.ofHints inputs outputs)
      | some hint => do
        let outputs ← logic.outputOfRun hint outputs coerced
        pure (.ofHints inputs outputs)

/-- The advice to decorate a plain function. -/
def undecoratedAdvice (logic : ModelLogic) : LogLine :=
  .warning .undecoratedCallable
    ("Decorate your function with `@pyfunc` to enable validation of the model input " ++
      "against the type hints of the `predict` function.")
    [("function", logic.name)]

/-- The signature of logic whose input hint is given. -/
def signatureOfInputHint (logic : ModelLogic) (hint : TypeHint) (given : Option Value)
    (warnUndecorated : Bool) : Logged (Option ModelSignature) :=
  if hint.isPassThrough then
    match given with
    | none => do
      Logged.line (passThroughFailed hint
        "Input example is not provided, model signature cannot be inferred.")
      pure none
    | some _ => logic.signatureOfExample? given (passThroughFailed hint)
  else
    match hint.schema with
    | .error e => do
      let message :=
        if given.isSome then
          e.message ++ " Inferring model signature from the input example instead."
        else e.message
      Logged.line (.warning .typeHintUnsupported message
        [("function", logic.name), ("hint", hint.display)])
      logic.signatureOfExample? given logic.signatureFailed
    | .ok inputs => do
      if warnUndecorated && logic.isUndecorated then
        Logged.line logic.undecoratedAdvice
      let signature ← logic.signatureOfHints hint inputs given
      pure (some signature)

/-- The signature that is saved with a model. -/
def inferSignature (logic : ModelLogic) (given : Option Value)
    (signature : Option ModelSignature) (warnUndecorated : Bool) :
    Logged (Option ModelSignature) :=
  match signature with
  | some signature => pure (some signature)
  | none =>
    match logic.hints.input, logic.hints.output with
    | some hint, _ => logic.signatureOfInputHint hint given warnUndecorated
    | none, some output => do
      Logged.line (.warning .signatureSkipped
        ("Only the return type of `" ++ logic.name ++ "` is annotated (`" ++ output.display ++
          "`), model signature inference from type hints is skipped.")
        [("function", logic.name)])
      pure none
    | none, none => logic.signatureOfExample? given logic.signatureFailed

end ModelLogic

end TypedModel
