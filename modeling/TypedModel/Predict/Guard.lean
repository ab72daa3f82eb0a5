import TypedModel.Coercion.Basic
import TypedModel.Log.Logged
import TypedModel.Predict.Error
import TypedModel.Schema.OfHint
import TypedModel.Value.Display

/-!
# Guards

A guard holds what is checked around the calls of one predict function: its
input hint, its output hint, and whether the warning about an unsupported input
hint has been given. A call warns once, coerces the input, runs the body and
checks the output, whose mismatch is only logged.
-/

namespace TypedModel

/-- How the input of a call is treated. -/
inductive InputCheck where
  /-- Coerced to a hint. -/
  | validate (hint : TypeHint)
  /-- Taken as it is, as the hint says. -/
  | passThrough
  /-- Taken as it is, since the hint has no schema. -/
  | unsupported (error : SchemaError)
  /-- Taken as it is, since there is no hint. -/
  | absent

/-- The checks around one predict function. -/
structure Guard where
  /-- Name of the function in log lines. -/
  owner : String
  /-- How inputs are treated. -/
  input : InputCheck
  /-- Hint that outputs are checked against. -/
  output : Option TypeHint
  /-- Whether outputs are checked. -/
  validateOutputs : Bool
  /-- Whether the warning about the input hint has been given. -/
  warned : Bool

/-- A call of a body through a guard. -/
structure Call where
  /-- The guard after the call. -/
  guard : Guard
  /-- The value the body was given; none if it did not run. -/
  bodyInput : Option Value
  /-- The result. -/
  result : Except PredictError Value

namespace TypeHint

/-- Hints that outputs are checked against: those with a schema. -/
def isCheckable (h : TypeHint) : Bool := !h.isPassThrough && h.schemaError?.isNone

end TypeHint

namespace InputCheck

/-- The treatment that an input hint asks for. -/
def ofHint : Option TypeHint → InputCheck
  | none => .absent
  | some hint =>
    if hint.isPassThrough then .passThrough
    else
      match hint.schemaError? with
      | none => .validate hint
      | some e => .unsupported e

end InputCheck

namespace Guard

/-- The guard of a function's hints. -/
def ofHints (owner : String) (hints : TypeHints) : Guard where
  owner := owner
  input := .ofHint hints.input
  output := hints.output.filter TypeHint.isCheckable
  validateOutputs := true
  warned := false

/-- A guard whose warning counts as given. -/
def silent (owner : String) (hints : TypeHints) : Guard :=
  { ofHints owner hints with warned := true }

/-- The guard with output checks on or off. -/
def withOutputValidation (g : Guard) (enabled : Bool) : Guard :=
  { g with validateOutputs := enabled }

/-- Whether the input hint cannot be used. -/
def isUnsupported (g : Guard) : Bool :=
  match g.input with
  | .unsupported _ => true
  | _ => false

/-- Whether inputs are coerced. -/
def validatesInput (g : Guard) : Bool :=
  match g.input with
  | .validate _ => true
  | _ => false

/-- The warning about an unsupported input hint. -/
def unsupportedWarning (owner : String) (e : SchemaError) : LogLine :=
  .warning .typeHintUnsupported
    ("Type hint used in the model's predict function is not supported for model input " ++
      "validation, the input will not be validated. " ++ e.message)
    [("function", owner), ("hint", e.hint?.getD "")]

/-- Warns about an unsupported input hint unless that was done before. -/
def warnOnce (g : Guard) : Logged Guard :=
  match g.input with
  | .unsupported e =>
    if g.warned then pure g
    else do
      Logged.line (unsupportedWarning g.owner e)
      pure { g with warned := true }
  | _ => pure g

/-- Coerces an input; a rejection is logged. -/
def coerceInput (g : Guard) (input : Value) : Logged (Except PredictError Value) :=
  match g.input with
  | .validate hint =>
    match hint.coerce input with
    | .ok v => pure (.ok v)
    | .error e => do
      Logged.line
        (.ofEvent .predictInputRejected [("function", g.owner), ("message", e.message)])
      pure (.error (.invalidInput e))
  | _ => pure (.ok input)

/-- Whether an output fits its hint; a mismatch is logged. -/
def checkOutput (g : Guard) (output : Value) : Logged Bool :=
  match g.output.filter fun _ => g.validateOutputs with
  | none => pure true
  | some hint =>
    match hint.validate output with
    | .ok _ => pure true
    | .error e => do
      Logged.line (.warning .predictOutputMismatch
        ("Failed to validate output `" ++ output.display ++ "` against type hint `" ++
          hint.display ++ "`: " ++ e.message)
        [("function", g.owner)])
      pure false

/-- One call: warns once, coerces the input, runs the body, checks the output. The
output is what the body gave, whether it fits or not. -/
def invoke (g : Guard) (input : Value) (body : Value → Except PredictError Value) :
    Logged Call := do
  let g ← g.warnOnce
  match ← g.coerceInput input with
  | .error e => pure ⟨g, none, .error e⟩
  | .ok coerced =>
    match body coerced with
    | .error e => pure ⟨g, some coerced, .error e⟩
    | .ok output => do
      let _ ← g.checkOutput output
      pure ⟨g, some coerced, .ok output⟩

end Guard

end TypedModel
