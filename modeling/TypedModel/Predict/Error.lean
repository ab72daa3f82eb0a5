import TypedModel.Schema.Error

/-!
# Errors of predict calls

A call fails because its input is rejected before the body runs, or because the
body says so.
-/

namespace TypedModel

/-- Why a call failed. -/
inductive PredictError where
  /-- The input does not fit. -/
  | invalidInput (error : SchemaError)
  /-- The predict body failed. -/
  | predict (message : String)
  deriving DecidableEq

namespace PredictError

/-- Message of an error by itself. -/
def message : PredictError → String
  | .invalidInput e => e.message
  | .predict message => message

/-- Text of an error with its origin. -/
def display : PredictError → String
  | .invalidInput e => e.display
  | .predict message => s!"Predict failed: {message}"

/-- The schema error of a rejected input. -/
def schemaError? : PredictError → Option SchemaError
  | .invalidInput e => some e
  | .predict _ => none

end PredictError

end TypedModel
