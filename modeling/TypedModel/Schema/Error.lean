/-!
# Schema errors

An input that does not fit its hint rejects the call. A hint without a schema
and an example without one are reported as warnings by those who meet them.
-/

namespace TypedModel

/-- What an error leads to. -/
inductive SchemaSeverity where
  /-- The call is rejected before the predict body runs. -/
  | reject
  /-- A warning is logged. -/
  | warn
  deriving DecidableEq

/-- Written severity. -/
def SchemaSeverity.display : SchemaSeverity → String
  | .reject => "REJECT"
  | .warn => "WARN"

/-- Where and how a value does not fit. -/
structure ValidationDetails where
  /-- Path of the value within the input; empty for the input itself. -/
  field : String
  /-- What was expected there. -/
  expected : String
  /-- What was found there. -/
  actual : String
  deriving DecidableEq

/-- Details of a field that is not given. -/
def ValidationDetails.missingField (field : String) : ValidationDetails :=
  ⟨field, "field to be present", "missing"⟩

/-- Text of the details. Whatever is found under the name `missing` counts as a
field that is not given. -/
def ValidationDetails.display (d : ValidationDetails) : String :=
  if d.actual = "missing" then s!"Missing required field `{d.field}`"
  else
    let place := if d.field = "" then "" else s!"Invalid value for `{d.field}`: "
    place ++ s!"Expected {d.expected}, but got {d.actual}"

/-- A schema error. -/
inductive SchemaError where
  /-- A value does not fit its hint. -/
  | invalidInput (details : ValidationDetails)
  /-- A hint, given by its text, has no schema. -/
  | unsupportedHint (hint : String) (reason : String)
  /-- An example has no schema. -/
  | inferenceFailed (reason : String)
  deriving DecidableEq

namespace SchemaError

/-- Code of an error. -/
def code : SchemaError → String
  | .invalidInput _ => "HINTSIG_INVALID_INPUT"
  | .unsupportedHint _ _ => "HINTSIG_UNSUPPORTED_TYPE_HINT"
  | .inferenceFailed _ => "HINTSIG_SIGNATURE_INFERENCE_FAILED"

/-- Severity of an error: only a value that does not fit rejects. -/
def severity : SchemaError → SchemaSeverity
  | .invalidInput _ => .reject
  | _ => .warn

/-- Message of an error. -/
def message : SchemaError → String
  | .invalidInput details => details.display
  | .unsupportedHint hint reason => s!"Unsupported type hint `{hint}`: {reason}"
  | .inferenceFailed reason => reason

/-- The text of the hint an error is about. -/
def hint? : SchemaError → Option String
  | .unsupportedHint hint _ => some hint
  | _ => none

/-- Details of a value that does not fit. -/
def details? : SchemaError → Option ValidationDetails
  | .invalidInput details => some details
  | _ => none

/-- Whether the call is rejected. -/
def isReject (e : SchemaError) : Bool := decide (e.severity = .reject)

/-- Text of an error with severity and code. -/
def display (e : SchemaError) : String :=
  s!"[{e.severity.display}] {e.code}: {e.message}"

end SchemaError

end TypedModel
