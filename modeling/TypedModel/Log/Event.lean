/-!
# Events

The things that are logged while hints are read, signatures inferred, calls
served and models stored. Each event is reported at one of two severities.
-/

namespace TypedModel

/-- Severities of log lines, in ascending order. -/
inductive Severity where
  /-- Detail. -/
  | trace
  /-- Normal operation. -/
  | info
  /-- Something that the program can go on with. -/
  | warn
  /-- A failed operation. -/
  | error
  deriving DecidableEq

/-- Written severity. -/
def Severity.name : Severity → String
  | .trace => "TRACE"
  | .info => "INFO"
  | .warn => "WARN"
  | .error => "ERROR"

/-- Things that are logged. -/
inductive Event where
  /-- A hint has no schema. -/
  | typeHintUnsupported
  /-- An input does not fit its hint. -/
  | predictInputRejected
  /-- An output does not fit its hint. -/
  | predictOutputMismatch
  /-- An input example does not fit the input hint. -/
  | inputExampleIncompatible
  /-- A signature was attached to a model. -/
  | signatureInferred
  /-- Signature inference was skipped on purpose. -/
  | signatureSkipped
  /-- A signature could not be inferred. -/
  | signatureFailed
  /-- A plain function is saved without the validating decorator. -/
  | undecoratedCallable
  /-- A model was written. -/
  | modelSaved
  /-- A model was read back. -/
  | modelLoaded
  /-- A model was removed. -/
  | modelDeleted
  /-- A configuration was read. -/
  | configLoaded
  deriving DecidableEq

namespace Event

/-- Written event. -/
def name : Event → String
  | .typeHintUnsupported => "TYPE_HINT_UNSUPPORTED"
  | .predictInputRejected => "PREDICT_INPUT_REJECTED"
  | .predictOutputMismatch => "PREDICT_OUTPUT_MISMATCH"
  | .inputExampleIncompatible => "INPUT_EXAMPLE_INCOMPATIBLE"
  | .signatureInferred => "SIGNATURE_INFERRED"
  | .signatureSkipped => "SIGNATURE_INFERENCE_SKIPPED"
  | .signatureFailed => "SIGNATURE_INFERENCE_FAILED"
  | .undecoratedCallable => "UNDECORATED_CALLABLE"
  | .modelSaved => "MODEL_SAVED"
  | .modelLoaded => "MODEL_LOADED"
  | .modelDeleted => "MODEL_DELETED"
  | .configLoaded => "CONFIG_LOADED"

/-- Whether an event is reported as a warning. -/
def isWarning : Event → Bool
  | .typeHintUnsupported | .predictOutputMismatch | .inputExampleIncompatible
  | .signatureSkipped | .signatureFailed | .undecoratedCallable => true
  | _ => false

/-- Severity at which an event is reported. -/
def severity (e : Event) : Severity := if e.isWarning then .warn else .info

end Event

end TypedModel
