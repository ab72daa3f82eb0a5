import TypedModel.Coercion.Basic
import TypedModel.Hint.Parser
import TypedModel.Inspect
import TypedModel.Log.Capture
import TypedModel.Predict.Signature
import TypedModel.Store.Basic
import TypedModel.Hint.Json
import TypedModel.Proofs.Coercion.Conforms
import TypedModel.Proofs.Double.Rounding
import TypedModel.Proofs.Double.Shortest
import TypedModel.Proofs.Json.Literal
import TypedModel.Proofs.Json.Nesting
import TypedModel.Proofs.Json.Reads
import TypedModel.Proofs.ModelId
import TypedModel.Proofs.Schema.RoundTrip
import TypedModel.Proofs.Store.Disk
import TypedModel.Proofs.Store.Manifest
import TypedModel.Proofs.Predict.Agreement
import TypedModel.Proofs.Schema.Fits
import TypedModel.Proofs.Coercion.Idempotent
import TypedModel.Proofs.Coercion.Rejection
import TypedModel.Proofs.Coercion.Message
import TypedModel.Proofs.Schema.Inference
import TypedModel.Proofs.Schema.Example
import TypedModel.Proofs.Schema.Omission
import TypedModel.Proofs.Predict.Diagnosis
import TypedModel.Proofs.Predict.Origin
import TypedModel.Proofs.Hint.Grammar
import TypedModel.Proofs.Hint.Reader
import TypedModel.Proofs.Hint.Printing
import TypedModel.Proofs.Predict.Rejection
import TypedModel.Proofs.Predict.Warning
import TypedModel.Proofs.Log.Capture
import TypedModel.Proofs.Log.RoundTrip
import TypedModel.Proofs.Store.Chronicle
import TypedModel.Proofs.Coercion.Preservation
import TypedModel.Proofs.Double.Nearest
import TypedModel.Proofs.Schema.Supported
import TypedModel.Proofs.Hint.Position
import TypedModel.Proofs.Value.Record
import TypedModel.Proofs.Value.Decoded
import TypedModel.Proofs.Json.Distinct
import TypedModel.Proofs.Predict.Independence
import TypedModel.Proofs.Store.Payload
import TypedModel.Proofs.ModelId.Spelling
import TypedModel.Proofs.Store.Address
import TypedModel.Proofs.Hint.Names
import TypedModel.Proofs.Log.Order
import TypedModel.Proofs.Hint.Normal
