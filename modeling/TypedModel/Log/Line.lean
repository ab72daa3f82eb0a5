import TypedModel.Entries
import TypedModel.Json.Decoder
import TypedModel.Log.Event
import TypedModel.Text.Blank
import TypedModel.Text.Quoted

/-!
# Log lines

A log line is an event with a severity and fields. It is written as one JSON
object on one line: event, severity, then the fields sorted by name, so that the
order in which fields are passed does not show. Reading a line back gives its
event, its severity and a map of the other fields; of fields with one name the
last stays, also where a field has the name of the event or the severity. A
capture reads its lines back from their texts.
-/

namespace TypedModel

/-- An event with a severity and fields. -/
structure LogLine where
  /-- Severity. -/
  severity : Severity
  /-- Written event. -/
  event : String
  /-- Fields in the order in which they were passed. -/
  fields : List (String × String)
  deriving DecidableEq

namespace LogLine

/-- The line of an event at its severity. -/
def ofEvent (e : Event) (fields : List (String × String)) : LogLine :=
  ⟨e.severity, e.name, fields⟩

/-- The warning of an event with a message. -/
def warning (e : Event) (message : String) (fields : List (String × String)) : LogLine :=
  ⟨.warn, e.name, ("message", message) :: fields⟩

/-- Fields sorted by name; fields with one name keep their order. -/
def sortedFields (l : LogLine) : List (String × String) :=
  l.fields.mergeSort fun a b => !decide (b.1 < a.1)

/-- Fields of the written line in order. -/
def writtenFields (l : LogLine) : List (String × String) :=
  ("event", l.event) :: ("severity", l.severity.name) :: l.sortedFields

/-- A field as it is written. -/
def renderField (f : String × String) : List Char :=
  Text.quote .log f.1 ++ ':' :: Text.quote .log f.2

/-- Written fields with commas between them. -/
def renderFields : List (String × String) → List Char
  | [] => []
  | [f] => renderField f
  | f :: rest => renderField f ++ ',' :: renderFields rest

/-- The written line with its line break. -/
def render (l : LogLine) : String :=
  String.ofList ('{' :: (renderFields l.writtenFields ++ ['}', '\n']))

end LogLine

/-- A line read back. -/
structure CapturedLine where
  /-- Written event. -/
  event : String
  /-- Written severity. -/
  severity : String
  /-- The other fields. -/
  fields : Entries String
  deriving DecidableEq

namespace CapturedLine

/-- The fields of a text: an object of strings, of those with one name the last. -/
def fieldsDecoder : Decoder (Entries String)
  | .object fields =>
    (fields.mapM fun f => (Decoder.string f.2).map fun value => (f.1, value)).map Entries.ofList
  | _ => .error .malformed

/-- The line of a text, blanks at its end aside; none where the text is no object of
strings, or one without event or severity. -/
def parse? (text : String) : Option CapturedLine := do
  let fields ← (Decoder.ofText fieldsDecoder (Text.trimEnd text)).toOption
  let event ← fields.get? "event"
  let severity ← fields.get? "severity"
  some ⟨event, severity, (fields.erase "event").erase "severity"⟩

/-- What a capture gives of the lines it holds: each is read back from its text, and
one that cannot be read is left out. -/
def readBack (lines : List LogLine) : List CapturedLine :=
  lines.filterMap fun l => parse? l.render

/-- The message field, or nothing. -/
def message (l : CapturedLine) : String := (l.fields.get? "message").getD ""

/-- Whether the line reads as a warning. -/
def isWarning (l : CapturedLine) : Bool := l.severity == Severity.warn.name

end CapturedLine

end TypedModel
