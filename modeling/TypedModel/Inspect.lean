import TypedModel.Predict.Logic
import TypedModel.Text.Visible
import TypedModel.Time.Rfc3339

/-!
# Structure dumps

Dumps show predict logic with its hints and its guard for people who look for a
fault. A structure is its name and its fields in braces, a case is its name and
its arguments in parentheses, and texts are quoted.
-/

namespace TypedModel.Inspect

/-- Entries between two marks, with commas between them. -/
def between (opening closing : String) (entries : List String) : String :=
  opening ++ String.intercalate ", " entries ++ closing

/-- A structure with its fields. -/
def node (name : String) (fields : List (String × String)) : String :=
  between (name ++ " \x7b ") " \x7d" (fields.map fun f => f.1 ++ ": " ++ f.2)

/-- A case with its arguments. -/
def variant (name : String) (args : List String) : String := between (name ++ "(") ")" args

/-- A list. -/
def list (items : List String) : String := between "[" "]" items

/-- An optional value. -/
def option : Option String → String
  | some text => variant "Some" [text]
  | none => "None"

/-- A truth value. -/
def bool (b : Bool) : String := if b then "true" else "false"

/-- Lower-case hexadecimal digits of a number, without leading zeros. -/
def hex (n : Nat) : String := String.ofList (Nat.toDigits 16 n)

/-- A character of a quoted text. Characters that no reader could see on their own,
such as controls and combining marks, are shown by their code. -/
def escapeChar (c : Char) : String :=
  match c with
  | '"' => "\\\""
  | '\\' => "\\\\"
  | '\n' => "\\n"
  | '\r' => "\\r"
  | '\t' => "\\t"
  | '\x00' => "\\0"
  | c =>
    if Text.isVisible c then String.singleton c else "\\u\x7b" ++ hex c.toNat ++ "\x7d"

/-- A quoted text. -/
def text (s : String) : String := "\"" ++ String.join (s.toList.map escapeChar) ++ "\""

mutual

/-- A value. -/
def value : Value → String
  | .null => "Null"
  | .bool b => variant "Bool" [bool b]
  | .long n => variant "Long" [toString n.toInt]
  | .double x => variant "Double" [x.render .display]
  | .str s => variant "Str" [text s]
  | .bytes octets => variant "Bytes" [list (octets.map fun b => toString b.toNat)]
  | .datetime t => variant "Datetime" [Time.render "Z" t]
  | .list items => variant "List" [list (values items)]
  | .map entries => variant "Map" [between "\x7b" "\x7d" (namedValues ": " entries)]
  | .record ⟨name, fields⟩ =>
    let fields := (namedValues ", " fields).map fun f => "(" ++ f ++ ")"
    variant "Record" [node "Record" [("name", text name), ("fields", list fields)]]
  | .frame ⟨columns, rows⟩ =>
    variant "Frame"
      [node "Frame" [("columns", list (columns.map text)), ("rows", list (valueRows rows))]]
termination_by structural v => v

/-- Values in order. -/
def values : List Value → List String
  | [] => []
  | v :: rest => value v :: values rest
termination_by structural vs => vs

/-- Named values in order, a mark between name and value. -/
def namedValues (mark : String) : List (String × Value) → List String
  | [] => []
  | (name, v) :: rest => (text name ++ mark ++ value v) :: namedValues mark rest
termination_by structural entries => entries

/-- Rows in order. -/
def valueRows : List (List Value) → List String
  | [] => []
  | row :: rest => list (values row) :: valueRows rest
termination_by structural rows => rows

end

/-- A scalar kind. -/
def scalarKind : ScalarKind → String
  | .int => "Int"
  | .str => "Str"
  | .bool => "Bool"
  | .float => "Float"
  | .bytes => "Bytes"
  | .datetime => "Datetime"

mutual

/-- A hint. -/
def hint : TypeHint → String
  | .scalar kind => variant "Scalar" [scalarKind kind]
  | .none => "NoneType"
  | .any => "Any"
  | .list element => variant "List" [hint element]
  | .dict key element => node "Dict" [("key", hint key), ("value", hint element)]
  | .union members => variant "Union" [list (hints members)]
  | .record ⟨name, fields⟩ =>
    variant "Record"
      [node "RecordDef" [("name", text name), ("fields", list (fieldSpecs fields))]]
  | .frame => "DataFrame"
  | .foreign name => variant "Opaque" [text name]
termination_by structural h => h

/-- Hints in order. -/
def hints : List TypeHint → List String
  | [] => []
  | h :: rest => hint h :: hints rest
termination_by structural hs => hs

/-- Fields of a record definition in order. -/
def fieldSpecs : List FieldSpec → List String
  | [] => []
  | ⟨name, h, default?⟩ :: rest =>
    node "FieldSpec"
      [("name", text name), ("hint", hint h), ("default", option (default?.map value))] ::
      fieldSpecs rest
termination_by structural fields => fields

end

/-- The hints of a function. -/
def typeHints (h : TypeHints) : String :=
  node "TypeHints"
    [("input", option (h.input.map hint)), ("output", option (h.output.map hint))]

/-- Details of a value that does not fit. -/
def details (d : ValidationDetails) : String :=
  node "ValidationDetails"
    [("field", text d.field), ("expected", text d.expected), ("actual", text d.actual)]

/-- Name of the case of a schema error. -/
def errorCase : SchemaError → String
  | .invalidInput _ => "InvalidInput"
  | .unsupportedHint _ _ => "UnsupportedTypeHint"
  | .inferenceFailed _ => "InferenceFailed"

/-- A schema error. -/
def schemaError (e : SchemaError) : String :=
  node "SchemaError"
    [("code", errorCase e), ("message", text e.message), ("hint", option (e.hint?.map text)),
      ("details", option (e.details?.map details))]

/-- The treatment of inputs. -/
def inputCheck : InputCheck → String
  | .validate h => variant "Validate" [hint h]
  | .passThrough => "PassThrough"
  | .unsupported e => variant "Unsupported" [schemaError e]
  | .absent => "Absent"

/-- A guard. -/
def guard (g : Guard) : String :=
  node "HintGuard"
    [("owner", text g.owner), ("input", inputCheck g.input),
      ("output", option (g.output.map hint)), ("validate_outputs", bool g.validateOutputs),
      ("warned", bool g.warned)]

/-- A plain function; what it does is not shown. -/
def callable (c : Callable) : String :=
  between "TypedCallable \x7b " " \x7d"
    ["name: " ++ text c.name, "hints: " ++ typeHints c.hints, ".."]

/-- A function behind a guard. -/
def decorated (d : Decorated) : String :=
  node "Pyfunc" [("callable", callable d.callable), ("guard", guard d.guard)]

/-- A class of models behind a guard. -/
def validatedModel (m : ValidatedModel) : String :=
  node "ValidatedModel" [("model", text m.model.name), ("guard", guard m.guard)]

/-- Predict logic by its form and name. -/
def logic (l : ModelLogic) : String :=
  let form := match l with
    | .callable _ => "Callable"
    | .decorated _ => "Decorated"
    | .modelClass _ => "Class"
  "ModelLogic::" ++ variant form [l.name]

end TypedModel.Inspect
