import TypedModel.Value.Basic
import TypedModel.Double.Layout
import TypedModel.Time.Rfc3339

/-!
# Displayed values

The text of a value in messages: texts in single quotes without escapes, octets
by their number, frames by their size, everything else written out.
-/

namespace TypedModel.Value

mutual

/-- Text of a value in messages. -/
def display : Value → String
  | .null => "None"
  | .bool b => if b then "True" else "False"
  | .long n => toString n.toInt
  | .double x => x.render .display
  | .str s => s!"'{s}'"
  | .bytes octets => s!"<{octets.length} bytes>"
  | .datetime t => Time.render "+00:00" t
  | .list items => "[" ++ String.intercalate ", " (displayItems items) ++ "]"
  | .map entries =>
    "\x7b" ++ String.intercalate ", " (displayEntries (fun key => s!"'{key}': ") entries) ++ "\x7d"
  | .record ⟨name, fields⟩ =>
    name ++ "(" ++ String.intercalate ", " (displayEntries (fun key => s!"{key}=") fields) ++ ")"
  | .frame ⟨columns, rows⟩ => s!"DataFrame({columns.length} columns, {rows.length} rows)"
termination_by structural v => v

/-- Texts of items. -/
def displayItems : List Value → List String
  | [] => []
  | item :: rest => display item :: displayItems rest
termination_by structural items => items

/-- Texts of named values, each behind the text made of its name. -/
def displayEntries (label : String → String) : List (String × Value) → List String
  | [] => []
  | (name, value) :: rest => (label name ++ display value) :: displayEntries label rest
termination_by structural entries => entries

end

end TypedModel.Value
