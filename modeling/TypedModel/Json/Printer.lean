import TypedModel.Json.Basic
import TypedModel.Double.Layout
import TypedModel.Text.Quoted

/-!
# Written documents

Two forms of the same document: compact, without any blank, and indented by two
blanks per level with an empty container on one line. Both keep the order of
fields.
-/

namespace TypedModel.Json

/-- Written number. A double that is no number has no form of its own and is
written as null. -/
def Number.render : Number → List Char
  | .int n => (if n < 0 then ['-'] else []) ++ Nat.toDigits 10 n.natAbs
  | .double (.finite negative rank) =>
    (Double.render .json (.finite negative rank)).toList
  | .double _ => "null".toList

/-- Entries with commas between them. -/
def joinComma : List (List Char) → List Char
  | [] => []
  | [entry] => entry
  | entry :: rest => entry ++ ',' :: joinComma rest

mutual

/-- The compact form. -/
def compact : Json → List Char
  | .null => "null".toList
  | .bool b => (if b then "true" else "false").toList
  | .number n => n.render
  | .string s => Text.quote .json s
  | .array items => '[' :: (joinComma (compactItems items) ++ [']'])
  | .object fields => '{' :: (joinComma (compactFields fields) ++ ['}'])
  | .flawed _ => "null".toList
termination_by structural j => j

/-- Compact items. -/
def compactItems : List Json → List (List Char)
  | [] => []
  | item :: rest => compact item :: compactItems rest
termination_by structural items => items

/-- Compact fields. -/
def compactFields : List (String × Json) → List (List Char)
  | [] => []
  | (name, value) :: rest =>
    (Text.quote .json name ++ ':' :: compact value) :: compactFields rest
termination_by structural fields => fields

end

/-- A line break and the blanks of a level. -/
def newline (level : Nat) : List Char := '\n' :: List.replicate (2 * level) ' '

/-- Entries of a container on lines of their own. -/
def block (opening closing : Char) (level : Nat) : List (List Char) → List Char
  | [] => [opening, closing]
  | entries =>
    opening :: (joinComma (entries.map (newline (level + 1) ++ ·)) ++ newline level ++ [closing])

mutual

/-- The indented form at a level. -/
def indented (level : Nat) : Json → List Char
  | .array items => block '[' ']' level (indentedItems (level + 1) items)
  | .object fields => block '{' '}' level (indentedFields (level + 1) fields)
  | .null => compact .null
  | .bool b => compact (.bool b)
  | .number n => compact (.number n)
  | .string s => compact (.string s)
  | .flawed flaw => compact (.flawed flaw)
termination_by structural j => j

/-- Indented items. -/
def indentedItems (level : Nat) : List Json → List (List Char)
  | [] => []
  | item :: rest => indented level item :: indentedItems level rest
termination_by structural items => items

/-- Indented fields. -/
def indentedFields (level : Nat) : List (String × Json) → List (List Char)
  | [] => []
  | (name, value) :: rest =>
    (Text.quote .json name ++ ':' :: ' ' :: indented level value) :: indentedFields level rest
termination_by structural fields => fields

end

/-- Compact text of a document. -/
def toText (j : Json) : String := String.ofList j.compact

/-- Indented text of a document. -/
def toIndentedText (j : Json) : String := String.ofList (j.indented 0)

end TypedModel.Json
