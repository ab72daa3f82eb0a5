import TypedModel.Text.Blank
import TypedModel.Text.Letter

/-!
# Tokens of a hint

A hint is written with names, brackets, commas and bars; blanks stand anywhere
between them. A name starts with a letter or an underscore and goes on with
letters, digits, underscores and points. Each token carries the offset in UTF-8
octets at which it starts.
-/

namespace TypedModel.Hint

/-- A token. -/
inductive Token where
  /-- A name. -/
  | name (s : String)
  /-- An opening bracket. -/
  | openBracket
  /-- A closing bracket. -/
  | closeBracket
  /-- A comma. -/
  | comma
  /-- A bar between members of a union. -/
  | bar
  /-- The end of the text. -/
  | endOfText
  deriving DecidableEq

/-- A token as error messages show it. -/
def Token.describe : Token → String
  | .name s => s!"'{s}'"
  | .openBracket => "'['"
  | .closeBracket => "']'"
  | .comma => "','"
  | .bar => "'|'"
  | .endOfText => "end of input"

/-- A token and the offset at which it starts. -/
structure Located where
  /-- The token. -/
  token : Token
  /-- Octets of the text in front of it. -/
  offset : Nat
  deriving DecidableEq

/-- What a hint's text was expected to go on with. -/
inductive Expectation where
  /-- A type name. -/
  | typeName
  /-- The end of a list of arguments. -/
  | closeBracket
  deriving DecidableEq

/-- An expectation as error messages show it. -/
def Expectation.describe : Expectation → String
  | .typeName => "a type name"
  | .closeBracket => "']'"

/-- Why a text is no hint. -/
inductive ParseError where
  /-- The text is blank. -/
  | empty
  /-- No token starts with this character. -/
  | unexpectedChar (c : Char) (offset : Nat)
  /-- A token stands where another was expected. -/
  | unexpectedToken (expected : Expectation) (found : Token) (offset : Nat)
  /-- A name has the wrong number of arguments. -/
  | wrongArity (name : String) (expected got : Nat)
  /-- The hint ends before the text. -/
  | trailingInput (offset : Nat)
  deriving DecidableEq

/-- Message of an error. -/
def ParseError.message : ParseError → String
  | .empty => "Empty type hint"
  | .unexpectedChar c offset => s!"Unexpected character '{c}' at position {offset}"
  | .unexpectedToken expected found offset =>
    s!"Expected {expected.describe} at position {offset}, found {found.describe}"
  | .wrongArity name expected got => s!"`{name}` takes {expected} type argument(s), got {got}"
  | .trailingInput offset => s!"Trailing input after type hint at position {offset}"

/-- Characters that start a name. -/
def startsName (c : Char) : Bool := Text.isLetter c || c == '_'

/-- Characters that continue a name. -/
def continuesName (c : Char) : Bool := Text.isLetterOrDigit c || c == '_' || c == '.'

/-- The token of a character that is one by itself. -/
def punctuation? : Char → Option Token
  | '[' => some .openBracket
  | ']' => some .closeBracket
  | ',' => some .comma
  | '|' => some .bar
  | _ => none

/-- A name while it is read: its offset, and its characters, last one first. -/
abbrev OpenName := Option (Nat × List Char)

/-- The token of a name that ends. -/
def finishName : OpenName → List Located
  | some (offset, cs) => [⟨.name (String.ofList cs.reverse), offset⟩]
  | none => []

/-- Tokens from an offset to the end of the text. -/
def scan : OpenName → Nat → List Char → Except ParseError (List Located)
  | word, offset, [] => .ok (finishName word ++ [⟨.endOfText, offset⟩])
  | word, offset, c :: rest =>
    let next := offset + c.utf8Size
    match word, continuesName c with
    | some (start, cs), true => scan (some (start, c :: cs)) next rest
    | _, _ =>
      if Text.isBlank c then (scan none next rest).map (finishName word ++ ·)
      else
        match punctuation? c with
        | some token => (scan none next rest).map (finishName word ++ ⟨token, offset⟩ :: ·)
        | none =>
          if startsName c then (scan (some (offset, [c])) next rest).map (finishName word ++ ·)
          else .error (.unexpectedChar c offset)

/-- Tokens of a text; the last one is its end. -/
def tokens (text : String) : Except ParseError (List Located) := scan none 0 text.toList

end TypedModel.Hint
