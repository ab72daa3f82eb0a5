import TypedModel.Json.Basic
import TypedModel.Text.Hex

/-!
# Tokens of a document

The scanner reads a text character by character: between tokens, inside a
string, or inside a word (a number or one of the three names). It never fails;
the first character that no token can hold becomes the token `bad`, and nothing
behind it is read.
-/

namespace TypedModel.Json

/-- A token. -/
inductive Token where
  /-- Start of an array. -/
  | openArray
  /-- End of an array. -/
  | closeArray
  /-- Start of an object. -/
  | openObject
  /-- End of an object. -/
  | closeObject
  /-- Between items or fields. -/
  | comma
  /-- Between a field's name and value. -/
  | colon
  /-- A string; none if it holds half of a surrogate pair. -/
  | text (s : Option String)
  /-- A number or one of the three names. -/
  | scalar (value : Json)
  /-- The text stops being a document. -/
  | bad
  deriving Inhabited

/-- Blanks between tokens. -/
def isSpace (c : Char) : Bool := c == ' ' || c == '\n' || c == '\t' || c == '\r'

/-- Characters that continue a number or a name. -/
def isWordChar (c : Char) : Bool :=
  c.isAlphanum || c == '+' || c == '-' || c == '.'

/-! ## Numbers -/

/-- The parts of a written number. -/
structure Literal where
  /-- Whether a minus sign stands in front. -/
  negative : Bool
  /-- Digits before the point. -/
  whole : List Char
  /-- Digits behind the point; none without a point. -/
  fraction : Option (List Char)
  /-- Sign and digits of the exponent; none without one. -/
  exponent : Option (Bool × List Char)
  deriving DecidableEq

/-- Digits at the front of a text and what follows them. -/
def spanDigits (cs : List Char) : List Char × List Char :=
  (cs.takeWhile Char.isDigit, cs.dropWhile Char.isDigit)

/-- The exponent part, up to the end of the word. -/
def Literal.exponentOf? : List Char → Option (Option (Bool × List Char))
  | [] => some none
  | e :: rest =>
    if e = 'e' ∨ e = 'E' then
      let (negative, digits) :=
        match rest with
        | '-' :: digits => (true, digits)
        | '+' :: digits => (false, digits)
        | digits => (false, digits)
      if digits ≠ [] ∧ digits.all Char.isDigit then some (some (negative, digits)) else none
    else none

/-- The parts of a number: no plus sign, no leading zero, digits on both sides
of the point, digits in the exponent. -/
def Literal.ofChars? (cs : List Char) : Option Literal := do
  let (negative, cs) :=
    match cs with
    | '-' :: rest => (true, rest)
    | _ => (false, cs)
  let (whole, cs) := spanDigits cs
  if whole = [] ∨ (whole.head? = some '0' ∧ 1 < whole.length) then none
  else
    match cs with
    | '.' :: rest =>
      let (fraction, rest) := spanDigits rest
      if fraction = [] then none
      else (exponentOf? rest).map fun e => ⟨negative, whole, some fraction, e⟩
    | rest => (exponentOf? rest).map fun e => ⟨negative, whole, none, e⟩

/-- Value of a digit string. -/
def digitsToNat (digits : List Char) : Nat :=
  digits.foldl (fun n c => 10 * n + (c.toNat - 48)) 0

/-- How many digits a number is read by. The midpoint of two neighbouring doubles
has no more of them, so further digits only say on which side a number lies. -/
def digitLimit : Nat := 768

/-- Digits and exponent of a number of any length. Zeros in front of the digits and at
the end of the fraction do not count. Digits beyond the limit stand for a single one,
even where they are zeros in front of the point: such a number is taken to lie above
the midpoint that its first digits may be. -/
def condensed (whole fraction : List Char) (exponent : Int) : Nat × Int :=
  let fraction := (fraction.reverse.dropWhile (· == '0')).reverse
  let digits := (whole ++ fraction).dropWhile (· == '0')
  let exponent := exponent - fraction.length
  if digits.length ≤ digitLimit then (digitsToNat digits, exponent)
  else
    (10 * digitsToNat (digits.take digitLimit) + 1,
      exponent + (digits.length - (digitLimit + 1) : Nat))

/-- The nearest double of a literal. -/
def Literal.toDouble (l : Literal) : Double :=
  let fraction := l.fraction.getD []
  let exponent : Int :=
    match l.exponent with
    | some (true, digits) => -(digitsToNat digits : Int)
    | some (false, digits) => digitsToNat digits
    | none => 0
  if l.whole.length + fraction.length ≤ digitLimit then
    Double.ofDecimal l.negative (digitsToNat (l.whole ++ fraction)) (exponent - fraction.length)
  else
    let (digits, exponent) := condensed l.whole fraction exponent
    Double.ofDecimal l.negative digits exponent

/-- Value of a literal: an integer where it is written as one in range, minus
zero excepted; else the nearest double, and none where that is infinite. -/
def Literal.toJson (l : Literal) : Json :=
  let n : Int := digitsToNat l.whole
  let isInt :=
    if l.negative then 0 < n && n ≤ 0x8000000000000000 else n < 0x10000000000000000
  if l.fraction.isNone && l.exponent.isNone && isInt then
    ofInt (if l.negative then -n else n)
  else
    match l.toDouble with
    | .infinite _ => .flawed .outOfRange
    | x => .number (.double x)

/-- The token of a finished word. -/
def Token.ofWord (cs : List Char) : Token :=
  match String.ofList cs with
  | "null" => .scalar .null
  | "true" => .scalar (.bool true)
  | "false" => .scalar (.bool false)
  | _ =>
    match Literal.ofChars? cs with
    | some l => .scalar l.toJson
    | none => .bad

/-! ## Strings -/

/-- What stands before the next character inside a string. -/
inductive Escape where
  /-- Nothing special. -/
  | plain
  /-- A backslash. -/
  | backslash
  /-- A backslash and `u` with some of its four digits, and their value. -/
  | digits (count value : Nat)
  deriving DecidableEq

/-- A string while it is read. -/
structure Unfinished where
  /-- Characters read, last one first. -/
  chars : List Char
  /-- First half of a surrogate pair whose second half has to follow. -/
  half : Option Nat
  /-- Whether every surrogate so far found its other half. -/
  paired : Bool
  /-- What stands before the next character. -/
  escape : Escape

namespace Unfinished

/-- The string before its first character. -/
def start : Unfinished := ⟨[], none, true, .plain⟩

/-- A character is added. A first half in front of it stays alone. -/
def push (u : Unfinished) (c : Char) : Unfinished :=
  ⟨c :: u.chars, none, u.paired && u.half.isNone, .plain⟩

/-- A code of four digits is added: a character, or half of a pair. -/
def pushCode (u : Unfinished) (code : Nat) : Unfinished :=
  if 0xD800 ≤ code ∧ code < 0xDC00 then
    ⟨u.chars, some code, u.paired && u.half.isNone, .plain⟩
  else if 0xDC00 ≤ code ∧ code < 0xE000 then
    match u.half with
    | some first =>
      let c := Char.ofNat (0x10000 + (first - 0xD800) * 0x400 + (code - 0xDC00))
      ⟨c :: u.chars, none, u.paired, .plain⟩
    | none => ⟨u.chars, none, false, .plain⟩
  else u.push (Char.ofNat code)

/-- The string, if no half of a surrogate pair stands alone. -/
def finish (u : Unfinished) : Option String :=
  if u.paired && u.half.isNone then some (String.ofList u.chars.reverse) else none

/-- Character of a letter escape. -/
def letter? (c : Char) : Option Char :=
  [('"', '"'), ('\\', '\\'), ('/', '/'), ('b', '\x08'), ('f', '\x0c'), ('n', '\n'),
    ('r', '\r'), ('t', '\t')].lookup c

/-- The next character of the string; none where it may not stand there. -/
def step (u : Unfinished) (c : Char) : Option Unfinished :=
  match u.escape with
  | .plain =>
    if c = '\\' then some { u with escape := .backslash }
    else if c.toNat < 0x20 then none
    else some (u.push c)
  | .backslash =>
    if c = 'u' then some { u with escape := .digits 0 0 }
    else (letter? c).map u.push
  | .digits count value =>
    (Text.hexValue? c).map fun digit =>
      let code := value * 16 + digit
      if count = 3 then u.pushCode code else { u with escape := .digits (count + 1) code }

end Unfinished

/-! ## The scanner -/

/-- Where the scanner is. -/
inductive Place where
  /-- Between tokens. -/
  | between
  /-- Inside a string. -/
  | inText (u : Unfinished)
  /-- Inside a word, its characters last one first. -/
  | inWord (cs : List Char)

/-- What a character does between tokens: the tokens it completes, and the place
behind it; none where no token starts with it. -/
def startToken (c : Char) : Option (List Token × Place) :=
  match c with
  | '[' => some ([.openArray], .between)
  | ']' => some ([.closeArray], .between)
  | '{' => some ([.openObject], .between)
  | '}' => some ([.closeObject], .between)
  | ',' => some ([.comma], .between)
  | ':' => some ([.colon], .between)
  | '"' => some ([], .inText .start)
  | c =>
    if isSpace c then some ([], .between)
    else if isWordChar c then some ([], .inWord [c])
    else none

/-- Tokens from a place to the end of the text. -/
def scan : Place → List Char → List Token
  | .between, [] => []
  | .inText _, [] => [.bad]
  | .inWord word, [] => [.ofWord word.reverse]
  | .between, c :: cs =>
    match startToken c with
    | some (tokens, place) => tokens ++ scan place cs
    | none => [.bad]
  | .inText u, c :: cs =>
    if c = '"' ∧ u.escape = .plain then .text u.finish :: scan .between cs
    else
      match u.step c with
      | some u => scan (.inText u) cs
      | none => [.bad]
  | .inWord word, c :: cs =>
    if isWordChar c then scan (.inWord (c :: word)) cs
    else
      .ofWord word.reverse ::
        match startToken c with
        | some (tokens, place) => tokens ++ scan place cs
        | none => [.bad]

/-- Tokens of a text. -/
def tokens (text : String) : List Token := scan .between text.toList

end TypedModel.Json
