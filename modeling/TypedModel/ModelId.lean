import TypedModel.Text.Hex

/-!
# Model identifiers

A model has an identifier of 128 bits. Its written form has 32 lower-case
hexadecimal digits in groups of 8, 4, 4, 4 and 12 between hyphens; reading also
takes the digits alone, the groups in braces or behind `urn:uuid:`, and either
case. A model's address is `models:/` and its identifier.
-/

namespace TypedModel

/-- An identifier of 128 bits. -/
structure ModelId where
  /-- The identifier as a number. -/
  code : Fin (Nat.pow 2 128)
  deriving DecidableEq

namespace ModelId

/-- Lengths of the groups of digits. -/
def groups : List Nat := [8, 4, 4, 4, 12]

/-- Digits in groups with hyphens between them. -/
def group : List Nat → List Char → List Char
  | [], _ => []
  | [_], digits => digits
  | n :: rest, digits => digits.take n ++ '-' :: group rest (digits.drop n)

/-- The 32 digits of an identifier. -/
def digits (id : ModelId) : List Char := Text.hexDigits 32 id.code.val

/-- Written form of an identifier. -/
def render (id : ModelId) : String := String.ofList (group groups id.digits)

/-- The identifier of 32 digits. -/
def ofDigits? (digits : List Char) : Option ModelId :=
  if digits.length = 32 then
    (Text.hexNumber? digits).bind fun n => if h : n < Nat.pow 2 128 then some ⟨⟨n, h⟩⟩ else none
  else none

/-- The digits of groups with hyphens between them. -/
def ungroup? : List Nat → List Char → Option (List Char)
  | [], [] => some []
  | [], _ :: _ => none
  | [n], cs => if cs.length = n then some cs else none
  | n :: rest, cs =>
    match cs.drop n with
    | '-' :: tail => (ungroup? rest tail).map (cs.take n ++ ·)
    | _ => none

/-- The identifier of grouped digits. -/
def ofGroups? (cs : List Char) : Option ModelId := (ungroup? groups cs).bind ofDigits?

/-- What may stand in front of grouped digits instead of a brace. -/
def urn : List Char := "urn:uuid:".toList

/-- The identifier a text stands for. -/
def parse? (text : String) : Option ModelId :=
  let cs := text.toList
  if cs.length = 32 then ofDigits? cs
  else if cs.length = 36 then ofGroups? cs
  else
    match cs with
    | '{' :: rest =>
      if rest.getLast? = some '}' then ofGroups? rest.dropLast else none
    | _ => if (cs.take 9).map Char.toLower = urn then ofGroups? (cs.drop 9) else none

/-- Address of a model. -/
def uri (id : ModelId) : String := "models:/" ++ id.render

/-- What every address starts with. -/
def scheme : List Char := "models:/".toList

/-- The text without trailing slashes. -/
def dropSlashes (cs : List Char) : List Char := (cs.reverse.dropWhile (· == '/')).reverse

/-- The identifier of an address, any number of slashes behind it. -/
def ofUri? (uri : String) : Option ModelId :=
  let cs := uri.toList
  if scheme.isPrefixOf cs then
    parse? (String.ofList (dropSlashes (cs.drop scheme.length)))
  else none

end ModelId

end TypedModel
