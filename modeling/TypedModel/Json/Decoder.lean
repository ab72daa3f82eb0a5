import TypedModel.Json.Reader

/-!
# Decoding documents

A decoder takes a tree to typed data. It meets the parts of the tree in the
order of the text and fails at the first one that does not fit. Fields without a
meaning are passed over, a repeated field does not fit, and the text behind the
root is looked at last. A part is held if it is read whole before its meaning is
known; a held part has a few spellings more.
-/

namespace TypedModel

/-- Why a document has no typed reading. -/
inductive DecodeError where
  /-- A part is flawed, missing, repeated or of another form. -/
  | malformed
  /-- A string stands for a double and is none of the three names. -/
  | invalidDouble (text : String)
  deriving DecidableEq

/-- Message of an error, for those that have one of their own. -/
def DecodeError.message? : DecodeError → Option String
  | .malformed => none
  | .invalidDouble text => some s!"invalid double `{text}`"

/-- A reading of trees as data of one type. -/
abbrev Decoder (α : Type) := Json → Except DecodeError α

namespace Decoder

variable {α β : Type}

/-- A part that has to be given. -/
def required : Option α → Except DecodeError α
  | some a => .ok a
  | none => .error .malformed

/-- Strings. -/
def string : Decoder String
  | .string s => .ok s
  | _ => .error .malformed

/-- Truth values. -/
def bool : Decoder Bool
  | .bool b => .ok b
  | _ => .error .malformed

/-- Lists. -/
def list (item : Decoder α) : Decoder (List α)
  | .array items => items.mapM item
  | _ => .error .malformed

/-- One of several named choices. In a held part a choice may also be given by its
position. -/
def choice (options : List (String × α)) (held : Bool) : Decoder α
  | .string s => required (options.lookup s)
  | .number (.int n) =>
    if held && 0 ≤ n then required (options[n.toNat]?.map Prod.snd) else .error .malformed
  | _ => .error .malformed

/-- One of several named cases without content: its name, or an object of the name
and null. In a held part an empty object stands for null as well. -/
def nullary (options : List (String × α)) (held : Bool) : Decoder α
  | .string s | .object [(s, .null)] => required (options.lookup s)
  | .object [(s, .object [])] => if held then required (options.lookup s) else .error .malformed
  | _ => .error .malformed

/-- Null or a value. -/
def nullable (value : Decoder α) : Decoder (Option α)
  | .null => .ok none
  | j => (value j).map some

/-- Lists of exactly two parts. -/
def pair (first : Decoder α) (second : Decoder β) : Decoder (α × β)
  | .array (a :: b :: rest) => do
    let a ← first a
    let b ← second b
    if rest.isEmpty then .ok (a, b) else .error .malformed
  | _ => .error .malformed

/-- A field that may be given once. -/
def once (slot : Option α) (value : Decoder α) (j : Json) : Except DecodeError (Option α) :=
  match slot with
  | some _ => .error .malformed
  | none => (value j).map some

/-- A field without a meaning, passed over. -/
def passOver (j : Json) : Except DecodeError Unit :=
  if j.isPassable then .ok () else .error .malformed

/-- A value whose reading is put off until its form is known: it is read whole. -/
def whole (j : Json) : Except DecodeError Json :=
  if j.isSound then .ok j else .error .malformed

/-- Reads a text: the root first, then that nothing follows it. -/
def ofText (root : Decoder α) (text : String) : Except DecodeError α := do
  let reading := Json.read text
  let a ← root reading.root
  if reading.ended then .ok a else .error .malformed

end Decoder

end TypedModel
