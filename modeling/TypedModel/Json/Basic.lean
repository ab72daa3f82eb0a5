import TypedModel.Double.Basic

/-!
# Documents

A document is a tree of JSON values whose objects keep their fields in order,
repeated names included. Any text can be read into a tree: where it has no
value, a leaf names the flaw. So a reader of typed data meets the flaws of a
document in the order of its text, and can pass over fields it does not use.
-/

namespace TypedModel

namespace Json

/-- A number of a document. -/
inductive Number where
  /-- Written without fraction and exponent, from `-2^63` to below `2^64`. -/
  | int (n : Int)
  /-- Any other number. -/
  | double (x : Double)
  deriving DecidableEq

/-- Why a stretch of text has no value. -/
inductive Flaw where
  /-- The text stops being a document; nothing behind this point is read. -/
  | malformed
  /-- The form of a value, but none in range: a number beyond the doubles, half
  of a surrogate pair, or containers nested beyond the limit. -/
  | outOfRange
  /-- A field whose name holds half of a surrogate pair. -/
  | unnamed
  deriving DecidableEq

end Json

/-- A document, or a part of one. -/
inductive Json where
  /-- The null value. -/
  | null
  /-- A truth value. -/
  | bool (b : Bool)
  /-- A number. -/
  | number (n : Json.Number)
  /-- A string. -/
  | string (s : String)
  /-- A list of values. -/
  | array (items : List Json)
  /-- Named values in the order of the text. -/
  | object (fields : List (String × Json))
  /-- A stretch of text without a value. -/
  | flawed (flaw : Json.Flaw)

namespace Json

/-- Greatest number of containers that lie in each other. -/
def nestingLimit : Nat := 127

mutual

/-- Whether every part of a tree satisfies a condition on its flaws. -/
def flawsAll (ok : Flaw → Bool) : Json → Bool
  | .array items => itemsFlawsAll ok items
  | .object fields => fieldsFlawsAll ok fields
  | .flawed flaw => ok flaw
  | _ => true
termination_by structural j => j

/-- Condition on the flaws of list items. -/
def itemsFlawsAll (ok : Flaw → Bool) : List Json → Bool
  | [] => true
  | item :: rest => flawsAll ok item && itemsFlawsAll ok rest
termination_by structural items => items

/-- Condition on the flaws of fields. -/
def fieldsFlawsAll (ok : Flaw → Bool) : List (String × Json) → Bool
  | [] => true
  | (_, value) :: rest => flawsAll ok value && fieldsFlawsAll ok rest
termination_by structural fields => fields

end

/-- A tree without flaws. -/
def isSound (j : Json) : Bool := j.flawsAll fun _ => false

/-- A field value that may be passed over: it has the form of a value, whatever
its range, and its name could be read. -/
def isPassable : Json → Bool
  | .flawed .unnamed => false
  | j => j.flawsAll (· != .malformed)

/-- An integer literal. -/
def ofInt (n : Int) : Json := .number (.int n)

/-- The double nearest to a number. -/
def Number.toDouble : Number → Double
  | .int n => .ofInt n
  | .double x => x

end Json

end TypedModel
