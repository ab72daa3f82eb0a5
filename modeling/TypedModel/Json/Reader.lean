import TypedModel.Json.Token

/-!
# Reading documents

The reader runs over the tokens of a text with a stack of the containers that
are open, innermost first. When the text stops being a document every open
container ends with a flaw, so a tree always comes out: the part that could be
read, in its order, up to the first flaw.
-/

namespace TypedModel.Json

/-- What an open container holds so far, last entry first. -/
inductive Contents where
  /-- Items of an array. -/
  | items (done : List Json)
  /-- Fields of an object, and the name of the field being read; none if the
  name holds half of a surrogate pair. -/
  | fields (done : List (String × Json)) (name : Option String)

/-- An open container. -/
structure Container where
  /-- How many containers are open, this one included. -/
  depth : Nat
  /-- What it holds so far. -/
  contents : Contents

/-- What may come next. -/
inductive Expected where
  /-- A value. -/
  | value
  /-- A value, or the end of an array. -/
  | firstItem
  /-- The name of a field. -/
  | name
  /-- The name of a field, or the end of an object. -/
  | firstName
  /-- The colon behind a name. -/
  | colon
  /-- A comma, or the end of the innermost container. -/
  | separator
  deriving DecidableEq

/-- The reader between two tokens. -/
inductive State where
  /-- Containers are open or the root is missing. -/
  | reading (stack : List Container) (expected : Expected)
  /-- The root is complete. -/
  | complete (root : Json)

/-- What a text reads as. -/
structure Reading where
  /-- The tree. -/
  root : Json
  /-- Whether the root is complete and nothing follows it. -/
  ended : Bool

/-- A field, or a flaw in its place if its name could not be read. -/
def field (name : Option String) (value : Json) : String × Json :=
  match name with
  | some name => (name, value)
  | none => ("", .flawed .unnamed)

/-- One more entry of an open container. -/
def Contents.add (value : Json) : Contents → Contents
  | .items done => .items (value :: done)
  | .fields done name => .fields (field name value :: done) name

/-- The container as a value. -/
def Contents.close : Contents → Json
  | .items done => .array done.reverse
  | .fields done _ => .object done.reverse

/-- The container as a value that the text does not complete. -/
def Contents.abandon : Contents → Json
  | .items done => .array (.flawed .malformed :: done).reverse
  | .fields done _ => .object (("", .flawed .malformed) :: done).reverse

/-- A finished container, out of range beyond the nesting limit. -/
def Container.close (c : Container) : Json :=
  if c.depth ≤ nestingLimit then c.contents.close else .flawed .outOfRange

/-- The state behind a complete value. -/
def State.afterValue (value : Json) : List Container → State
  | [] => .complete value
  | c :: rest => .reading ({ c with contents := c.contents.add value } :: rest) .separator

/-- The stack with one more container. -/
def openContainer (contents : Contents) (stack : List Container) : List Container :=
  let depth := match stack with
    | [] => 1
    | c :: _ => c.depth + 1
  ⟨depth, contents⟩ :: stack

/-- A value begins: a scalar is one, a container is opened. -/
def State.beginValue (stack : List Container) : Token → Option State
  | .scalar value => some (.afterValue value stack)
  | .text (some s) => some (.afterValue (.string s) stack)
  | .text none => some (.afterValue (.flawed .outOfRange) stack)
  | .openArray => some (.reading (openContainer (.items []) stack) .firstItem)
  | .openObject => some (.reading (openContainer (.fields [] none) stack) .firstName)
  | _ => none

/-- The innermost container ends. -/
def State.endContainer : List Container → Option State
  | [] => none
  | c :: rest => some (.afterValue c.close rest)

/-- The name of a field is read. -/
def State.readName (name : Option String) : List Container → Option State
  | ⟨depth, .fields done _⟩ :: rest => some (.reading (⟨depth, .fields done name⟩ :: rest) .colon)
  | _ => none

/-- The state behind one more token; none where a document cannot go on so. -/
def step (stack : List Container) : Expected → Token → Option State
  | .value, t => State.beginValue stack t
  | .firstItem, .closeArray => State.endContainer stack
  | .firstItem, t => State.beginValue stack t
  | .firstName, .closeObject => State.endContainer stack
  | .firstName, .text name => State.readName name stack
  | .name, .text name => State.readName name stack
  | .colon, .colon => some (.reading stack .value)
  | .separator, t =>
    match stack, t with
    | ⟨_, .items _⟩ :: _, .comma => some (.reading stack .value)
    | ⟨_, .items _⟩ :: _, .closeArray => State.endContainer stack
    | ⟨_, .fields _ _⟩ :: _, .comma => some (.reading stack .name)
    | ⟨_, .fields _ _⟩ :: _, .closeObject => State.endContainer stack
    | _, _ => none
  | _, _ => none

/-- The tree of a text that stops within the containers of the stack, `inner`
being the value that lies in the innermost one. -/
def abandon (inner : Json) : List Container → Json
  | [] => inner
  | c :: rest =>
    abandon
      (if c.depth ≤ nestingLimit then (c.contents.add inner).abandon else .flawed .malformed) rest

/-- The reading of the remaining tokens. -/
def run : State → List Token → Reading
  | .complete root, [] => ⟨root, true⟩
  | .complete root, _ :: _ => ⟨root, false⟩
  | .reading stack _, [] => ⟨abandon (.flawed .malformed) stack, false⟩
  | .reading stack expected, t :: rest =>
    match step stack expected t with
    | some state => run state rest
    | none => ⟨abandon (.flawed .malformed) stack, false⟩

/-- What a text reads as. -/
def read (text : String) : Reading := run (.reading [] .value) (tokens text)

/-- The document of a text: one value without flaws, and nothing behind it. -/
def parse? (text : String) : Option Json :=
  let reading := read text
  if reading.ended && reading.root.isSound then some reading.root else none

end TypedModel.Json
