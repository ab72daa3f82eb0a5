import TypedModel.Hint.Token
import TypedModel.Hint.Union

/-!
# Reading hints

A hint is a union of one or more members between bars; a member is a name,
possibly with arguments in brackets, which are hints again. The reader takes the
tokens one by one with a stack of the brackets that are open, so where it stands
depends only on the tokens read.
-/

namespace TypedModel.Hint

/-- The record definitions that names may stand for. -/
structure Parser where
  /-- Definitions by name. -/
  records : Entries RecordDef

namespace Parser

/-- A parser without records. -/
def empty : Parser := ⟨[]⟩

/-- Makes a record known by its name, in place of an earlier one. -/
def register (p : Parser) (definition : RecordDef) : Parser :=
  ⟨p.records.insert definition.name definition⟩

/-! ## Names -/

/-- Name without one leading `typing.`. -/
def shortName (name : String) : String :=
  if "typing.".toList.isPrefixOf name.toList then String.ofList (name.toList.drop 7) else name

/-- The hint that a short name without arguments stands for by itself. -/
def builtin? : String → Option TypeHint
  | "int" => some (.scalar .int)
  | "str" => some (.scalar .str)
  | "bool" => some (.scalar .bool)
  | "float" => some (.scalar .float)
  | "bytes" => some (.scalar .bytes)
  | "datetime" | "datetime.datetime" => some (.scalar .datetime)
  | "Any" => some .any
  | "None" | "NoneType" => some .none
  | "DataFrame" | "pd.DataFrame" | "pandas.DataFrame" => some .frame
  | _ => none

/-- The hint of a name without arguments. -/
def resolveName (p : Parser) (name : String) : TypeHint :=
  match builtin? (shortName name) with
  | some hint => hint
  | none =>
    match p.records.get? name with
    | some definition => .record definition
    | none => .foreign name

/-- The hint of a name with arguments. -/
def resolveApplied (name : String) (args : List TypeHint) : Except ParseError TypeHint :=
  let short := shortName name
  match short, args with
  | "list", [element] | "List", [element] => .ok (.list element)
  | "list", _ | "List", _ => .error (.wrongArity short 1 args.length)
  | "dict", [key, value] | "Dict", [key, value] => .ok (.dict key value)
  | "dict", _ | "Dict", _ => .error (.wrongArity short 2 args.length)
  | "Optional", [inner] => .ok (TypeHint.unionOf [inner, .none])
  | "Optional", _ => .error (.wrongArity short 1 args.length)
  | "Union", _ => .ok (TypeHint.unionOf args)
  | _, _ =>
    .ok (.foreign (name ++ "[" ++ String.intercalate ", " (args.map TypeHint.display) ++ "]"))

/-! ## The reader -/

/-- An open bracket. -/
structure Bracket where
  /-- Name in front of the bracket. -/
  name : String
  /-- Finished members of the union the name stands in, last one first. -/
  outer : List TypeHint
  /-- Finished arguments, last one first. -/
  args : List TypeHint

/-- What the token in front of the reader was. -/
inductive Place where
  /-- None, a bar, a comma or an opening bracket: a name has to follow. -/
  | start
  /-- A name, which may get arguments. -/
  | named (name : String)
  /-- The end of a list of arguments. -/
  | closed

/-- The reader between two tokens. -/
structure State where
  /-- Open brackets, innermost first. -/
  brackets : List Bracket
  /-- Finished members of the union being read, last one first. -/
  members : List TypeHint
  /-- Where the reader is. -/
  place : Place

/-- What a token leads to. -/
inductive Step where
  /-- The reader goes on. -/
  | next (state : State)
  /-- The text is read. -/
  | done (hint : TypeHint)

/-- The reader before the first token. -/
def State.start : State := ⟨[], [], .start⟩

/-- A member is complete and a token follows it. -/
def afterMember (brackets : List Bracket) (members : List TypeHint) (t : Located) :
    Except ParseError Step :=
  match t.token, brackets with
  | .bar, _ => .ok (.next ⟨brackets, members, .start⟩)
  | .comma, b :: rest =>
    let args := TypeHint.unionOf members.reverse :: b.args
    .ok (.next ⟨{ b with args := args } :: rest, [], .start⟩)
  | .closeBracket, b :: rest => do
    let hint ← resolveApplied b.name (TypeHint.unionOf members.reverse :: b.args).reverse
    .ok (.next ⟨rest, hint :: b.outer, .closed⟩)
  | .endOfText, [] => .ok (.done (TypeHint.unionOf members.reverse))
  | _, [] => .error (.trailingInput t.offset)
  | token, _ :: _ => .error (.unexpectedToken .closeBracket token t.offset)

/-- One token. -/
def step (p : Parser) (s : State) (t : Located) : Except ParseError Step :=
  match s.place, t.token with
  | .start, .name name => .ok (.next { s with place := .named name })
  | .start, token => .error (.unexpectedToken .typeName token t.offset)
  | .named name, .openBracket => .ok (.next ⟨⟨name, s.members, []⟩ :: s.brackets, [], .start⟩)
  | .named name, _ => afterMember s.brackets (p.resolveName name :: s.members) t
  | .closed, _ => afterMember s.brackets s.members t

/-- The hint of the remaining tokens. Tokens that do not end with the end of the
text are no hint. -/
def run (p : Parser) (s : State) : List Located → Except ParseError TypeHint
  | [] => .error .empty
  | t :: rest => do
    match ← p.step s t with
    | .next s => run p s rest
    | .done hint => .ok hint

/-- The hint a text stands for. -/
def parse (p : Parser) (text : String) : Except ParseError TypeHint :=
  if Text.isBlankText text then .error .empty
  else do
    let ts ← tokens text
    p.run .start ts

/-- The hints of the input and the output of a function, the input read first. -/
def parseHints (p : Parser) (input output : Option String) : Except ParseError TypeHints := do
  let input ← input.mapM p.parse
  let output ← output.mapM p.parse
  .ok ⟨input, output⟩

end Parser

end TypedModel.Hint
