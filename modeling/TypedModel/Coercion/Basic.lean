import TypedModel.Coercion.Path
import TypedModel.Value.Frame

/-!
# Coercion

A value is checked against a hint and rebuilt where the hint asks for it: an
integer under `float` is widened, a map under a record becomes an instance, and
a frame is read as the list of its items or rows. A value that fits as it is
passes through; parts are rebuilt only around parts that are. The first part that
does not fit rejects the value.
-/

namespace TypedModel

/-- What a value becomes under a hint. -/
inductive Coercion where
  /-- The value fits as it is. -/
  | passThrough
  /-- Another value takes its place. -/
  | rebuilt (value : Value)

namespace Coercion

/-- The value that a value becomes. -/
def apply (c : Coercion) (given : Value) : Value :=
  match c with
  | .passThrough => given
  | .rebuilt value => value

/-- Whether the value fits as it is. -/
def isPassThrough : Coercion → Bool
  | .passThrough => true
  | .rebuilt _ => false

/-- The coercion of values at places. -/
abbrev Visit := Path → Value → Except Rejection Coercion

/-- The items from an index on, with the items before them, last one first. A copy of the
list, last item first, begins at the first item that is rebuilt, with all the items before
it. -/
def visitItemsFrom (visit : Visit) (path : Path) (i : Nat) (before : List Value)
    (copy : Option (List Value)) : List Value → Except Rejection (Option (List Value))
  | [] => .ok copy
  | item :: rest => do
    match ← visit (path ++ [.index i]) item with
    | .passThrough =>
      visitItemsFrom visit path (i + 1) (item :: before) (copy.map (item :: ·)) rest
    | .rebuilt value =>
      visitItemsFrom visit path (i + 1) (item :: before) (some (value :: copy.getD before)) rest

/-- Items of a list, each at its index; the list is rebuilt if there is a copy of it. -/
def visitItems (visit : Visit) (path : Path) (items : List Value) :
    Except Rejection Coercion := do
  match ← visitItemsFrom visit path 0 [] none items with
  | some copy => .ok (.rebuilt (.list copy.reverse))
  | none => .ok .passThrough

/-- A value made of parts is rebuilt if one of its parts is. -/
def ofParts (parts : List Coercion) (rebuild : List Coercion → Value) : Coercion :=
  if parts.all isPassThrough then .passThrough else .rebuilt (rebuild parts)

/-- Values of a map, each at its name. -/
def visitEntries (visit : Visit) (path : Path) (entries : Entries Value) :
    Except Rejection Coercion := do
  let parts ← entries.mapM fun entry => visit (path ++ [.name entry.1]) entry.2
  .ok (ofParts parts fun parts =>
    .map (parts.zipWith (fun part entry => (entry.1, part.apply entry.2)) entries))

/-- Rows of a frame as maps, each at its index; the frame becomes their list. -/
def visitRows (visit : Path → Entries Value → Except Rejection Coercion) (path : Path)
    (frame : Frame) : Except Rejection Coercion := do
  let rows ← frame.rows.zipIdx.mapM fun row => do
    let entries := frame.rowEntries row.1
    let part ← visit (path ++ [.index row.2]) entries
    pure (part.apply (.map entries))
  .ok (.rebuilt (.list rows))

/-- A value under a scalar hint: of its kind, or an integer under `float`. -/
def visitScalar (kind : ScalarKind) (path : Path) (value : Value) : Except Rejection Coercion :=
  match kind, value with
  | .int, .long _ | .str, .str _ | .bool, .bool _ | .float, .double _ | .bytes, .bytes _
  | .datetime, .datetime _ => .ok .passThrough
  | .float, .long n => .ok (.rebuilt (.double (.ofInt n.toInt)))
  | _, _ => .error (.clash path (.scalar kind) value)

/-- The first outcome that accepts. -/
def firstAccepted? : List (Except Rejection Coercion) → Option Coercion
  | [] => none
  | .ok c :: _ => some c
  | .error _ :: rest => firstAccepted? rest

/-- A value under a union, given the outcomes of its members: under an optional
hint null passes and anything else is left to the other member; under other
unions the first member that accepts decides. -/
def visitUnion (members : List TypeHint) (outcomes : List (Except Rejection Coercion))
    (path : Path) (value : Value) : Except Rejection Coercion :=
  let anyMember :=
    match firstAccepted? outcomes with
    | some c => .ok c
    | none => .error (.clash path (.union members) value)
  match members, outcomes with
  | [a, b], [first, second] =>
    if a.isNone && !b.isNone then if value.isNull then .ok .passThrough else second
    else if b.isNone && !a.isNone then if value.isNull then .ok .passThrough else first
    else anyMember
  | _, _ => anyMember

mutual

/-- What the value at a path becomes under a hint. -/
def visit : TypeHint → Visit
  | .any, _, _ | .frame, _, _ | .foreign _, _, _ => .ok .passThrough
  | .none, path, value =>
    if value.isNull then .ok .passThrough else .error (.clash path .none value)
  | .scalar kind, path, value => visitScalar kind path value
  | .union members, path, value =>
    visitUnion members (visitMembers members path value) path value
  | .list element, path, value =>
    match value with
    | .list items => visitItems (visit element) path items
    | .frame f => do
      let c ← visitItems (visit element) path f.items
      .ok (.rebuilt (c.apply (.list f.items)))
    | _ => .error (.clash path (.list element) value)
  | .dict key element, path, value =>
    match value with
    | .map entries => visitEntries (visit element) path entries
    | .frame f => visitRows (visitEntries (visit element)) path f
    | _ => .error (.clash path (.dict key element) value)
  | .record ⟨name, fields⟩, path, value =>
    match value with
    | .record r =>
      if r.name = name then .ok .passThrough
      else .error (.clash path (.record ⟨name, fields⟩) value)
    | .map entries => do
      let given ← visitFields fields path entries
      .ok (.rebuilt (.record ⟨name, given⟩))
    | .frame f =>
      visitRows
        (fun path entries => do
          let given ← visitFields fields path entries
          .ok (.rebuilt (.record ⟨name, given⟩)))
        path f
    | _ => .error (.clash path (.record ⟨name, fields⟩) value)
termination_by structural h => h

/-- Outcomes of the members of a union. -/
def visitMembers : List TypeHint → Path → Value → List (Except Rejection Coercion)
  | [], _, _ => []
  | member :: rest, path, value => visit member path value :: visitMembers rest path value
termination_by structural members => members

/-- The fields of a record built from a map, in the order of their declaration: a
value given is coerced, an absent one has its default, and names without a field
are dropped. -/
def visitFields : List FieldSpec → Path → Entries Value →
    Except Rejection (List (String × Value))
  | [], _, _ => .ok []
  | ⟨name, hint, default?⟩ :: rest, path, entries => do
    let path' := path ++ [.name name]
    let value ←
      match entries.get? name, default? with
      | some given, _ => (visit hint path' given).map (·.apply given)
      | none, some default => .ok default
      | none, none => .error (.missing path')
    let values ← visitFields rest path entries
    .ok ((name, value) :: values)
termination_by structural fields => fields

end

end Coercion

namespace TypeHint

/-- What a value becomes under a hint, or why it does not fit. -/
def coerce? (h : TypeHint) (v : Value) : Except Rejection Value :=
  (Coercion.visit h [] v).map (·.apply v)

/-- The value coerced to a hint. -/
def coerce (h : TypeHint) (v : Value) : Except SchemaError Value :=
  (h.coerce? v).mapError Rejection.toSchemaError

/-- Checks a value against a hint. -/
def validate (h : TypeHint) (v : Value) : Except SchemaError Unit :=
  (h.coerce v).map fun _ => ()

end TypeHint

end TypedModel
