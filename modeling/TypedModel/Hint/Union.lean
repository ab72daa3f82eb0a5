import TypedModel.Hint.Basic

/-!
# Unions

The union of hints as the parser builds it: members that are unions themselves
give their members, equal members are taken once, and a single member stands for
itself.
-/

namespace TypedModel.TypeHint

/-- The members a hint contributes to a union. -/
def asMembers : TypeHint → List TypeHint
  | .union members => members
  | hint => [hint]

/-- One more member behind the others, unless it is among them. -/
def addMember (members : List TypeHint) (hint : TypeHint) : List TypeHint :=
  if members.any fun m => m.sameAs hint then members else members ++ [hint]

/-- The union of hints without nesting and without equal members. -/
def unionOf (hints : List TypeHint) : TypeHint :=
  match (hints.flatMap asMembers).foldl addMember [] with
  | [hint] => hint
  | members => .union members

end TypedModel.TypeHint
