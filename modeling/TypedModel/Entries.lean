/-!
# Sorted entries

Named values in ascending order of their names, each name once. Names are
ordered by code point, which is also the order of their UTF-8 octets.
-/

namespace TypedModel

/-- Named values; every operation keeps the names strictly ascending. -/
abbrev Entries (α : Type) := List (String × α)

namespace Entries

variable {α β : Type}

/-- Sets the value of a name. -/
def insert (name : String) (value : α) : Entries α → Entries α
  | [] => [(name, value)]
  | (other, old) :: rest =>
    if name < other then (name, value) :: (other, old) :: rest
    else if name = other then (name, value) :: rest
    else (other, old) :: insert name value rest

/-- Entries of a list of named values; of values with one name the last stays. -/
def ofList (pairs : List (String × α)) : Entries α :=
  pairs.foldl (fun entries p => insert p.1 p.2 entries) []

/-- Value of a name. -/
def get? (name : String) (entries : Entries α) : Option α := entries.lookup name

/-- Removes a name. -/
def erase (name : String) (entries : Entries α) : Entries α :=
  entries.filter fun e => e.1 != name

/-- The names in order. -/
def names (entries : Entries α) : List String := entries.map Prod.fst

/-- Names strictly ascend. -/
def IsSorted (entries : Entries α) : Prop := entries.Pairwise fun a b => a.1 < b.1

end Entries

end TypedModel
