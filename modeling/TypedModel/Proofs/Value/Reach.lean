import TypedModel.Value.Basic

/-!
# Reachable values

What holds of a value and of all that can be reached from it through lists and maps. The fields of
a record instance and the cells of a frame are not reached.
-/

namespace TypedModel.Value

mutual

/-- Whether a condition holds of a value and of all values reached from it. -/
def throughout (p : Value → Bool) : Value → Bool
  | .list items => p (.list items) && itemsThroughout p items
  | .map entries => p (.map entries) && entriesThroughout p entries
  | v => p v
termination_by structural v => v

/-- Whether a condition holds of all values reached from items. -/
def itemsThroughout (p : Value → Bool) : List Value → Bool
  | [] => true
  | item :: rest => throughout p item && itemsThroughout p rest
termination_by structural items => items

/-- Whether a condition holds of all values reached from the values of entries. -/
def entriesThroughout (p : Value → Bool) : List (String × Value) → Bool
  | [] => true
  | (_, value) :: rest => throughout p value && entriesThroughout p rest
termination_by structural entries => entries

end

variable {p : Value → Bool}

/-- Items are looked through one by one. -/
theorem itemsThroughout_iff {items : List Value} :
    itemsThroughout p items = true ↔ ∀ item ∈ items, item.throughout p = true := by
  induction items with
  | nil => simp [itemsThroughout]
  | cons item rest ih => simp [itemsThroughout, ih]

/-- Entries are looked through one by one. -/
theorem entriesThroughout_iff {entries : List (String × Value)} :
    entriesThroughout p entries = true ↔ ∀ e ∈ entries, e.2.throughout p = true := by
  induction entries with
  | nil => simp [entriesThroughout]
  | cons e rest ih =>
    obtain ⟨name, value⟩ := e
    simp [entriesThroughout, ih]

/-- Record instances and frames. -/
def isInstance : Value → Bool
  | .record _ | .frame _ => true
  | _ => false

/-- Whether neither a record instance nor a frame is reached. -/
def instanceFree (v : Value) : Bool := v.throughout fun x => !x.isInstance

/-- A list is free of instances if its items are. -/
theorem instanceFree_list {items : List Value} :
    (Value.list items).instanceFree = true ↔ ∀ item ∈ items, item.instanceFree = true := by
  simp only [instanceFree, throughout, isInstance, Bool.not_false, Bool.true_and,
    itemsThroughout_iff]

/-- A map is free of instances if its values are. -/
theorem instanceFree_map {entries : Entries Value} :
    (Value.map entries).instanceFree = true ↔ ∀ e ∈ entries, e.2.instanceFree = true := by
  simp only [instanceFree, throughout, isInstance, Bool.not_false, Bool.true_and,
    entriesThroughout_iff]

end TypedModel.Value
