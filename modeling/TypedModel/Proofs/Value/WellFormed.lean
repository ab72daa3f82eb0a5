import TypedModel.Value.Frame
import TypedModel.Time.Rfc3339
import TypedModel.Proofs.Entries

/-!
# Well-formed values

What every value satisfies as the program holds it. The values that a list hint sees of a frame, and
the maps of its rows, are well formed with the frame.
-/

namespace TypedModel.Value

mutual

/-- What every value satisfies as the program holds it: names of a map ascend, and instants lie in
the range of years. -/
def WellFormed : Value → Prop
  | .datetime t => Time.isYearInRange t.date.year = true
  | .list items => ItemsWellFormed items
  | .map entries => Entries.IsSorted entries ∧ EntriesWellFormed entries
  | .record ⟨_, fields⟩ => EntriesWellFormed fields
  | .frame ⟨_, rows⟩ => RowsWellFormed rows
  | _ => True
termination_by structural v => v

/-- Items that are well formed. -/
def ItemsWellFormed : List Value → Prop
  | [] => True
  | item :: rest => WellFormed item ∧ ItemsWellFormed rest
termination_by structural items => items

/-- Named values that are well formed. -/
def EntriesWellFormed : List (String × Value) → Prop
  | [] => True
  | (_, value) :: rest => WellFormed value ∧ EntriesWellFormed rest
termination_by structural entries => entries

/-- Rows of well-formed cells. -/
def RowsWellFormed : List (List Value) → Prop
  | [] => True
  | row :: rest => ItemsWellFormed row ∧ RowsWellFormed rest
termination_by structural rows => rows

end

/-- Items are well formed one by one. -/
theorem itemsWellFormed_iff {items : List Value} :
    ItemsWellFormed items ↔ ∀ item ∈ items, item.WellFormed := by
  induction items with
  | nil => simp [ItemsWellFormed]
  | cons item rest ih => simp [ItemsWellFormed, ih]

/-- Named values are well formed one by one. -/
theorem entriesWellFormed_iff {entries : List (String × Value)} :
    EntriesWellFormed entries ↔ ∀ e ∈ entries, e.2.WellFormed := by
  induction entries with
  | nil => simp [EntriesWellFormed]
  | cons e rest ih =>
    obtain ⟨name, value⟩ := e
    simp [EntriesWellFormed, ih]

/-- Rows are well formed cell by cell. -/
theorem rowsWellFormed_iff {rows : List (List Value)} :
    RowsWellFormed rows ↔ ∀ row ∈ rows, ∀ cell ∈ row, cell.WellFormed := by
  induction rows with
  | nil => simp [RowsWellFormed]
  | cons row rest ih => simp [RowsWellFormed, ih, itemsWellFormed_iff]

/-- The cells of a frame are well formed. -/
theorem wellFormed_cell {f : Frame} (hf : (Value.frame f).WellFormed) {row : List Value}
    (hrow : row ∈ f.rows) : ∀ cell ∈ row, cell.WellFormed := by
  obtain ⟨columns, rows⟩ := f
  exact rowsWellFormed_iff.mp hf row hrow

/-- The map of a row is well formed. -/
theorem wellFormed_rowEntries {f : Frame} (hf : (Value.frame f).WellFormed) {row : List Value}
    (hrow : row ∈ f.rows) : (Value.map (f.rowEntries row)).WellFormed := by
  have hcells := wellFormed_cell hf hrow
  obtain ⟨hsorted, hmem⟩ := Entries.ofList_spec (f.columns.zip row)
  refine ⟨hsorted, entriesWellFormed_iff.mpr fun e he => ?_⟩
  exact hcells e.2 (List.of_mem_zip (hmem e he)).2

/-- The cells of a column are well formed, missing ones being null. -/
theorem wellFormed_column {f : Frame} (hf : (Value.frame f).WellFormed) (index : Nat) :
    ∀ cell ∈ f.column index, cell.WellFormed := by
  refine List.forall_mem_map.mpr fun row hrow => ?_
  have hcells := wellFormed_cell hf hrow
  rw [List.getD_eq_getElem?_getD]
  cases hcell : row[index]? with
  | none => trivial
  | some cell => exact hcells cell (List.mem_of_getElem? hcell)

/-- The rows of a frame read as items are well formed. -/
theorem wellFormed_items {f : Frame} (hf : (Value.frame f).WellFormed) :
    ∀ item ∈ f.items, item.WellFormed := by
  rw [Frame.items]
  split
  · exact wellFormed_column hf 0
  · exact List.forall_mem_map.mpr fun row hrow => wellFormed_rowEntries hf hrow

end TypedModel.Value
