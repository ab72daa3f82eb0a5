import TypedModel.Value.Basic

/-!
# Frames

Building frames by columns and by rows, and their two views: the cells of a
column from top to bottom, and each row as a map from column names to cells.
-/

namespace TypedModel.Frame

/-- A frame without rows. -/
def empty (columns : List String) : Frame := ⟨columns, []⟩

/-- The frame of named columns; shorter columns are filled with nulls. -/
def ofColumns (columns : List (String × List Value)) : Frame :=
  let height := columns.foldl (fun h c => max h c.2.length) 0
  ⟨columns.map Prod.fst,
    (List.range height).map fun i => columns.map fun c => c.2.getD i .null⟩

/-- One more row below the others, cut or filled with nulls to the number of
columns. -/
def pushRow (f : Frame) (row : List Value) : Frame :=
  let width := f.columns.length
  { f with
    rows := f.rows ++ [row.take width ++ List.replicate (width - row.length) .null] }

/-- Whether there is no column or no row. -/
def isEmpty (f : Frame) : Bool := f.columns.isEmpty || f.rows.isEmpty

/-- Cells of the column at an index from top to bottom; a missing cell is null. -/
def column (f : Frame) (index : Nat) : List Value :=
  f.rows.map fun row => row.getD index .null

/-- A row as a map; cells beyond the columns are dropped. -/
def rowEntries (f : Frame) (row : List Value) : Entries Value :=
  Entries.ofList (f.columns.zip row)

/-- Each row as a map from column names to cells. -/
def rowMaps (f : Frame) : List Value := f.rows.map fun row => .map (f.rowEntries row)

/-- The rows as list items: the cells of the only column, otherwise the maps of
the rows. -/
def items (f : Frame) : List Value :=
  if f.columns.length = 1 then f.column 0 else f.rowMaps

end TypedModel.Frame
