import TypedModel.Value.Frame
import TypedModel.Proofs.Entries
import Mathlib.Data.List.GetD

/-!
# Frames that are built

A frame is built from names or from columns, and by pushing rows. The main statement is that every
row of a built frame has one cell for each column, so that its two views agree: the map of a row
holds, under the name of a column, the cell that the column shows there.
-/

namespace TypedModel.Frame

/-! ## The map of a row -/

theorem map_fst_zip_eq_take (columns : List String) (row : List Value) :
    (columns.zip row).map Prod.fst = columns.take row.length := by
  induction columns generalizing row with
  | nil => simp
  | cons name rest ih =>
    cases row with
    | nil => rfl
    | cons cell row =>
      rw [List.zip_cons_cons, List.map_cons, ih, List.length_cons, List.take_succ_cons]

section

variable {f : Frame} (hapart : f.columns.Nodup)

include hapart

theorem nodup_map_fst_zip (row : List Value) : ((f.columns.zip row).map Prod.fst).Nodup := by
  rw [map_fst_zip_eq_take]
  exact hapart.sublist (List.take_sublist _ _)

/-- The cells of a row become entries of its map, one for each. -/
theorem perm_rowEntries (row : List Value) : (f.rowEntries row).Perm (f.columns.zip row) :=
  Entries.perm_ofList (nodup_map_fst_zip hapart row)

/-- The names in the map of a row are those of the columns in which the row has a cell. -/
theorem names_rowEntries (row : List Value) :
    (f.rowEntries row).names.Perm (f.columns.take row.length) := by
  rw [← map_fst_zip_eq_take]
  exact (perm_rowEntries hapart row).map Prod.fst

/-- Under the name of a column the map of a row holds the cell in that column, if there is one. -/
theorem get?_rowEntries {i : Nat} {name : String} (hname : f.columns[i]? = some name)
    (row : List Value) : (f.rowEntries row).get? name = row[i]? := by
  cases hcell : row[i]? with
  | some cell =>
    have hpair : (f.columns.zip row)[i]? = some (name, cell) :=
      List.getElem?_zip_eq_some.mpr ⟨hname, hcell⟩
    exact Entries.get?_ofList_of_mem (nodup_map_fst_zip hapart row) (List.mem_of_getElem? hpair)
  | none =>
    rw [Option.eq_none_iff_forall_ne_some]
    intro cell hget
    have hentry := (perm_rowEntries hapart row).mem_iff.mp (Entries.mem_of_get? hget)
    obtain ⟨k, hk⟩ := List.mem_iff_getElem?.mp hentry
    obtain ⟨hcolumn, hthere⟩ := List.getElem?_zip_eq_some.mp hk
    have hlt : k < f.columns.length := (List.getElem?_eq_some_iff.mp hcolumn).1
    have hsame : k = i := (List.getElem?_inj hlt hapart).mp (hcolumn.trans hname.symm)
    rw [hsame, hcell] at hthere
    cases hthere

end

/-! ## Rectangular frames -/

/-- Every row has one cell for each column. -/
def IsRectangular (f : Frame) : Prop := ∀ row ∈ f.rows, row.length = f.columns.length

/-- The two views of a frame agree if each row is shown, in its place, as a map of the names of the
columns that holds under each name what the column shows there. -/
def ViewsAgree (f : Frame) : Prop :=
  ∀ (r : Nat) (row : List Value), f.rows[r]? = some row → ∃ entries : Entries Value,
    f.rowMaps[r]? = some (Value.map entries) ∧ Entries.IsSorted entries ∧
    entries.names.Perm f.columns ∧
    ∀ (i : Nat) (name : String), f.columns[i]? = some name →
      ∃ cell, (f.column i)[r]? = some cell ∧ Entries.get? name entries = some cell

/-- The cell that a column shows in a row. -/
theorem getElem?_column {f : Frame} {r : Nat} {row : List Value} (hrow : f.rows[r]? = some row)
    (i : Nat) : (f.column i)[r]? = some (row.getD i .null) := by
  rw [column, List.getElem?_map, hrow]
  rfl

/-- The map that a row is shown as. -/
theorem getElem?_rowMaps {f : Frame} {r : Nat} {row : List Value} (hrow : f.rows[r]? = some row) :
    f.rowMaps[r]? = some (Value.map (f.rowEntries row)) := by
  rw [rowMaps, List.getElem?_map, hrow]
  rfl

/-- Under the name of a column the map of a row holds what the column shows there, unless the row
ends before that column: then the map lacks the name and the column shows null. -/
theorem exists_rowMap {f : Frame} (hapart : f.columns.Nodup) {r : Nat} {row : List Value}
    (hrow : f.rows[r]? = some row) :
    ∃ entries : Entries Value, f.rowMaps[r]? = some (Value.map entries) ∧
      ∀ (i : Nat) (name : String), f.columns[i]? = some name →
        (f.column i)[r]? = some (row.getD i .null) ∧ Entries.get? name entries = row[i]? :=
  ⟨f.rowEntries row, getElem?_rowMaps hrow, fun i _ hname =>
    ⟨getElem?_column hrow i, get?_rowEntries hapart hname row⟩⟩

/-- The views of a frame agree exactly if no row ends before the last column. -/
theorem viewsAgree_iff {f : Frame} (hapart : f.columns.Nodup) :
    f.ViewsAgree ↔ ∀ row ∈ f.rows, f.columns.length ≤ row.length := by
  constructor
  · intro hagree row hrow
    obtain ⟨r, hr⟩ := List.mem_iff_getElem?.mp hrow
    obtain ⟨entries, hmap, -, hnames, -⟩ := hagree r row hr
    rw [getElem?_rowMaps hr] at hmap
    cases hmap
    have hlength := (hnames.symm.trans (names_rowEntries hapart row)).length_eq
    rw [List.length_take] at hlength
    omega
  · intro hlong r row hrow
    have hlength : f.columns.length ≤ row.length := hlong row (List.mem_of_getElem? hrow)
    have hnames := names_rowEntries hapart row
    rw [List.take_of_length_le hlength] at hnames
    refine ⟨f.rowEntries row, getElem?_rowMaps hrow, (Entries.ofList_spec _).1, hnames,
      fun i name hname => ?_⟩
    have hi : i < row.length := by
      have hcolumn := (List.getElem?_eq_some_iff.mp hname).1
      omega
    refine ⟨row[i], ?_, ?_⟩
    · rw [getElem?_column hrow, List.getD_eq_getElem _ _ hi]
    · rw [get?_rowEntries hapart hname, List.getElem?_eq_getElem hi]

/-! ## Columns -/

/-- The length of the longest of named columns, zero without columns. -/
structure IsHeight (columns : List (String × List Value)) (height : Nat) : Prop where
  /-- No column is longer. -/
  le : ∀ c ∈ columns, c.2.length ≤ height
  /-- One is as long, if it is not zero. -/
  reached : height = 0 ∨ ∃ c ∈ columns, c.2.length = height

/-- Going through columns the greatest length so far is kept. -/
theorem foldl_max_spec (columns : List (String × List Value)) (start : Nat) :
    let height := columns.foldl (fun h c => max h c.2.length) start
    start ≤ height ∧ (∀ c ∈ columns, c.2.length ≤ height) ∧
      (height = start ∨ ∃ c ∈ columns, c.2.length = height) := by
  induction columns generalizing start with
  | nil => simp
  | cons c rest ih =>
    obtain ⟨hstart, hle, hreached⟩ := ih (max start c.2.length)
    rw [List.foldl_cons]
    refine ⟨by omega, List.forall_mem_cons.mpr ⟨by omega, hle⟩, ?_⟩
    rcases hreached with hsame | ⟨d, hd, hlength⟩
    · rcases Nat.le_total c.2.length start with hshort | hlong
      · exact .inl (hsame.trans (Nat.max_eq_left hshort))
      · exact .inr ⟨c, List.mem_cons_self, (hsame.trans (Nat.max_eq_right hlong)).symm⟩
    · exact .inr ⟨d, List.mem_cons_of_mem c hd, hlength⟩

theorem exists_isHeight (columns : List (String × List Value)) :
    ∃ height, IsHeight columns height ∧ ofColumns columns =
      ⟨columns.map Prod.fst,
        (List.range height).map fun k => columns.map fun c => c.2.getD k .null⟩ := by
  obtain ⟨-, hle, hreached⟩ := foldl_max_spec columns 0
  exact ⟨_, ⟨hle, hreached⟩, rfl⟩

/-- Cells read up to a height are the cells and nulls behind them. -/
theorem map_range_getD {cells : List Value} {height : Nat} (h : cells.length ≤ height) :
    (List.range height).map (fun k => cells.getD k .null) =
      cells ++ List.replicate (height - cells.length) .null := by
  refine List.ext_getElem (by simp; omega) fun k hk _ => ?_
  rw [List.getElem_map, List.getElem_range, List.getElem_append]
  split
  · rename_i hlt
    exact List.getD_eq_getElem _ _ hlt
  · rename_i hge
    rw [List.getElem_replicate]
    exact List.getD_eq_default _ _ (Nat.not_lt.mp hge)

/-! ## Rows -/

/-- A row is a given one cut or filled with nulls to a width. -/
structure IsFitted (width : Nat) (given row : List Value) : Prop where
  /-- The row has that many cells. -/
  length : row.length = width
  /-- Its cells are the first given ones, and null where none is given. -/
  cells : ∀ i < width, row[i]? = some (given.getD i .null)

theorem isFitted_take_append (width : Nat) (given : List Value) :
    IsFitted width given
      (given.take width ++ List.replicate (width - given.length) .null) := by
  have hlength : (given.take width).length = min width given.length := List.length_take
  refine ⟨by rw [List.length_append, List.length_replicate]; omega, fun i hi => ?_⟩
  rw [List.getElem?_append, List.getElem?_take, if_pos hi, List.getElem?_replicate]
  split
  · rename_i hlt
    have hgiven : i < given.length := by omega
    rw [List.getElem?_eq_getElem hgiven, List.getD_eq_getElem _ _ hgiven]
  · rename_i hge
    have hgiven : given.length ≤ i := by omega
    rw [if_pos (by omega), List.getD_eq_default _ _ hgiven]

/-- Pushes rows one after the other. -/
def pushRows (f : Frame) (rows : List (List Value)) : Frame := rows.foldl pushRow f

/-- A pushed row is fitted below the others. -/
theorem exists_pushRow_eq (f : Frame) (given : List Value) :
    ∃ row, IsFitted f.columns.length given row ∧
      f.pushRow given = ⟨f.columns, f.rows ++ [row]⟩ :=
  ⟨_, isFitted_take_append f.columns.length given, rfl⟩

/-- Pushed rows are fitted one by one below the others. -/
theorem exists_pushRows_eq (f : Frame) (given : List (List Value)) :
    ∃ rows, List.Forall₂ (IsFitted f.columns.length) given rows ∧
      f.pushRows given = ⟨f.columns, f.rows ++ rows⟩ := by
  induction given generalizing f with
  | nil =>
    refine ⟨[], .nil, ?_⟩
    rw [List.append_nil]
    cases f
    rfl
  | cons first rest ih =>
    obtain ⟨row, hrow, hpush⟩ := exists_pushRow_eq f first
    obtain ⟨rows, hrows, hrest⟩ := ih (f.pushRow first)
    rw [hpush] at hrows hrest
    refine ⟨row :: rows, .cons hrow hrows, ?_⟩
    rw [List.append_assoc, List.singleton_append] at hrest
    rw [← hrest, ← hpush]
    rfl

/-- A frame that is built from names or from columns, and by pushing rows. -/
inductive IsBuilt : Frame → Prop
  /-- A frame without rows. -/
  | empty (columns : List String) : IsBuilt (empty columns)
  /-- A frame of named columns. -/
  | ofColumns (columns : List (String × List Value)) : IsBuilt (ofColumns columns)
  /-- One more row. -/
  | pushRow {f : Frame} (h : IsBuilt f) (row : List Value) : IsBuilt (f.pushRow row)

theorem isRectangular_ofColumns (columns : List (String × List Value)) :
    (ofColumns columns).IsRectangular := by
  refine List.forall_mem_map.mpr fun k _ => ?_
  rw [List.length_map]
  exact (List.length_map _).symm

/-- A pushed row keeps every row at one cell for each column. -/
theorem IsRectangular.pushRow {f : Frame} (h : f.IsRectangular) (given : List Value) :
    (f.pushRow given).IsRectangular := by
  obtain ⟨row, hrow, hpush⟩ := exists_pushRow_eq f given
  rw [hpush]
  exact List.forall_mem_append.mpr ⟨h, List.forall_mem_singleton.mpr hrow.length⟩

theorem IsBuilt.isRectangular {f : Frame} (h : f.IsBuilt) : f.IsRectangular := by
  induction h with
  | empty columns => exact List.forall_mem_nil _
  | ofColumns columns => exact isRectangular_ofColumns columns
  | pushRow _ row ih => exact ih.pushRow row

/-- A column that a frame is built from is shown with nulls behind it. -/
theorem column_ofColumns {columns : List (String × List Value)} {height : Nat}
    (hle : ∀ c ∈ columns, c.2.length ≤ height)
    (hrows : (ofColumns columns).rows =
      (List.range height).map fun k => columns.map fun c => c.2.getD k .null)
    {i : Nat} {name : String} {cells : List Value} (hi : columns[i]? = some (name, cells)) :
    (ofColumns columns).column i =
      cells ++ List.replicate (height - cells.length) .null := by
  have hcells : cells.length ≤ height := hle (name, cells) (List.mem_of_getElem? hi)
  rw [← map_range_getD hcells, column, hrows, List.map_map]
  refine List.map_congr_left fun k _ => ?_
  rw [Function.comp_apply, List.getD_eq_getElem?_getD, List.getElem?_map, hi]
  rfl

/-- A frame that is built from columns shows each of them with nulls behind it, up to the length of
the longest one. A frame that is built, from names or columns and by pushing rows, has one cell for
each column in every row; rows that are pushed are cut or filled with nulls to the number of
columns, and leave those above as they are; and if the columns are named apart, its views agree. -/
theorem built_frames_are_rectangular :
    (∀ columns : List (String × List Value), ∃ height, IsHeight columns height ∧
      (ofColumns columns).columns = columns.map Prod.fst ∧
      (ofColumns columns).rows.length = height ∧
      ∀ (i : Nat) (name : String) (cells : List Value), columns[i]? = some (name, cells) →
        (ofColumns columns).column i =
          cells ++ List.replicate (height - cells.length) .null) ∧
    ∀ f : Frame, f.IsBuilt →
      f.IsRectangular ∧
      (∀ given, ∃ rows, List.Forall₂ (IsFitted f.columns.length) given rows ∧
        f.pushRows given = ⟨f.columns, f.rows ++ rows⟩) ∧
      (f.columns.Nodup → f.ViewsAgree) := by
  constructor
  · intro columns
    obtain ⟨height, hheight, hframe⟩ := exists_isHeight columns
    have hrows := congrArg Frame.rows hframe
    refine ⟨height, hheight, congrArg Frame.columns hframe, ?_, fun i name cells hi =>
      column_ofColumns hheight.le hrows hi⟩
    rw [hrows, List.length_map, List.length_range]
  · intro f hbuilt
    have hrectangular := hbuilt.isRectangular
    refine ⟨hrectangular, exists_pushRows_eq f, fun hapart => (viewsAgree_iff hapart).mpr ?_⟩
    exact fun row hrow => Nat.le_of_eq (hrectangular row hrow).symm

/-- Columns of different lengths, a row that is too long and one that is too short. -/
theorem built_frames_are_rectangular_uneven :
    let columns : List (String × List Value) := [("b", [.long 1, .long 2]), ("a", [.str "x"])]
    let f := ((ofColumns columns).pushRow [.null, .bool true, .null]).pushRow []
    columns[1]? = some ("a", [.str "x"]) ∧ (ofColumns columns).column 1 = [.str "x", .null] ∧
      f.IsBuilt ∧ f.IsRectangular ∧ f.columns.Nodup ∧ f.ViewsAgree := by
  intro columns f
  have hbuilt : f.IsBuilt := .pushRow (.pushRow (.ofColumns columns) _) _
  have hapart : f.columns.Nodup := by decide
  obtain ⟨hcolumns, hframes⟩ := built_frames_are_rectangular
  obtain ⟨height, -, -, hlength, hcolumn⟩ := hcolumns columns
  obtain ⟨hrectangular, -, hviews⟩ := hframes f hbuilt
  have hheight : height = 2 := hlength.symm
  refine ⟨rfl, ?_, hbuilt, hrectangular, hapart, hviews hapart⟩
  rw [hcolumn 1 "a" [.str "x"] rfl, hheight]
  rfl

end TypedModel.Frame
