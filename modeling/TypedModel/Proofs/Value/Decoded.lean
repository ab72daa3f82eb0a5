import TypedModel.Proofs.Json.Accepted
import TypedModel.Proofs.Value.Frame
import TypedModel.Proofs.Value.Parts
import TypedModel.Proofs.Value.RoundTrip

/-!
# Parts of decoded values

Whatever lies in a decoded value was decoded from a part of its document. The main statement is what
this says of frames: each has the names and the rows that were written, every row with as many cells
as were written for it, so that a frame is rectangular exactly if it was written so.
-/

namespace TypedModel.Value

open Decoder Sequence

/-! ## Contents -/

section

variable {value : Decoder Value} {j : Json}

/-- A value in a decoded map is decoded from a field. -/
theorem exists_of_mem_decodeEntries {entries : Entries Value}
    (h : decodeEntries value j = .ok entries) {e : String × Value} (he : e ∈ entries) :
    ∃ d, j.HasPart d ∧ value d = .ok e.2 := by
  cases j with
  | object fields =>
    refine foldlM_keeps
      (P := fun entries => ∀ e ∈ entries, ∃ d, (Json.object fields).HasPart d ∧ value d = .ok e.2)
      (List.forall_mem_nil _) (fun f hf entries next hentries hstep => ?_) h e he
    obtain ⟨v, hv, rfl⟩ := map_eq_ok_iff.mp hstep
    intro e he
    rcases Entries.mem_of_mem_insert he with rfl | he
    · exact ⟨f.2, .field hf, hv⟩
    · exact hentries e he
  | _ => cases h

/-- One field of the object of a record instance gives the field values or leaves them. -/
theorem fields_of_step {slots next : Option String × Option (List (String × Value))}
    {f : String × Json} (h : decodeRecord.step value slots f = .ok next)
    {fields : List (String × Value)} (hfields : next.2 = some fields) :
    slots.2 = some fields ∨ decodeRecord.fieldsDecoder value f.2 = .ok fields := by
  rw [decodeRecord.step.eq_def] at h
  split at h
  · obtain ⟨name, -, h⟩ := bind_eq_ok_iff.mp h
    cases h
    exact .inl hfields
  · obtain ⟨slot, hslot, h⟩ := bind_eq_ok_iff.mp h
    obtain ⟨-, given, hgiven, rfl⟩ := once_eq_ok_iff.mp hslot
    cases h
    cases hfields
    exact .inr hgiven
  · obtain ⟨-, -, h⟩ := bind_eq_ok_iff.mp h
    cases h
    exact .inl hfields

/-- The fields of a decoded record instance are decoded from a part of the tree. -/
theorem exists_fields_of_decodeRecord {r : Record} (h : decodeRecord value j = .ok r) :
    ∃ d, j.HasPart d ∧ decodeRecord.fieldsDecoder value d = .ok r.fields := by
  cases j with
  | array items =>
    obtain ⟨⟨name, fields⟩, hpair, h⟩ := bind_eq_ok_iff.mp h
    obtain ⟨x, y, hitems, -, hy⟩ := pair_eq_ok_iff.mp hpair
    cases h
    exact ⟨y, hitems ▸ .item (by simp), hy⟩
  | object fields =>
    obtain ⟨⟨name, slot⟩, hrun, h⟩ := bind_eq_ok_iff.mp h
    obtain ⟨name, -, h⟩ := bind_eq_ok_iff.mp h
    obtain ⟨given, hgiven, h⟩ := bind_eq_ok_iff.mp h
    cases h
    have hslot := required_eq_ok_iff.mp hgiven
    refine foldlM_keeps (P := fun slots => ∀ given, slots.2 = some given →
        ∃ d, (Json.object fields).HasPart d ∧ decodeRecord.fieldsDecoder value d = .ok given)
      (fun _ hnone => by cases hnone)
      (fun f hf slots next hslots hstep given hgiven => ?_) hrun given hslot
    rcases fields_of_step hstep hgiven with hbefore | hnow
    · exact hslots given hbefore
    · exact ⟨f.2, .field hf, hnow⟩
  | _ => cases h

/-- A value in a decoded record instance is decoded from a part of the tree. -/
theorem exists_of_mem_decodeRecord {r : Record} (h : decodeRecord value j = .ok r)
    {f : String × Value} (hf : f ∈ r.fields) : ∃ d, j.Holds d ∧ value d = .ok f.2 := by
  obtain ⟨d, hd, hfields⟩ := exists_fields_of_decodeRecord h
  obtain ⟨items, rfl, hitems⟩ := list_eq_ok_iff.mp hfields
  -- the field is a pair, whose second item is its value
  obtain ⟨item, hitem, hpair⟩ := exists_of_mem_right hitems hf
  obtain ⟨x, y, rfl, -, hy⟩ := pair_eq_ok_iff.mp hpair
  have hpart : (Json.array [x, y]).HasPart y := .item (by simp)
  exact ⟨y, .head hd (.head (.item hitem) (.single hpart)), hy⟩

end

/-! ## Frames -/

/-- A tree of column names and rows: an object of the two, or a list of them. -/
inductive IsFrameTree (names rows : List Json) : Json → Prop
  /-- The list of the two. -/
  | pair : IsFrameTree names rows (.array [.array names, .array rows])
  /-- An object of the two, among other fields. -/
  | object {fields : List (String × Json)} (hnames : ("columns", .array names) ∈ fields)
    (hrows : ("rows", .array rows) ∈ fields) : IsFrameTree names rows (.object fields)

/-- The rows lie in the tree. -/
theorem IsFrameTree.hasPart_rows {names rows : List Json} {j : Json}
    (h : IsFrameTree names rows j) : j.HasPart (.array rows) := by
  cases h with
  | pair =>
    refine .item ?_
    simp
  | object _ hrows => exact .field hrows

section

variable {value : Decoder Value} {j : Json}

theorem columnsDecoder_eq_ok_iff {columns : List String} :
    decodeFrame.columnsDecoder j = .ok columns ↔ j = .array (columns.map .string) := by
  have hstrings (items : List Json) :
      List.Forall₂ (fun d name => Decoder.string d = .ok name) items columns ↔
        items = columns.map .string := by
    simp only [string_eq_ok_iff]
    rw [← List.forall₂_eq_eq_eq, List.forall₂_map_right_iff]
  rw [decodeFrame.columnsDecoder, list_eq_ok_iff]
  simp only [hstrings, exists_eq_right]

/-- What has been read of a frame's object so far was decoded from its fields. -/
structure SlotsFrom (value : Decoder Value) (fields : List (String × Json))
    (slots : Option (List String) × Option (List (List Value))) : Prop where
  /-- The names of the columns, if they are read. -/
  columns : ∀ columns, slots.1 = some columns →
    ∃ d, ("columns", d) ∈ fields ∧ decodeFrame.columnsDecoder d = .ok columns
  /-- The rows, if they are read. -/
  rows : ∀ rows, slots.2 = some rows →
    ∃ d, ("rows", d) ∈ fields ∧ decodeFrame.rowsDecoder value d = .ok rows

/-- One field more is read. -/
theorem SlotsFrom.step {fields : List (String × Json)}
    {slots next : Option (List String) × Option (List (List Value))} {f : String × Json}
    (hslots : SlotsFrom value fields slots) (hf : f ∈ fields)
    (h : decodeFrame.step value slots f = .ok next) : SlotsFrom value fields next := by
  obtain ⟨name, d⟩ := f
  rw [decodeFrame.step.eq_def] at h
  split at h
  · rename_i hname
    obtain ⟨slot, hslot, h⟩ := bind_eq_ok_iff.mp h
    obtain ⟨-, given, hgiven, rfl⟩ := once_eq_ok_iff.mp hslot
    cases h
    cases hname
    refine ⟨fun columns hcolumns => ⟨d, hf, ?_⟩, hslots.rows⟩
    cases hcolumns
    exact hgiven
  · rename_i hname
    obtain ⟨slot, hslot, h⟩ := bind_eq_ok_iff.mp h
    obtain ⟨-, given, hgiven, rfl⟩ := once_eq_ok_iff.mp hslot
    cases h
    cases hname
    refine ⟨hslots.columns, fun rows hrows => ⟨d, hf, ?_⟩⟩
    cases hrows
    exact hgiven
  · obtain ⟨-, -, h⟩ := bind_eq_ok_iff.mp h
    cases h
    exact hslots

/-- Rows are decoded one by one. -/
theorem exists_of_rowsDecoder {rows : List (List Value)}
    (h : decodeFrame.rowsDecoder value j = .ok rows) :
    ∃ lines, j = .array lines ∧
      List.Forall₂ (fun line row => Decoder.list value line = .ok row) lines rows :=
  list_eq_ok_iff.mp h

/-- A decoded frame has the names that were written, and its rows are decoded from those that were
written. -/
theorem exists_rows_of_decodeFrame {f : Frame} (h : decodeFrame value j = .ok f) :
    ∃ lines, IsFrameTree (f.columns.map .string) lines j ∧
      List.Forall₂ (fun line row => Decoder.list value line = .ok row) lines f.rows := by
  cases j with
  | array items =>
    obtain ⟨⟨columns, cells⟩, hpair, h⟩ := bind_eq_ok_iff.mp h
    obtain ⟨x, y, hitems, hx, hy⟩ := pair_eq_ok_iff.mp hpair
    cases h
    cases columnsDecoder_eq_ok_iff.mp hx
    obtain ⟨lines, rfl, hlines⟩ := exists_of_rowsDecoder hy
    exact ⟨lines, hitems ▸ .pair, hlines⟩
  | object fields =>
    obtain ⟨⟨names, slot⟩, hrun, h⟩ := bind_eq_ok_iff.mp h
    obtain ⟨columns, hcolumns, h⟩ := bind_eq_ok_iff.mp h
    obtain ⟨cells, hcells, h⟩ := bind_eq_ok_iff.mp h
    cases h
    have hstart : SlotsFrom value fields (none, none) := ⟨nofun, nofun⟩
    obtain ⟨hnames, hrows⟩ := foldlM_keeps (P := SlotsFrom value fields) hstart
      (fun f hf slots next hslots hstep => hslots.step hf hstep) hrun
    obtain ⟨names, hnamed, hread⟩ := hnames columns (required_eq_ok_iff.mp hcolumns)
    cases columnsDecoder_eq_ok_iff.mp hread
    obtain ⟨tree, hwritten, hread⟩ := hrows cells (required_eq_ok_iff.mp hcells)
    obtain ⟨lines, rfl, hlines⟩ := exists_of_rowsDecoder hread
    exact ⟨lines, .object hnamed hwritten, hlines⟩
  | _ => cases h

end

/-! ## Values -/

section

variable {value : Decoder Value} {j : Json} {v : Value}

/-- How a container is decoded from a tree. -/
def IsContainerFrom (value : Decoder Value) (j : Json) : Value → Prop
  | .list items => Decoder.list value j = .ok items
  | .map entries => decodeEntries value j = .ok entries
  | .record r => decodeRecord value j = .ok r
  | .frame f => decodeFrame value j = .ok f
  | _ => True

theorem isContainerFrom_of_decodeContent {k : Kind} (h : decodeContent value k j = .ok v) :
    v.IsContainerFrom value j := by
  cases k with
  | null =>
    cases j <;> cases h
    trivial
  | bytes | datetime =>
    obtain ⟨text, -, h⟩ := bind_eq_ok_iff.mp h
    obtain ⟨x, -, rfl⟩ := map_eq_ok_iff.mp h
    trivial
  | list | map | record | frame =>
    obtain ⟨x, hx, rfl⟩ := map_eq_ok_iff.mp h
    exact hx
  | _ =>
    obtain ⟨x, -, rfl⟩ := map_eq_ok_iff.mp h
    trivial

/-- What lies immediately in a decoded container is decoded from a part of the tree. -/
theorem IsContainerFrom.exists_of_hasPart {x : Value} (h : v.IsContainerFrom value j)
    (hx : v.HasPart x) : ∃ d, j.Holds d ∧ value d = .ok x := by
  cases hx with
  | item hx =>
    obtain ⟨items, rfl, hitems⟩ := list_eq_ok_iff.mp h
    obtain ⟨d, hd, hdecoded⟩ := exists_of_mem_right hitems hx
    exact ⟨d, .single (.item hd), hdecoded⟩
  | entry he =>
    obtain ⟨d, hd, hdecoded⟩ := exists_of_mem_decodeEntries h he
    exact ⟨d, .single hd, hdecoded⟩
  | field hf => exact exists_of_mem_decodeRecord h hf
  | cell hrow hx =>
    obtain ⟨lines, htree, hlines⟩ := exists_rows_of_decodeFrame h
    obtain ⟨line, hline, hdecoded⟩ := exists_of_mem_right hlines hrow
    obtain ⟨cells, rfl, hcells⟩ := list_eq_ok_iff.mp hdecoded
    obtain ⟨d, hd, hcell⟩ := exists_of_mem_right hcells hx
    have hbelow : (Json.array lines).Holds d := .head (.item hline) (.single (.item hd))
    exact ⟨d, .head htree.hasPart_rows hbelow, hcell⟩

end

/-- What the fields of a value's object have given so far comes from them. -/
def Progress.IsFrom (levels : Nat) (j : Json) : Progress → Prop
  | .content c => j.HasPart c
  | .both v => ∃ k held c, j.HasPart c ∧ decodeContent (decodeWithin levels held) k c = .ok v
  | _ => True

/-- One field more of a value's object. -/
theorem Progress.IsFrom.step {levels : Nat} {held : Bool} {kind : Decoder Kind}
    {fields : List (String × Json)} {p next : Progress} {f : String × Json}
    (hp : p.IsFrom levels (.object fields)) (hf : f ∈ fields)
    (h : Progress.step kind (decodeContent (decodeWithin levels held))
      (decodeContent (decodeWithin levels true)) p f = .ok next) :
    next.IsFrom levels (.object fields) := by
  have hpart : (Json.object fields).HasPart f.2 := .field hf
  rw [Progress.step.eq_def] at h
  split at h
  -- the kind, in front of its content
  · obtain ⟨k, -, rfl⟩ := map_eq_ok_iff.mp h
    trivial
  -- the kind, behind a content that was kept whole
  · obtain ⟨k, -, h⟩ := bind_eq_ok_iff.mp h
    obtain ⟨v, hv, rfl⟩ := map_eq_ok_iff.mp h
    exact ⟨k, true, _, hp, hv⟩
  -- the content, in front of its kind
  · obtain ⟨c, hc, rfl⟩ := map_eq_ok_iff.mp h
    rw [whole] at hc
    split at hc <;> cases hc
    exact hpart
  -- the content, behind its kind
  · obtain ⟨v, hv, rfl⟩ := map_eq_ok_iff.mp h
    exact ⟨_, held, _, hpart, hv⟩
  -- one of the two once more
  · cases h
  · cases h
  -- a field without a meaning
  · obtain ⟨_, -, rfl⟩ := map_eq_ok_iff.mp h
    exact hp

/-- A decoded value is null, or its content is decoded from a part of the tree. -/
theorem eq_null_or_exists_content {levels : Nat} {held : Bool} {j : Json} {v : Value}
    (h : decodeWithin levels held j = .ok v) :
    v = .null ∨ ∃ levels k held c, j.HasPart c ∧
      decodeContent (decodeWithin levels held) k c = .ok v := by
  rw [decodeWithin.eq_def] at h
  split at h
  · cases h
  -- an object
  · rename_i levels fields
    obtain ⟨p, hrun, hfinish⟩ := bind_eq_ok_iff.mp h
    have hfrom : p.IsFrom levels (.object fields) :=
      foldlM_keeps (P := Progress.IsFrom levels (.object fields)) (b := .nothing) trivial
        (fun f hf p next hp hstep => hp.step hf hstep) hrun
    rw [Progress.finish.eq_def] at hfinish
    split at hfinish
    · cases hfinish
      obtain ⟨k, held, c, hc, hv⟩ := hfrom
      exact .inr ⟨levels, k, held, c, hc, hv⟩
    · cases hfinish
      exact .inl rfl
    · cases hfinish
  -- a list of kind and content
  · rename_i levels k content rest
    obtain ⟨k, -, h⟩ := bind_eq_ok_iff.mp h
    obtain ⟨w, hw, h⟩ := bind_eq_ok_iff.mp h
    split at h
    · cases h
      exact .inr ⟨levels, k, held, content, .item (by simp), hw⟩
    · cases h
  · cases h

/-- Whether a value is what a tree is decoded to, at some place of a document. -/
def IsDecodedFrom (v : Value) (j : Json) : Prop := ∃ levels held, decodeWithin levels held j = .ok v

/-- Whatever lies in a decoded value is decoded from a part of its document. -/
theorem IsDecodedFrom.exists_of_holds {v x : Value} {j : Json} (h : v.IsDecodedFrom j)
    (hx : v.Holds x) : ∃ d, j.Holds d ∧ x.IsDecodedFrom d := by
  induction hx with
  | refl => exact ⟨j, .refl, h⟩
  | tail _ hpart ih =>
    -- the value the part lies in is decoded from `d`, so it is no null
    obtain ⟨d, hd, levels, held, hdecoded⟩ := ih
    rcases eq_null_or_exists_content hdecoded with rfl | ⟨levels, k, held, c, hc, hcontent⟩
    · cases hpart
    · have hcontainer := isContainerFrom_of_decodeContent hcontent
      obtain ⟨e, he, hx⟩ := hcontainer.exists_of_hasPart hpart
      exact ⟨e, hd.trans (.head hc he), levels, held, hx⟩

/-- A row is decoded from the cells of an array. -/
def IsRowFrom (line : Json) (row : List Value) : Prop :=
  ∃ cells, line = .array cells ∧ List.Forall₂ (fun d x => IsDecodedFrom x d) cells row

/-- A row is as long as the array it is decoded from. -/
theorem IsRowFrom.length_eq_iff {line : Json} {row : List Value} (h : IsRowFrom line row)
    (n : Nat) : row.length = n ↔ ∃ cells, line = .array cells ∧ cells.length = n := by
  obtain ⟨cells, rfl, hcells⟩ := h
  rw [← hcells.length_eq]
  constructor
  · exact fun hn => ⟨cells, rfl, hn⟩
  · rintro ⟨_, ⟨⟩, hn⟩
    exact hn

/-- A frame that is decoded is written as a tree of its names and of its rows. -/
theorem IsDecodedFrom.exists_frameTree {f : Frame} {j : Json} (h : (frame f).IsDecodedFrom j) :
    ∃ d lines, j.Holds d ∧ IsFrameTree (f.columns.map .string) lines d ∧
      List.Forall₂ IsRowFrom lines f.rows := by
  obtain ⟨levels, held, hdecoded⟩ := h
  rcases eq_null_or_exists_content hdecoded with hnull | ⟨levels, k, held, c, hc, hcontent⟩
  · cases hnull
  · have hframe : decodeFrame (decodeWithin levels held) c = .ok f :=
      isContainerFrom_of_decodeContent hcontent
    obtain ⟨lines, htree, hlines⟩ := exists_rows_of_decodeFrame hframe
    refine ⟨c, lines, .single hc, htree, hlines.imp fun line row hrow => ?_⟩
    obtain ⟨cells, hline, hcells⟩ := list_eq_ok_iff.mp hrow
    exact ⟨cells, hline, hcells.imp fun d x hx => ⟨levels, held, hx⟩⟩

/-- Rows are all of one length exactly if they are written so. -/
theorem forall_length_eq_iff {lines : List Json} {rows : List (List Value)}
    (h : List.Forall₂ IsRowFrom lines rows) (n : Nat) :
    (∀ row ∈ rows, row.length = n) ↔
      ∀ line ∈ lines, ∃ cells, line = .array cells ∧ cells.length = n := by
  induction h with
  | nil => simp
  | cons hrow _ ih => rw [List.forall_mem_cons, List.forall_mem_cons, ih, hrow.length_eq_iff]

theorem isDecodedFrom_of_parse {text : String} {v : Value} (h : parse text = .ok v) :
    v.IsDecodedFrom (Json.read text).root := by
  obtain ⟨w, hw, h⟩ := bind_eq_ok_iff.mp h
  split at h
  · cases h
    exact ⟨_, _, hw⟩
  · cases h

/-- Every frame in a decoded value, at any depth, is written in the text as a tree of its names and
its rows, row by row and cell by cell. It has one cell for each column in every row exactly if it is
written so: decoding neither fills nor cuts a row, nor refuses a frame for its rows. If the columns
are named apart, the map of a row holds under the name of a column what the column shows there,
unless the row ends before it: then the map lacks the name and the column shows null. So the views
of a decoded frame agree exactly if no row ends before the last column. -/
theorem decoded_frames_are_as_written {text : String} {v : Value} (h : parse text = .ok v)
    {f : Frame} (hf : v.Holds (.frame f)) :
    (∃ d lines, (Json.read text).root.Holds d ∧
      IsFrameTree (f.columns.map .string) lines d ∧ List.Forall₂ IsRowFrom lines f.rows ∧
      (f.IsRectangular ↔
        ∀ line ∈ lines, ∃ cells, line = .array cells ∧ cells.length = f.columns.length)) ∧
    (f.columns.Nodup →
      (∀ (r : Nat) (row : List Value), f.rows[r]? = some row → ∃ entries : Entries Value,
        f.rowMaps[r]? = some (.map entries) ∧
        ∀ (i : Nat) (name : String), f.columns[i]? = some name →
          (f.column i)[r]? = some (row.getD i .null) ∧ Entries.get? name entries = row[i]?) ∧
      (f.ViewsAgree ↔ ∀ row ∈ f.rows, f.columns.length ≤ row.length)) := by
  constructor
  · obtain ⟨j, hj, hframe⟩ := (isDecodedFrom_of_parse h).exists_of_holds hf
    obtain ⟨d, lines, hd, htree, hlines⟩ := hframe.exists_frameTree
    exact ⟨d, lines, hj.trans hd, htree, hlines, forall_length_eq_iff hlines _⟩
  · intro hapart
    exact ⟨fun r row hrow => Frame.exists_rowMap hapart hrow, Frame.viewsAgree_iff hapart⟩

/-- A row with one cell under two columns. -/
theorem decoded_frames_are_as_written_ragged :
    let f : Frame := ⟨["a", "b"], [[.long 1]]⟩
    let v := Value.list [.frame f]
    parse v.toText = .ok v ∧ v.Holds (.frame f) ∧ ¬ f.IsRectangular ∧ f.columns.Nodup ∧
      ¬ f.ViewsAgree := by
  intro f v
  have hv : v.WellFormed := by
    simp only [v, f, WellFormed, ItemsWellFormed, RowsWellFormed, and_self]
  have hfits : v.toJson.depth ≤ Json.nestingLimit := by decide +kernel
  have hread := reads_toJson v (Json.nestingLimit + 1) 0 false hv (Nat.zero_le _) (by omega)
  have hparse : parse v.toText = .ok v :=
    (ofText_toText (isWritable_toJson v) hread).trans (within_of_fits hfits v)
  have hf : v.Holds (.frame f) := .single (.item (by simp))
  have hapart : f.columns.Nodup := by decide
  obtain ⟨-, hviews⟩ := decoded_frames_are_as_written hparse hf
  refine ⟨hparse, hf, ?_, hapart, ?_⟩
  · intro hrectangular
    have hlength := hrectangular [.long 1] (by simp [f])
    simp [f] at hlength
  · rw [(hviews hapart).2]
    simp [f]

end TypedModel.Value
