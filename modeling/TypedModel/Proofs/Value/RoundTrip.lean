import TypedModel.Value.Json
import TypedModel.Proofs.Json.Reads
import TypedModel.Proofs.Text.Base64
import TypedModel.Proofs.Time.Rfc3339
import TypedModel.Proofs.Value.WellFormed

/-!
# Values read back

The document of a value reads back as that value, of whatever kind and however deep, as long as its
containers fit within the nesting limit. Every value in it takes one object, so the levels that the
reader allows are never what stops it.
-/

namespace TypedModel.Value

open Json Decoder Sequence

/-! ## Written values have a text -/

/-- Integers of 64 bits have a form of their own. -/
theorem isWritable_long (n : Int64) : (Json.ofInt n.toInt).isWritable = true := by
  have hlow := n.le_toInt
  have hhigh := n.toInt_lt
  simp only [Json.ofInt, isWritable, Number.isWritable, Bool.and_eq_true, decide_eq_true_eq]
  omega

/-- Doubles have a form of their own, NaN and the infinities a name. -/
theorem isWritable_double (x : Double) : (doubleToJson x).isWritable = true := by
  cases x <;> rfl

/-- A tagged content is writable if the content is. -/
theorem isWritable_tagged (kind : String) {content : Json} (h : content.isWritable = true) :
    (tagged kind content).isWritable = true := by
  simp only [tagged, isWritable, fieldsWritable, h, Bool.and_self]

/-- Lists of strings are writable. -/
theorem itemsWritable_strings (names : List String) :
    itemsWritable (names.map .string) = true := by
  induction names with
  | nil => rfl
  | cons name rest ih => exact ih

mutual

/-- The document of a value is writable. -/
theorem isWritable_toJson : ∀ v : Value, v.toJson.isWritable = true
  | .null | .bool _ | .str _ | .bytes _ | .datetime _ => rfl
  | .long n => isWritable_tagged "long" (isWritable_long n)
  | .double x => isWritable_tagged "double" (isWritable_double x)
  | .list items => isWritable_tagged "list" (itemsWritable_toJson items)
  | .map entries => isWritable_tagged "map" (fieldsWritable_toJson entries)
  | .record ⟨_, fields⟩ => by
    refine isWritable_tagged "record" ?_
    simp only [isWritable, fieldsWritable, pairsWritable_toJson fields, Bool.and_self]
  | .frame ⟨columns, rows⟩ => by
    refine isWritable_tagged "frame" ?_
    simp only [isWritable, fieldsWritable, itemsWritable_strings columns,
      rowsWritable_toJson rows, Bool.and_self]

/-- The documents of items are writable. -/
theorem itemsWritable_toJson : ∀ items : List Value, itemsWritable (itemsToJson items) = true
  | [] => rfl
  | item :: rest => by
    rw [itemsToJson, itemsWritable, isWritable_toJson item, itemsWritable_toJson rest]
    rfl

/-- The fields of a map are writable. -/
theorem fieldsWritable_toJson : ∀ entries : List (String × Value),
    fieldsWritable (entriesToJson entries) = true
  | [] => rfl
  | (_, value) :: rest => by
    rw [entriesToJson, fieldsWritable, isWritable_toJson value, fieldsWritable_toJson rest]
    rfl

/-- The fields of a record instance are writable. -/
theorem pairsWritable_toJson : ∀ fields : List (String × Value),
    itemsWritable (fieldsToJson fields) = true
  | [] => rfl
  | (_, value) :: rest => by
    simp only [fieldsToJson, itemsWritable, isWritable, isWritable_toJson value,
      pairsWritable_toJson rest, Bool.and_self]

/-- The rows of a frame are writable. -/
theorem rowsWritable_toJson : ∀ rows : List (List Value), itemsWritable (rowsToJson rows) = true
  | [] => rfl
  | row :: rest => by
    simp only [rowsToJson, itemsWritable, isWritable, itemsWritable_toJson row,
      rowsWritable_toJson rest, Bool.and_self]

end

/-! ## Contents -/

/-- An object of a kind and a content is read as the content of that kind. -/
theorem reads_tagged {levels outer : Nat} {held : Bool} {kind : String} {k : Kind}
    {content : Json} {v : Value} (hk : Kind.options.lookup kind = some k)
    (h : outer < nestingLimit →
      Reads (decodeContent (decodeWithin levels held) k) (outer + 1) content v) :
    Reads (decodeWithin (levels + 1) held) outer (tagged kind content) v := by
  refine reads_object rfl fun hlimit => ?_
  have hcontent := h hlimit
  have hkind : nullary Kind.options held (.string kind) = .ok k := by rw [nullary, hk]; rfl
  rw [Reads] at hcontent
  simp only [cutFields, cut, decodeWithin, List.foldlM_cons, List.foldlM_nil, Progress.step, hkind,
    fieldsDepth, depth]
  show ((Except.map Progress.both (decodeContent (decodeWithin levels held) k
    (content.cut (outer + 1))) >>= pure) >>= Progress.finish) = _
  rw [hcontent]
  exact apply_within (f := fun x => (Except.map Progress.both x >>= pure) >>= Progress.finish)
    rfl rfl (by omega)

/-- An entry behind all others is inserted at the end. -/
theorem insert_eq_append {acc : Entries Value} {name : String} (value : Value)
    (h : ∀ e ∈ acc, e.1 < name) : Entries.insert name value acc = acc ++ [(name, value)] := by
  induction acc with
  | nil => rfl
  | cons e rest ih =>
    obtain ⟨other, old⟩ := e
    have hlt := h (other, old) List.mem_cons_self
    have hne : name ≠ other := fun he => String.lt_irrefl _ (he ▸ hlt)
    have hrest := ih fun e he => h e (List.mem_cons_of_mem _ he)
    rw [Entries.insert, if_neg (String.lt_asymm hlt), if_neg hne, hrest]
    rfl

/-- A field is read as an entry. -/
def ReadsEntry (value : Decoder Value) (outer : Nat) (f : String × Json) (e : String × Value) :
    Prop :=
  f.1 = e.1 ∧ Reads value outer f.2 e.2

/-- Fields whose names ascend are read behind the entries before them. -/
theorem foldlM_insert {value : Decoder Value} {outer : Nat} {fields : List (String × Json)}
    {acc entries : Entries Value} (ho : outer ≤ nestingLimit)
    (hsorted : Entries.IsSorted (acc ++ entries))
    (h : List.Forall₂ (ReadsEntry value outer) fields entries) :
    (cutFields outer fields).foldlM
        (fun entries f => (value f.2).map fun v => Entries.insert f.1 v entries) acc =
      within (outer + fieldsDepth fields ≤ nestingLimit) (acc ++ entries) := by
  induction h generalizing acc with
  | nil =>
    rw [List.append_nil]
    exact (within_of_fits ho acc).symm
  | @cons f e fields entries hfirst hrest ih =>
    obtain ⟨name, j⟩ := f
    obtain ⟨_, v⟩ := e
    obtain ⟨rfl, hread⟩ := hfirst
    have hlast : ∀ a ∈ acc, a.1 < name := fun a ha =>
      (List.pairwise_append.mp hsorted).2.2 a ha (name, v) List.mem_cons_self
    have hsplit : acc ++ (name, v) :: entries = acc ++ [(name, v)] ++ entries := by
      rw [List.append_assoc, List.singleton_append]
    have htail := @ih (acc ++ [(name, v)]) (by rwa [← hsplit])
    rw [Reads] at hread
    rw [cutFields, List.foldlM_cons, fieldsDepth, hsplit]
    simp only [hread, map_within, insert_eq_append v hlast]
    exact within_bind (q := outer + fieldsDepth fields ≤ nestingLimit) (fun _ => htail) (by omega)

/-- A map is read from its fields. -/
theorem reads_entries {value : Decoder Value} {outer : Nat} {fields : List (String × Json)}
    {entries : Entries Value} (hsorted : Entries.IsSorted entries)
    (h : outer < nestingLimit → List.Forall₂ (ReadsEntry value (outer + 1)) fields entries) :
    Reads (decodeEntries value) outer (.object fields) entries :=
  reads_object rfl fun hlimit => foldlM_insert hlimit hsorted (h hlimit)

/-- A record instance is read from its name and its pairs. -/
theorem reads_record {value : Decoder Value} {outer : Nat} {name : String} {pairs : List Json}
    {fields : List (String × Value)}
    (h : outer < nestingLimit →
      Reads (decodeRecord.fieldsDecoder value) (outer + 1) (.array pairs) fields) :
    Reads (decodeRecord value) outer
      (.object [("name", .string name), ("fields", .array pairs)]) ⟨name, fields⟩ := by
  refine reads_object rfl fun hlimit => ?_
  have hfields := once_reads (h hlimit)
  show (((once none (decodeRecord.fieldsDecoder value) ((Json.array pairs).cut (outer + 1)) >>=
    fun slot => .ok (some name, slot)) >>= pure) >>= fun slots => required slots.1 >>=
      fun name => required slots.2 >>= fun fields => .ok (Record.mk name fields)) = _
  rw [hfields]
  by_cases hfits : outer + 1 + (Json.array pairs).depth ≤ nestingLimit
  · rw [within_of_fits hfits, within_of_fits (by simp only [fieldsDepth, depth] at hfits ⊢; omega)]
    rfl
  · rw [within_of_not hfits, within_of_not (by simp only [fieldsDepth, depth] at hfits ⊢; omega)]
    rfl

/-- A frame is read from its columns and its rows. -/
theorem reads_frame {value : Decoder Value} {outer : Nat} {names rows : List Json}
    {columns : List String} {cells : List (List Value)}
    (hcolumns : outer < nestingLimit →
      Reads decodeFrame.columnsDecoder (outer + 1) (.array names) columns)
    (hrows : outer < nestingLimit →
      Reads (decodeFrame.rowsDecoder value) (outer + 1) (.array rows) cells) :
    Reads (decodeFrame value) outer
      (.object [("columns", .array names), ("rows", .array rows)]) ⟨columns, cells⟩ := by
  refine reads_object rfl fun hlimit => ?_
  have hfirst := once_reads (hcolumns hlimit)
  have hsecond := once_reads (hrows hlimit)
  by_cases hc : outer + 1 + (Json.array names).depth ≤ nestingLimit
  · rw [within_of_fits hc] at hfirst
    simp only [cutFields, decodeFrame, List.foldlM_cons, decodeFrame.step, hfirst]
    show (((once none (decodeFrame.rowsDecoder value) ((Json.array rows).cut (outer + 1)) >>=
      fun slot => .ok (some columns, slot)) >>= pure) >>= fun slots => required slots.1 >>=
        fun columns => required slots.2 >>= fun rows => .ok (Frame.mk columns rows)) = _
    rw [hsecond]
    by_cases hr : outer + 1 + (Json.array rows).depth ≤ nestingLimit
    · rw [within_of_fits hr, within_of_fits (by simp only [fieldsDepth, depth] at hc hr ⊢; omega)]
      rfl
    · rw [within_of_not hr, within_of_not (by simp only [fieldsDepth, depth] at hc hr ⊢; omega)]
      rfl
  · rw [within_of_not hc] at hfirst
    simp only [cutFields, decodeFrame, List.foldlM_cons, decodeFrame.step, hfirst]
    rw [within_of_not (by simp only [fieldsDepth, depth] at hc ⊢; omega)]
    rfl

/-- A column name is read. -/
theorem reads_columns {outer : Nat} (names : List String) :
    Reads decodeFrame.columnsDecoder outer (.array (names.map .string)) names := by
  refine reads_list fun hlimit => ?_
  induction names with
  | nil => exact .nil
  | cons name rest ih => exact .cons (reads_leaf hlimit rfl rfl) ih

/-! ## Values -/

/-- A double is read from its content. -/
theorem decodeDouble_doubleToJson (x : Double) : decodeDouble (doubleToJson x) = .ok x := by
  rcases x with - | ⟨- | -⟩ | ⟨negative, rank⟩ <;> rfl

/-- An integer is read from its content. -/
theorem decodeLong_ofInt (n : Int64) : decodeLong (.ofInt n.toInt) = .ok n := by
  have hlow := n.minValue_le_toInt
  have hhigh := n.toInt_le
  rw [Json.ofInt, decodeLong, if_pos ⟨hlow, hhigh⟩, Int64.ofInt_toInt]

/-- Octets are read from their content. -/
theorem decode_bytes {value : Decoder Value} (octets : List UInt8) :
    decodeContent value .bytes (.string (String.ofList (Text.base64Encode octets))) =
      .ok (.bytes octets) := by
  simp only [decodeContent, Decoder.string, ok_bind, String.toList_ofList,
    Text.base64Decode?_encode, Decoder.required]
  rfl

/-- An instant is read from its content. -/
theorem decode_datetime {value : Decoder Value} {t : Instant} (h : (Value.datetime t).WellFormed) :
    decodeContent value .datetime (.string (Time.render "Z" t)) = .ok (.datetime t) := by
  simp only [decodeContent, Decoder.string, ok_bind, Time.parse?_render h, Decoder.required]
  rfl

mutual

/-- The document of a value is read as the value. -/
theorem reads_toJson : ∀ (v : Value) (levels outer : Nat) (held : Bool), v.WellFormed →
    outer ≤ nestingLimit → nestingLimit < levels + outer →
    Reads (decodeWithin levels held) outer v.toJson v
  | v, 0, outer, held, hv, ho, hl => absurd hl (by omega)
  | .null, levels + 1, outer, held, hv, ho, hl =>
    reads_object rfl fun hlimit => (within_of_fits hlimit _).symm
  | .bool b, levels + 1, outer, held, hv, ho, hl =>
    reads_tagged (k := .bool) rfl fun hlimit => reads_leaf hlimit rfl rfl
  | .long n, levels + 1, outer, held, hv, ho, hl =>
    reads_tagged (k := .long) rfl fun hlimit =>
      reads_leaf hlimit rfl (congrArg (Except.map _) (decodeLong_ofInt n))
  | .double x, levels + 1, outer, held, hv, ho, hl =>
    reads_tagged (k := .double) rfl fun hlimit =>
      reads_leaf hlimit (by cases x <;> rfl)
        (congrArg (Except.map _) (decodeDouble_doubleToJson x))
  | .str s, levels + 1, outer, held, hv, ho, hl =>
    reads_tagged (k := .str) rfl fun hlimit => reads_leaf hlimit rfl rfl
  | .bytes octets, levels + 1, outer, held, hv, ho, hl =>
    reads_tagged (k := .bytes) rfl fun hlimit => reads_leaf hlimit rfl (decode_bytes octets)
  | .datetime t, levels + 1, outer, held, hv, ho, hl =>
    reads_tagged (k := .datetime) rfl fun hlimit => reads_leaf hlimit rfl (decode_datetime hv)
  | .list items, levels + 1, outer, held, hv, ho, hl =>
    reads_tagged (k := .list) rfl fun hlimit =>
      (reads_list fun hlimit' =>
        reads_itemsToJson items levels (outer + 1 + 1) held hv hlimit' (by omega)).map Value.list
  | .map entries, levels + 1, outer, held, hv, ho, hl =>
    reads_tagged (k := .map) rfl fun hlimit =>
      (reads_entries hv.1 fun hlimit' =>
        reads_entriesToJson entries levels (outer + 1 + 1) held hv.2 hlimit' (by omega)).map Value.map
  | .record ⟨name, fields⟩, levels + 1, outer, held, hv, ho, hl =>
    reads_tagged (k := .record) rfl fun hlimit =>
      (reads_record fun hlimit' => reads_list fun hlimit'' =>
        reads_fieldsToJson fields levels (outer + 1 + 1 + 1) held hv hlimit'' (by omega)).map Value.record
  | .frame ⟨columns, rows⟩, levels + 1, outer, held, hv, ho, hl =>
    reads_tagged (k := .frame) rfl fun hlimit =>
      (reads_frame (fun hlimit' => reads_columns columns) fun hlimit' => reads_list fun hlimit'' =>
        reads_rowsToJson rows levels (outer + 1 + 1 + 1) held hv hlimit'' (by omega)).map Value.frame

/-- The documents of items are read as the items. -/
theorem reads_itemsToJson : ∀ (items : List Value) (levels outer : Nat) (held : Bool),
    ItemsWellFormed items → outer ≤ nestingLimit → nestingLimit < levels + outer →
    List.Forall₂ (Reads (decodeWithin levels held) outer) (itemsToJson items) items
  | [], _, _, _, _, _, _ => .nil
  | item :: rest, levels, outer, held, hv, ho, hl =>
    .cons (reads_toJson item levels outer held hv.1 ho hl)
      (reads_itemsToJson rest levels outer held hv.2 ho hl)

/-- The fields of a map are read as its entries. -/
theorem reads_entriesToJson : ∀ (entries : List (String × Value)) (levels outer : Nat)
    (held : Bool), EntriesWellFormed entries → outer ≤ nestingLimit →
    nestingLimit < levels + outer →
    List.Forall₂ (ReadsEntry (decodeWithin levels held) outer) (entriesToJson entries) entries
  | [], _, _, _, _, _, _ => .nil
  | (_, value) :: rest, levels, outer, held, hv, ho, hl =>
    .cons ⟨rfl, reads_toJson value levels outer held hv.1 ho hl⟩
      (reads_entriesToJson rest levels outer held hv.2 ho hl)

/-- The pairs of a record instance are read as its fields. -/
theorem reads_fieldsToJson : ∀ (fields : List (String × Value)) (levels outer : Nat)
    (held : Bool), EntriesWellFormed fields → outer ≤ nestingLimit →
    nestingLimit < levels + outer →
    List.Forall₂ (Reads (pair Decoder.string (decodeWithin levels held)) outer)
      (fieldsToJson fields) fields
  | [], _, _, _, _, _, _ => .nil
  | (_, value) :: rest, levels, outer, held, hv, ho, hl =>
    .cons
      (reads_pair (fun hlimit => reads_leaf hlimit rfl rfl) fun hlimit =>
        reads_toJson value levels (outer + 1) held hv.1 hlimit (by omega))
      (reads_fieldsToJson rest levels outer held hv.2 ho hl)

/-- The rows of a frame are read as its rows. -/
theorem reads_rowsToJson : ∀ (rows : List (List Value)) (levels outer : Nat) (held : Bool),
    RowsWellFormed rows → outer ≤ nestingLimit → nestingLimit < levels + outer →
    List.Forall₂ (Reads (Decoder.list (decodeWithin levels held)) outer) (rowsToJson rows) rows
  | [], _, _, _, _, _, _ => .nil
  | row :: rest, levels, outer, held, hv, ho, hl =>
    .cons
      (reads_list fun hlimit =>
        reads_itemsToJson row levels (outer + 1) held hv.1 hlimit (by omega))
      (reads_rowsToJson rest levels outer held hv.2 ho hl)

end

/-! ## Texts -/

/-- The text of a value, on one line or on lines of its own, is decoded as that value, the same in
every part, as long as its containers lie at most as deep in each other as the nesting limit
allows. A text that nests deeper is no value. -/
theorem parse_toText (v : Value) (hv : v.WellFormed) :
    (v.toJson.depth ≤ nestingLimit →
      parse v.toText = .ok v ∧ ofText decoder v.toJson.toIndentedText = .ok v) ∧
    (nestingLimit < v.toJson.depth →
      parse v.toText = .error .malformed ∧
        ofText decoder v.toJson.toIndentedText = .error .malformed) := by
  have hread : Reads decoder 0 v.toJson v :=
    reads_toJson v (nestingLimit + 1) 0 false hv (Nat.zero_le _) (by omega)
  have hline : parse v.toText = _ := ofText_toText (isWritable_toJson v) hread
  have hlines := ofText_toIndentedText (isWritable_toJson v) hread
  constructor
  · intro hfits
    rw [hline, hlines, within_of_fits hfits]
    exact ⟨rfl, rfl⟩
  · intro hdeep
    have hnot : ¬ v.toJson.depth ≤ nestingLimit := Nat.not_le.mpr hdeep
    rw [hline, hlines, within_of_not hnot]
    exact ⟨rfl, rfl⟩

/-- Values that look alike in a document, a record that repeats a name and a frame of ragged rows
around an instant of the year 9999. -/
theorem parse_toText_lookalikes :
    let t : Instant := ⟨253402300799, 999999999, by decide, by decide⟩
    let v := Value.list
      [.str "NaN", .double .nan, .long 1, .double (.ofInt 1), .double (.zero true),
        .record ⟨"R", [("a", .str "null"), ("a", .null), ("", .bytes [0, 255])]⟩,
        .frame ⟨["c", "c"], [[.null], [], [.map [("k", .datetime t), ("kind", .str "long")]]]⟩]
    v.WellFormed ∧ v.toJson.depth ≤ nestingLimit ∧ parse v.toText = .ok v ∧
      ofText decoder v.toJson.toIndentedText = .ok v := by
  intro t v
  have hv : v.WellFormed := by
    have hnames : Entries.IsSorted [("k", Value.datetime t), ("kind", Value.str "long")] := by
      simp only [Entries.IsSorted, List.pairwise_pair]
      decide
    have hyear : Time.isYearInRange t.date.year = true := by decide
    simp only [v, WellFormed, ItemsWellFormed, EntriesWellFormed, RowsWellFormed, hnames, hyear,
      and_self]
  have hfits : v.toJson.depth ≤ nestingLimit := by decide +kernel
  exact ⟨hv, hfits, (parse_toText v hv).1 hfits⟩

end TypedModel.Value
