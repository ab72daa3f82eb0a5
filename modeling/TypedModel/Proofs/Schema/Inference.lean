import TypedModel.Schema.OfExample
import TypedModel.Proofs.Schema.Fits

/-!
# Two routes to one schema

A schema is inferred from a hint, or from an example. The main statement is that the two routes
meet: where a hint leaves nothing open, the schema of what coercion makes of a value is the schema of the
hint. What is left open otherwise is which member of a union was meant, whether a field was given,
and what an empty list or dict would hold.
-/

namespace TypedModel

namespace Value

/-- Lists and maps without a part that a type could be inferred from. -/
def isEmptyContainer : Value → Bool
  | .list items => items.isEmpty
  | .map entries => entries.isEmpty
  | _ => false

/-- Whether no empty list or map is reached. -/
def isFilled (v : Value) : Bool := v.throughout fun x => !x.isEmptyContainer

/-- A list is filled if it has items and its items are filled. -/
theorem isFilled_list {items : List Value} :
    (Value.list items).isFilled = true ↔ items ≠ [] ∧ ∀ item ∈ items, item.isFilled = true := by
  simp only [isFilled, throughout, isEmptyContainer, Bool.and_eq_true, Bool.not_eq_true',
    List.isEmpty_eq_false_iff, itemsThroughout_iff]

/-- A map is filled if it has entries and its values are filled. -/
theorem isFilled_map {entries : Entries Value} :
    (Value.map entries).isFilled = true ↔ entries ≠ [] ∧ ∀ e ∈ entries, e.2.isFilled = true := by
  simp only [isFilled, throughout, isEmptyContainer, Bool.and_eq_true, Bool.not_eq_true',
    List.isEmpty_eq_false_iff, entriesThroughout_iff]

/-- A value has a type of its own: one is inferred from it, and it is neither null, which fits
everywhere, nor a frame, which is a batch of values. -/
structure IsTyped (v : Value) (t : ColType) : Prop where
  /-- The type is inferred. -/
  colType : v.colType = .ok t
  /-- The value is not null. -/
  notNull : v.isNull = false
  /-- The value stands for one column. -/
  notFrame : ∀ f, v ≠ .frame f

/-- A value with a type of its own has the schema of one column of that type. -/
theorem IsTyped.schema {v : Value} {t : ColType} (h : v.IsTyped t) :
    v.schema = .ok (.single t) := by
  cases v with
  | null => cases h.notNull
  | frame f => exact absurd rfl (h.notFrame f)
  | _ => simp only [Value.schema, h.colType]

/-- An item that is not null is typed and compared with what was met before it. -/
theorem unifyItems_cons {soFar : Option ColType} {item : Value} {rest : List Value}
    (hitem : item.isNull = false) :
    unifyItems soFar (item :: rest) =
      item.colType >>= fun type =>
        (commonType soFar type).elim (.ok .any) fun type => unifyItems (some type) rest := by
  rw [unifyItems, hitem]
  simp only [Bool.false_eq_true, if_false]
  cases item.colType with
  | error reason => rfl
  | ok type =>
    simp only [Sequence.ok_bind]
    cases commonType soFar type <;> rfl

/-- Items of one type leave it to the items behind them, whether it was met before or not. -/
theorem unifyItems_append {t : ColType} {soFar : Option ColType} {before : List Value}
    (hsoFar : soFar = some t ∨ soFar = none ∧ before ≠ [])
    (hpresent : ∀ item ∈ before, item.isNull = false)
    (h : ∀ item ∈ before, item.colType = .ok t) (rest : List Value) :
    unifyItems soFar (before ++ rest) = unifyItems (some t) rest := by
  induction before generalizing soFar with
  | nil =>
    rcases hsoFar with rfl | ⟨-, hne⟩
    · rfl
    · exact absurd rfl hne
  | cons item before ih =>
    obtain ⟨hitem, hbefore⟩ := List.forall_mem_cons.mp h
    obtain ⟨hitemPresent, hbeforePresent⟩ := List.forall_mem_cons.mp hpresent
    have hcommon : commonType soFar t = some t := by
      rcases hsoFar with rfl | ⟨rfl, -⟩
      · exact if_pos rfl
      · rfl
    rw [List.cons_append, unifyItems_cons hitemPresent, hitem, Sequence.ok_bind, hcommon]
    exact ih (.inl rfl) hbeforePresent hbefore

/-- Items of one type have it in common, whether it was met before or not. -/
theorem unifyItems_of_isTyped {t : ColType} {soFar : Option ColType} {items : List Value}
    (hsoFar : soFar = some t ∨ soFar = none ∧ items ≠ []) (h : ∀ item ∈ items, item.IsTyped t) :
    unifyItems soFar items = .ok t := by
  have hitems := unifyItems_append hsoFar (fun item hi => (h item hi).notNull)
    (fun item hi => (h item hi).colType) []
  rw [List.append_nil] at hitems
  exact hitems

/-- The common type of entries is that of their values. -/
theorem unifyEntries_eq (soFar : Option ColType) (entries : Entries Value) :
    unifyEntries soFar entries = unifyItems soFar (entries.map Prod.snd) := by
  induction entries generalizing soFar with
  | nil => rfl
  | cons e rest ih =>
    simp only [unifyEntries, List.map_cons, unifyItems, ih]

/-- A list of items of one type is an array of it. -/
theorem isTyped_list {t : ColType} {items : List Value} (hne : items ≠ [])
    (h : ∀ item ∈ items, item.IsTyped t) : (Value.list items).IsTyped (.array t) where
  colType := by
    rw [Value.colType, if_neg (by simpa using hne), unifyItems_of_isTyped (.inr ⟨rfl, hne⟩) h]
    rfl
  notNull := rfl
  notFrame := nofun

/-- A map to values of one type is a map of it. -/
theorem isTyped_map {t : ColType} {entries : Entries Value} (hne : entries ≠ [])
    (h : ∀ e ∈ entries, e.2.IsTyped t) : (Value.map entries).IsTyped (.map t) where
  colType := by
    have hvalues : entries.map Prod.snd ≠ [] := by simpa using hne
    rw [Value.colType, if_neg (by simpa using hne), unifyEntries_eq,
      unifyItems_of_isTyped (.inr ⟨rfl, hvalues⟩) (List.forall_mem_map.mpr h)]
    rfl
  notNull := rfl
  notFrame := nofun

end Value

namespace TypeHint

mutual

/-- Hints that leave nothing open: scalars, lists, dicts of texts, and records that require all of
their fields. -/
def IsDefinite : TypeHint → Prop
  | .scalar _ => True
  | .list element => IsDefinite element
  | .dict key element => key = .scalar .str ∧ IsDefinite element
  | .record ⟨_, fields⟩ => FieldsDefinite fields
  | _ => False
termination_by structural h => h

/-- Fields that are required and leave nothing open. -/
def FieldsDefinite : List FieldSpec → Prop
  | [] => True
  | ⟨_, hint, default?⟩ :: rest => default? = Option.none ∧ IsDefinite hint ∧ FieldsDefinite rest
termination_by structural fields => fields

end

/-- A scalar of a kind has the data type of the kind. -/
theorem isTyped_of_admits {kind : ScalarKind} {v : Value} (h : kind.admits v = true) :
    v.IsTyped (.scalar kind.dataType) := by
  cases kind <;> cases v <;> first | exact ⟨rfl, rfl, nofun⟩ | cases h

/-- A definite hint is not one that is made optional. -/
theorem optional?_of_isDefinite {h : TypeHint} (hh : h.IsDefinite) : h.optional? = Option.none := by
  cases h with
  | union members => exact hh.elim
  | _ => rfl

/-! ## Definite hints -/

mutual

/-- A definite hint has a type. -/
theorem exists_colType : ∀ h : TypeHint, h.IsDefinite → ∃ t, h.colType = .ok t
  | .any, hh | .none, hh | .union _, hh | .frame, hh | .foreign _, hh => hh.elim
  | .scalar kind, _ => ⟨_, rfl⟩
  | .list element, hh => by
    obtain ⟨t, ht⟩ := exists_colType element hh
    exact ⟨.array t, by rw [colType, ht]; rfl⟩
  | .dict key element, hh => by
    obtain ⟨t, ht⟩ := exists_colType element hh.2
    exact ⟨.map t, by rw [colType, hh.1, ht]; rfl⟩
  | .record ⟨_, fields⟩, hh => by
    obtain ⟨properties, hproperties⟩ := exists_fieldTypes fields hh
    exact ⟨.object properties, by rw [colType, hproperties]; rfl⟩

/-- Definite fields have properties. -/
theorem exists_fieldTypes : ∀ fields : List FieldSpec, FieldsDefinite fields →
    ∃ properties, fieldTypes fields = .ok properties
  | [], _ => ⟨[], rfl⟩
  | ⟨name, hint, default?⟩ :: rest, hh => by
    obtain ⟨t, ht⟩ := exists_colType hint hh.2.1
    obtain ⟨properties, hproperties⟩ := exists_fieldTypes rest hh.2.2
    exact ⟨_, by rw [fieldTypes, ht, hproperties]; rfl⟩

end

mutual

/-- What a definite hint makes of a filled value has the type of the hint. -/
theorem isTyped_of_plain : ∀ (h : TypeHint) (t : ColType) (v w : Value), h.IsDefinite →
    h.colType = .ok t → v.instanceFree = true → v.isFilled = true → h.plain v = some w →
    w.IsTyped t
  | .any, _, _, _, hh, _, _, _, _ | .none, _, _, _, hh, _, _, _, _
  | .union _, _, _, _, hh, _, _, _, _ | .frame, _, _, _, hh, _, _, _, _
  | .foreign _, _, _, _, hh, _, _, _, _ => hh.elim
  | .scalar kind, t, v, w, _, ht, _, _, h => by
    cases ht
    exact isTyped_of_admits (admits_of_plainScalar h)
  | .list element, t, v, w, hh, ht, hv, hf, h => by
    obtain ⟨type, htype, rfl⟩ := Sequence.map_eq_ok_iff.mp ht
    obtain ⟨items, rfl, results, hrun, rfl⟩ := exists_list_of_plain hv h
    obtain ⟨hne, hfilled⟩ := Value.isFilled_list.mp hf
    have hfree := Value.instanceFree_list.mp hv
    have hresults : results ≠ [] := by
      rintro rfl
      exact hne (List.forall₂_nil_right_iff.mp hrun)
    refine Value.isTyped_list hresults fun result hresult => ?_
    obtain ⟨item, hi, hp⟩ := Sequence.exists_of_mem_right hrun hresult
    exact isTyped_of_plain element type item result hh htype (hfree item hi) (hfilled item hi) hp
  | .dict key element, t, v, w, hh, ht, hv, hf, h => by
    rw [colType, hh.1] at ht
    obtain ⟨type, htype, rfl⟩ := Sequence.map_eq_ok_iff.mp ht
    obtain ⟨entries, rfl, h⟩ := exists_map_of_plainRows hv h
    obtain ⟨results, hr, rfl⟩ := Option.map_eq_some_iff.mp h
    have hrun := Sequence.mapM_eq_some_iff.mp hr
    obtain ⟨hne, hfilled⟩ := Value.isFilled_map.mp hf
    have hfree := Value.instanceFree_map.mp hv
    have hresults : results ≠ [] := by
      rintro rfl
      exact hne (List.forall₂_nil_right_iff.mp hrun)
    refine Value.isTyped_map hresults fun result hresult => ?_
    obtain ⟨e, he, hentry⟩ := Sequence.exists_of_mem_right hrun hresult
    obtain ⟨value, hp, rfl⟩ := Option.map_eq_some_iff.mp hentry
    exact isTyped_of_plain element type e.2 value hh.2 htype (hfree e he) (hfilled e he) hp
  | .record ⟨name, fields⟩, t, v, w, hh, ht, hv, hf, h => by
    obtain ⟨properties, hproperties, rfl⟩ := Sequence.map_eq_ok_iff.mp ht
    obtain ⟨entries, rfl, values, hvalues, rfl⟩ := exists_fields_of_plain hv h
    have htypes := fieldTypes_of_plainFields fields properties entries values hh hproperties
      (Value.instanceFree_map.mp hv) (Value.isFilled_map.mp hf).2 hvalues
    exact ⟨by rw [Value.colType, htypes]; rfl, rfl, nofun⟩

/-- The values that definite fields are given have the properties of the fields. -/
theorem fieldTypes_of_plainFields : ∀ (fields : List FieldSpec) (properties : List Property)
    (entries : Entries Value) (values : List (String × Value)), FieldsDefinite fields →
    fieldTypes fields = .ok properties → (∀ e ∈ entries, e.2.instanceFree = true) →
    (∀ e ∈ entries, e.2.isFilled = true) → plainFields fields entries = some values →
    Value.fieldTypes values = .ok properties
  | [], _, _, _, _, ht, _, _, h => by
    cases ht
    cases h
    rfl
  | ⟨name, hint, default?⟩ :: rest, properties, entries, values, hh, ht, hv, hf, h => by
    obtain ⟨hdefault, hhint, hrest⟩ := hh
    obtain ⟨type, htype, ht⟩ := Sequence.bind_eq_ok_iff.mp ht
    obtain ⟨others, hothers, ht⟩ := Sequence.bind_eq_ok_iff.mp ht
    cases ht
    obtain ⟨value, later, rfl, hvalue, hlater⟩ := plainFields_cons_eq_some_iff.mp h
    have hlaterTypes :=
      fieldTypes_of_plainFields rest others entries later hrest hothers hv hf hlater
    -- the field is given, since it has no default
    cases hg : entries.get? name with
    | none => simp [hg, hdefault] at hvalue
    | some given =>
      simp only [hg] at hvalue
      have hmem := Entries.mem_of_get? hg
      have hvalueType := isTyped_of_plain hint type given value hhint htype (hv _ hmem)
        (hf _ hmem) hvalue
      simp only [Value.fieldTypes, hvalueType.colType, hvalueType.notNull, hlaterTypes, hdefault]
      rfl

end

/-- The two routes to a schema meet: where a hint leaves nothing open, and a value without frames
and record instances is nowhere empty, the coerced value has the schema of the hint. -/
theorem inference_routes_agree (h : TypeHint) (v w : Value) (hh : h.IsDefinite)
    (hv : v.instanceFree = true) (hf : v.isFilled = true) (hc : h.coerce v = .ok w) :
    ∃ s, h.schema = .ok s ∧ w.schema = .ok s := by
  obtain ⟨t, ht⟩ := exists_colType h hh
  refine ⟨.single t, ?_, ?_⟩
  · simp only [schema, ht, optional?_of_isDefinite hh]
    rfl
  · exact (isTyped_of_plain h t v w hh ht hv hf (coerce_eq_ok_iff.mp hc)).schema

/-- Points with a widened and an exact coordinate, and a name that no field has: both routes give
maps to lists of objects. -/
theorem inference_routes_agree_points :
    let point : RecordDef := ⟨"Point",
      [⟨"x", .scalar .float, Option.none⟩, ⟨"tags", .list (.scalar .str), Option.none⟩]⟩
    let h := TypeHint.dict (.scalar .str) (.list (.record point))
    let given := Value.map [("p", .list
      [.map [("tags", .list [.str "a"]), ("x", .long 2)],
        .map [("more", .null), ("tags", .list [.str "b"]), ("x", .double (.ofInt 1))]])]
    let result := Value.map [("p", .list
      [.record ⟨"Point", [("x", .double (.ofInt 2)), ("tags", .list [.str "a"])]⟩,
        .record ⟨"Point", [("x", .double (.ofInt 1)), ("tags", .list [.str "b"])]⟩])]
    h.IsDefinite ∧ given.instanceFree = true ∧ given.isFilled = true ∧ h.coerce given = .ok result ∧
      ∃ s, h.schema = .ok s ∧ result.schema = .ok s := by
  intro point h given result
  have hh : h.IsDefinite := ⟨rfl, rfl, trivial, rfl, trivial, trivial⟩
  have hc : h.coerce given = .ok result := rfl
  exact ⟨hh, rfl, rfl, hc, inference_routes_agree h given result hh rfl rfl hc⟩

end TypeHint

end TypedModel
