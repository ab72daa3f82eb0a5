import TypedModel.Proofs.Value.Typing

/-!
# Schemas of examples

What the schema of an example says of it. The main statements are that the schema describes the
example, that there is none exactly for null, for a frame without columns and where an empty list or
map is met, and that the order of the items of a list does not matter to it, unless two items have
different types and another one has none: then the empty list or map is met in some orders only.
-/

namespace TypedModel

namespace Value

section

variable {v : Value} (hframe : ∀ f, v ≠ .frame f)

include hframe

theorem schema_of_ne_null (hnull : v ≠ .null) :
    v.schema = (v.colType.map Schema.single).mapError SchemaError.inferenceFailed := by
  rw [schema]
  · cases v.colType <;> rfl
  · exact hframe
  · exact hnull

/-- An example that is no frame has the schema of one column of its type. -/
theorem schema_eq_ok_iff {s : Schema} :
    v.schema = .ok s ↔ v ≠ .null ∧ ∃ t, v.HasType t ∧ .single t = s := by
  by_cases hnull : v = .null
  · simp [hnull, schema]
  · rw [schema_of_ne_null hframe hnull]
    simp only [← colType_eq_ok_iff]
    cases v.colType <;> simp [hnull, Except.map, Except.mapError]

/-- There is no schema for null, and where an empty list or map is met. -/
theorem exists_schema_eq_error_iff :
    (∃ e, v.schema = .error e) ↔ v = .null ∨ v.MeetsEmpty := by
  by_cases hnull : v = .null
  · simp [hnull, schema]
  · rw [schema_of_ne_null hframe hnull, ← exists_colType_eq_error_iff]
    cases v.colType <;> simp [hnull, Except.map, Except.mapError]

end

/-- The schema of a list that is not empty is that of an array of what its items have in common. -/
theorem schema_list_eq_ok_iff {items : List Value} {s : Schema} :
    (Value.list items).schema = .ok s ↔
      items ≠ [] ∧ ∃ t, HaveType (present items) t ∧ .single (.array t) = s := by
  rw [schema_eq_ok_iff fun _ => Value.noConfusion]
  simp only [hasType_list_iff]
  constructor
  · rintro ⟨-, _, ⟨hne, t, ht, rfl⟩, hs⟩
    exact ⟨hne, t, ht, hs⟩
  · rintro ⟨hne, t, ht, hs⟩
    exact ⟨Value.noConfusion, .array t, ⟨hne, t, ht, rfl⟩, hs⟩

/-! ## Orders of items -/

/-- Of values with different types, all of which have one, no type is the common one. -/
theorem haveType_any_of_areMixed {values : List Value} (htyped : ∀ x ∈ values, ∃ t, x.HasType t)
    (h : AreMixed values) : HaveType values .any := by
  cases values with
  | nil =>
    obtain ⟨x, hx, -⟩ := h
    cases hx
  | cons first rest =>
    obtain ⟨s, hfirst⟩ := htyped first List.mem_cons_self
    have hother : ∃ other ∈ rest, ¬ other.HasType s := by
      by_contra hnone
      push Not at hnone
      have hall : ∀ x ∈ first :: rest, x.HasType s := List.forall_mem_cons.mpr ⟨hfirst, hnone⟩
      obtain ⟨x, hx, y, hy, t, u, hxt, hyu, hne⟩ := h
      have ht := hxt.unique (hall x hx)
      have hu := hyu.unique (hall y hy)
      exact hne (ht.trans hu.symm)
    obtain ⟨before, other, after, rfl, hbefore, hother⟩ := Sequence.exists_first hother
    obtain ⟨t, ht⟩ := htyped other (by simp)
    have hsame : ∀ x ∈ first :: before, x.HasType s :=
      List.forall_mem_cons.mpr ⟨hfirst, fun x hx => not_not.mp (hbefore x hx)⟩
    exact .mixed hsame ht fun heq => hother (heq ▸ ht)

theorem AreMixed.of_perm {values others : List Value} (h : AreMixed values)
    (hperm : values.Perm others) : AreMixed others := by
  obtain ⟨x, hx, y, hy, htypes⟩ := h
  exact ⟨x, hperm.mem_iff.mp hx, y, hperm.mem_iff.mp hy, htypes⟩

/-- Values keep their common type in every order, if all of them have a type where two of them have
different ones. -/
theorem HaveType.of_perm {values others : List Value} {t : ColType} (h : HaveType values t)
    (hperm : values.Perm others) (htyped : AreMixed values → ∀ x ∈ values, ∃ t, x.HasType t) :
    HaveType others t := by
  cases h with
  | nothing =>
    rw [List.nil_perm.mp hperm]
    exact .nothing
  | @same first rest _ h =>
    have hothers (x : Value) (hx : x ∈ others) : x.HasType t := h x (hperm.mem_iff.mpr hx)
    cases others with
    | nil => exact absurd hperm.eq_nil (List.cons_ne_nil first rest)
    | cons first rest => exact .same hothers
  | @mixed first other before after s u h hother hne =>
    have hmixed : AreMixed (first :: (before ++ other :: after)) :=
      ⟨first, by simp, other, by simp, s, u, h first List.mem_cons_self, hother, hne⟩
    have hothers (x : Value) (hx : x ∈ others) : ∃ t, x.HasType t :=
      htyped hmixed x (hperm.mem_iff.mpr hx)
    exact haveType_any_of_areMixed hothers (hmixed.of_perm hperm)

/-- Where all items have a type if two have different ones, the schema of a list is that of the list
in every order. -/
theorem schema_of_perm {items others : List Value} {s : Schema} (hperm : items.Perm others)
    (htyped : AreMixed (present items) → ∀ x ∈ present items, ∃ t, x.HasType t)
    (h : (Value.list items).schema = .ok s) : (Value.list others).schema = .ok s := by
  obtain ⟨hne, t, ht, hs⟩ := schema_list_eq_ok_iff.mp h
  have hothers : others ≠ [] := fun hnil => hne (List.perm_nil.mp (hnil ▸ hperm))
  have hsame : HaveType (present others) t := ht.of_perm (hperm.filter _) htyped
  exact schema_list_eq_ok_iff.mpr ⟨hothers, t, hsame, hs⟩

/-- Items of different types that stand in front decide the schema of a list. -/
theorem exists_perm_schema_ok {items : List Value} (h : AreMixed (present items)) :
    ∃ others s, items.Perm others ∧ (Value.list others).schema = .ok s := by
  obtain ⟨x, hx, y, hy, s, t, hxs, hyt, hne⟩ := h
  obtain ⟨hxi, hxn⟩ := mem_present.mp hx
  obtain ⟨hyi, hyn⟩ := mem_present.mp hy
  have hxy : y ≠ x := by
    rintro rfl
    exact hne (hxs.unique hyt)
  -- the two items go to the front, where the second one ends the search
  obtain ⟨before, after, rfl⟩ := List.append_of_mem hxi
  have hyrest : y ∈ before ++ after := by
    rcases List.mem_append.mp hyi with hy | hy
    · exact List.mem_append_left after hy
    · exact List.mem_append_right before (List.mem_of_ne_of_mem hxy hy)
  obtain ⟨front, rest, hsplit⟩ := List.append_of_mem hyrest
  have hperm : (before ++ x :: after).Perm (x :: y :: (front ++ rest)) := by
    refine List.perm_middle.trans (.cons x ?_)
    rw [hsplit]
    exact List.perm_middle
  have hpresent : present (x :: y :: (front ++ rest)) =
      x :: ([] ++ y :: present (front ++ rest)) := by
    simp [present, hxn, hyn]
  have hmixed : HaveType (present (x :: y :: (front ++ rest))) .any := by
    rw [hpresent]
    exact .mixed (List.forall_mem_singleton.mpr hxs) hyt hne
  have hschema := schema_list_eq_ok_iff.mpr ⟨List.cons_ne_nil x _, .any, hmixed, rfl⟩
  exact ⟨_, _, hperm, hschema⟩

/-- An item in which an empty list or map is met leaves a list without a schema if it stands in
front. -/
theorem exists_perm_schema_error {items : List Value} {x : Value} (hx : x ∈ items)
    (hempty : x.MeetsEmpty) :
    ∃ others e, items.Perm others ∧ (Value.list others).schema = .error e := by
  obtain ⟨before, after, rfl⟩ := List.append_of_mem hx
  have hmet : (Value.list (x :: (before ++ after))).MeetsEmpty :=
    meetsEmpty_list_iff.mpr (.inr ⟨[], x, before ++ after, rfl, ⟨.any, List.forall_mem_nil _⟩, hempty⟩)
  obtain ⟨e, he⟩ := (exists_schema_eq_error_iff fun _ => Value.noConfusion).mpr (.inr hmet)
  exact ⟨_, e, List.perm_middle, he⟩

/-- The outcome for a list is the same in every order of its items, the same schema or none, unless
two items have different types and an empty list or map is met in another one. -/
theorem example_order_irrelevant_iff (items : List Value) :
    (∀ others, items.Perm others →
        (Value.list others).schema.toOption = (Value.list items).schema.toOption) ↔
      ¬ (AreMixed (present items) ∧ ∃ x ∈ items, x.MeetsEmpty) := by
  constructor
  · rintro hsame ⟨hmixed, x, hx, hempty⟩
    obtain ⟨others, s, hperm, hs⟩ := exists_perm_schema_ok hmixed
    obtain ⟨failing, e, hfailing, he⟩ := exists_perm_schema_error hx hempty
    have hoption := (hsame others hperm).trans (hsame failing hfailing).symm
    rw [hs, he] at hoption
    cases hoption
  · intro hsettled others hperm
    have htyped : AreMixed (present items) → ∀ x ∈ present items, ∃ t, x.HasType t := by
      intro hmixed x hx
      have hitem := (mem_present.mp hx).1
      exact (exists_hasType_or_meetsEmpty x).resolve_right fun hempty =>
        hsettled ⟨hmixed, x, hitem, hempty⟩
    have hpresent : (present items).Perm (present others) := hperm.filter _
    have hothers : AreMixed (present others) → ∀ x ∈ present others, ∃ t, x.HasType t :=
      fun hmixed x hx => htyped (hmixed.of_perm hpresent.symm) x (hpresent.mem_iff.mpr hx)
    refine Option.ext fun s => ?_
    rw [Sequence.toOption_eq_some_iff, Sequence.toOption_eq_some_iff]
    exact ⟨schema_of_perm hperm.symm hothers, schema_of_perm hperm htyped⟩

/-- In front of a number and a text the empty list is met, behind them it is not looked at. -/
example :
    let items : List Value := [.long 1, .str "a", .list []]
    (Value.list items).schema = .ok (.single (.array .any)) ∧
      (Value.list items.reverse).schema =
        .error (.inferenceFailed "Cannot infer the element type of an empty list") := ⟨rfl, rfl⟩

end Value

/-! ## What a schema describes -/

namespace ColType

mutual

/-- Whether a type describes a value. -/
def Describes : ColType → Value → Prop
  | .any, _ => True
  | .scalar type, v => type.admits v = true
  | .array items, v => ∃ xs, v = .list xs ∧ ∀ x ∈ xs, x = .null ∨ Describes items x
  | .map values, v =>
    ∃ entries, v = .map entries ∧ ∀ e ∈ entries, e.2 = .null ∨ Describes values e.2
  | .object properties, v => ∃ r, v = .record r ∧ PropertiesDescribe properties r.fields
termination_by structural t => t

/-- Whether properties line up with the fields of a record instance, and describe them. Those of
fields that are not null are required. -/
def PropertiesDescribe : List Property → List (String × Value) → Prop
  | [], fields => fields = []
  | ⟨name, type, required⟩ :: rest, fields =>
    ∃ value others, fields = (name, value) :: others ∧ Describes type value ∧
      (required = true ↔ value ≠ .null) ∧ PropertiesDescribe rest others
termination_by structural properties => properties

end

end ColType

/-- Whether a cell is the first one that is not null. -/
def Value.IsFirstPresent (cells : List Value) (cell : Value) : Prop :=
  ∃ before after, cells = before ++ cell :: after ∧ (∀ x ∈ before, x = .null) ∧ cell ≠ .null

/-- Whether a column describes the cells of a frame under its name: it is required and its type
describes the first cell that is not null, or all cells are null, and it is anything and not
required. -/
def ColSpec.DescribesCells (c : ColSpec) (name : String) (cells : List Value) : Prop :=
  c.name = some name ∧
    ((∃ cell, Value.IsFirstPresent cells cell ∧ c.type.Describes cell ∧ c.required = true) ∨
      (∀ cell ∈ cells, cell = .null) ∧ c.type = .any ∧ c.required = false)

/-- Whether a schema describes an example: it has a column for each column of a frame, and
otherwise a single one without a name, which is required. -/
def Schema.Describes (s : Schema) : Value → Prop
  | .frame f =>
    List.Forall₂ (fun column c => c.DescribesCells column.1 (f.column column.2))
      f.columns.zipIdx s.columns
  | v => ∃ t, s = .single t ∧ t.Describes v

namespace Value

/-- What values have in common describes each of them that is not null. -/
theorem HaveType.describes {values : List Value} {t : ColType} (h : HaveType (present values) t)
    (hvalues : ∀ x ∈ values, ∀ t, x.HasType t → t.Describes x) :
    ∀ x ∈ values, x = .null ∨ t.Describes x := by
  intro x hx
  cases hnull : x.isNull with
  | true => exact .inl (eq_null_of_isNull hnull)
  | false =>
    have hpresent : x ∈ present values := mem_present.mpr ⟨hx, hnull⟩
    refine .inr ?_
    -- the rules tell the values by their list, which is a filtered one here
    generalize present values = given at h hpresent
    cases h with
    | nothing => cases hpresent
    | same h => exact hvalues x hx t (h x hpresent)
    | mixed => trivial

theorem FieldsHaveTypes.describe {fields : List (String × Value)} {properties : List Property}
    (h : FieldsHaveTypes fields properties)
    (hfields : ∀ f ∈ fields, ∀ t, f.2.HasType t → t.Describes f.2) :
    ColType.PropertiesDescribe properties fields := by
  induction fields generalizing properties with
  | nil =>
    cases h
    rfl
  | cons f rest ih =>
    obtain ⟨hfield, hrest⟩ := List.forall_mem_cons.mp hfields
    cases h with
    | @cons name value type _ properties htype hothers =>
      refine ⟨value, rest, rfl, hfield type htype, ?_, ih hothers hrest⟩
      cases value <;> simp [isNull]

theorem HasType.describes {v : Value} : ∀ {t : ColType}, v.HasType t → t.Describes v := by
  induction v using inductionOnParts with
  | null =>
    intro t h
    rw [hasType_null_iff.mp h]
    trivial
  | frame f =>
    intro t h
    rw [hasType_frame_iff.mp h]
    trivial
  | scalar type v hv =>
    intro t h
    rw [(hasType_scalar_iff hv).mp h]
    exact hv
  | list items ih =>
    intro t h
    obtain ⟨-, type, htype, rfl⟩ := hasType_list_iff.mp h
    exact ⟨items, rfl, htype.describes fun x hx _ => ih x hx⟩
  | map entries ih =>
    intro t h
    obtain ⟨-, type, htype, rfl⟩ := hasType_map_iff.mp h
    have hvalues : ∀ x ∈ entries.map Prod.snd, ∀ t, x.HasType t → t.Describes x :=
      List.forall_mem_map.mpr fun e he _ => ih e he
    exact ⟨entries, rfl, List.forall_mem_map.mp (htype.describes hvalues)⟩
  | record name fields ih =>
    intro t h
    obtain ⟨properties, htypes, rfl⟩ := hasType_record_iff.mp h
    exact ⟨⟨name, fields⟩, rfl, htypes.describe fun f hf _ => ih f hf⟩

/-! ## Columns of frames -/

theorem find?_eq_some_iff_isFirstPresent {cells : List Value} {cell : Value} :
    (cells.find? fun v => !v.isNull) = some cell ↔ IsFirstPresent cells cell := by
  have hnull (x : Value) : x.isNull = true ↔ x = .null :=
    ⟨eq_null_of_isNull, fun h => h ▸ rfl⟩
  have hpresent (x : Value) : x.isNull = false ↔ x ≠ .null := by
    rw [← Bool.not_eq_true, hnull]
  simp only [List.find?_eq_some_iff_append, IsFirstPresent, Bool.not_not, Bool.not_eq_true',
    hnull, hpresent]
  constructor
  · rintro ⟨hcell, before, after, hsplit, hbefore⟩
    exact ⟨before, after, hsplit, hbefore, hcell⟩
  · rintro ⟨before, after, hsplit, hbefore, hcell⟩
    exact ⟨hcell, before, after, hsplit, hbefore⟩

theorem columnsOfFrame_eq_mapM (f : Frame) (i : Nat) (names : List String) :
    columnsOfFrame f i names =
      (names.zipIdx i).mapM fun column => columnOfCells column.1 (f.column column.2) := by
  induction names generalizing i with
  | nil => rfl
  | cons name rest ih =>
    rw [columnsOfFrame, List.zipIdx_cons, List.mapM_cons, ih]
    rfl

theorem describesCells_of_columnOfCells {name : String} {cells : List Value} {c : ColSpec}
    (h : columnOfCells name cells = .ok c) : c.DescribesCells name cells := by
  unfold columnOfCells at h
  split at h
  next cell hfirst =>
    obtain ⟨type, htype, rfl⟩ := Sequence.map_eq_ok_iff.mp h
    have hdescribes := ((colType_eq_ok_iff cell type).mp htype).describes
    exact ⟨rfl, .inl ⟨cell, find?_eq_some_iff_isFirstPresent.mp hfirst, hdescribes, rfl⟩⟩
  next hnone =>
    cases h
    refine ⟨rfl, .inr ⟨fun cell hcell => ?_, rfl, rfl⟩⟩
    have hnull := List.find?_eq_none.mp hnone cell hcell
    exact eq_null_of_isNull (by simpa using hnull)

/-- A frame has the schema of its columns, if it has any. -/
theorem schema_frame_eq_ok_iff {f : Frame} {s : Schema} :
    (Value.frame f).schema = .ok s ↔ f.columns ≠ [] ∧
      List.Forall₂ (fun column c => columnOfCells column.1 (f.column column.2) = .ok c)
        f.columns.zipIdx s.columns := by
  rw [← Sequence.mapM_eq_ok_iff, ← columnsOfFrame_eq_mapM, schema]
  cases hcolumns : f.columns with
  | nil => simp
  | cons name rest =>
    obtain ⟨columns⟩ := s
    cases columnsOfFrame f 0 (name :: rest) <;> simp

/-- The schema that is inferred from an example describes it. -/
theorem example_schema_describes (v : Value) (s : Schema) (h : v.schema = .ok s) :
    s.Describes v := by
  by_cases hframe : ∃ f, v = .frame f
  · obtain ⟨f, rfl⟩ := hframe
    exact (schema_frame_eq_ok_iff.mp h).2.imp fun column c => describesCells_of_columnOfCells
  · push Not at hframe
    obtain ⟨-, t, ht, rfl⟩ := (schema_eq_ok_iff hframe).mp h
    have hdescribes := ht.describes
    cases v with
    | frame f => exact absurd rfl (hframe f)
    | _ => exact ⟨t, rfl, hdescribes⟩

/-- A frame whose tags are given in its second row only, and whose notes are not given. -/
theorem example_schema_describes_tags :
    let v := Value.frame ⟨["tags", "note"],
      [[.null, .null], [.list [.str "a", .null, .str "b"]]]⟩
    let s : Schema := ⟨[⟨some "tags", .array (.scalar .string), true⟩, ⟨some "note", .any, false⟩]⟩
    v.schema = .ok s ∧ s.Describes v := by
  intro v s
  have h : v.schema = .ok s := rfl
  exact ⟨h, example_schema_describes v s h⟩

/-! ## Examples without a schema -/

/-- Whether a list or map holds values of different types, nulls apart. -/
def IsMixed : Value → Prop
  | .list items => AreMixed (present items)
  | .map entries => AreMixed (present (entries.map Prod.snd))
  | _ => False

/-- The values that the schema of an example is inferred from: the example itself, or of a frame the
first cell of each column that is not null. -/
inductive IsSample : Value → Value → Prop
  /-- An example that is no frame. -/
  | whole {v : Value} (hframe : ∀ f, v ≠ .frame f) : IsSample v v
  /-- A cell of a frame. -/
  | cell {f : Frame} {column : String × Nat} {cell : Value} (hcolumn : column ∈ f.columns.zipIdx)
    (h : IsFirstPresent (f.column column.2) cell) : IsSample (.frame f) cell

/-- Whether an example is empty: it is null, an empty frame, or an empty list or map is met in it or
in the first cell of a column. What stands in front of that has to satisfy a condition. -/
def IsEmptyExample (front : List Value → Prop) (emptyFrame : Frame → Prop) (v : Value) : Prop :=
  v = .null ∨ (∃ f, v = .frame f ∧ emptyFrame f) ∨
    ∃ x, IsSample v x ∧ x.Meets front fun y => y.isEmptyContainer = true

theorem Meets.mono {front other : List Value → Prop} {target : Value → Prop} {v : Value}
    (hfront : ∀ before, front before → other before) (h : v.Meets front target) :
    v.Meets other target := by
  induction h with
  | here h => exact .here h
  | item hbefore _ ih => exact .item (hfront _ hbefore) ih
  | entry hbefore _ ih => exact .entry (hfront _ hbefore) ih
  | field hf _ ih => exact .field hf ih

/-- Values that all have a type, no two of them a different one, are alike. -/
theorem areAlike_of_not_areMixed {values : List Value} (htyped : ∀ x ∈ values, ∃ t, x.HasType t)
    (h : ¬ AreMixed values) : AreAlike values := by
  cases values with
  | nil => exact ⟨.any, List.forall_mem_nil _⟩
  | cons first rest =>
    obtain ⟨s, hfirst⟩ := htyped first List.mem_cons_self
    refine ⟨s, fun x hx => ?_⟩
    obtain ⟨t, ht⟩ := htyped x hx
    have hsame : s = t := by
      by_contra hne
      exact h ⟨first, List.mem_cons_self, x, hx, s, t, hfirst, ht, hne⟩
    exact hsame ▸ ht

/-- Among values without different types the first one in which an empty list or map is met stands
behind alike ones. -/
theorem exists_first_meetsEmpty {values : List Value} (hmixed : ¬ AreMixed (present values))
    (h : ∃ x ∈ values, x.MeetsEmpty) :
    ∃ before x after, values = before ++ x :: after ∧ AreAlike (present before) ∧
      x.MeetsEmpty := by
  obtain ⟨before, x, after, rfl, hbefore, hx⟩ := Sequence.exists_first h
  have htyped (y : Value) (hy : y ∈ present before) : ∃ t, y.HasType t :=
    (exists_hasType_or_meetsEmpty y).resolve_right (hbefore y (mem_present.mp hy).1)
  have hfront : present before ⊆ present (before ++ x :: after) :=
    List.filter_subset _ (List.subset_append_left before _)
  have hsame : ¬ AreMixed (present before) := by
    rintro ⟨y, hy, z, hz, htypes⟩
    exact hmixed ⟨y, hfront hy, z, hfront hz, htypes⟩
  exact ⟨before, x, after, rfl, areAlike_of_not_areMixed htyped hsame, hx⟩

/-- Where no list or map on the way holds values of different types, every empty one is met behind
alike values. -/
theorem meetsEmpty_of_not_mixed {v : Value}
    (h : v.Meets (fun _ => True) fun x => x.isEmptyContainer = true)
    (hmixed : ¬ v.Meets (fun _ => True) IsMixed) : v.MeetsEmpty := by
  -- what stands in front may fail as well, but not in front of the first one that does
  induction h with
  | here h => exact .here h
  | @item before after x _ _ ih =>
    have hx : x.MeetsEmpty := ih fun hmet => hmixed (.item trivial hmet)
    exact meetsEmpty_list_iff.mpr
      (.inr (exists_first_meetsEmpty (fun h => hmixed (.here h)) ⟨x, by simp, hx⟩))
  | @entry before after e _ _ ih =>
    have hx : e.2.MeetsEmpty := ih fun hmet => hmixed (.entry trivial hmet)
    exact meetsEmpty_map_iff.mpr
      (.inr (exists_first_meetsEmpty (fun h => hmixed (.here h)) ⟨e.2, by simp, hx⟩))
  | field hf _ ih => exact .field hf (ih fun hmet => hmixed (.field hf hmet))

theorem exists_columnOfCells_eq_error_iff {name : String} {cells : List Value} :
    (∃ r, columnOfCells name cells = .error r) ↔
      ∃ cell, IsFirstPresent cells cell ∧ cell.MeetsEmpty := by
  simp only [← find?_eq_some_iff_isFirstPresent, ← exists_colType_eq_error_iff, columnOfCells]
  cases cells.find? fun v => !v.isNull <;> simp [Sequence.map_eq_error_iff]

/-- There is no schema for a frame without columns, and where a column fails. -/
theorem exists_schema_frame_eq_error_iff {f : Frame} :
    (∃ e, (Value.frame f).schema = .error e) ↔ f.columns = [] ∨
      ∃ column ∈ f.columns.zipIdx, ∃ r, columnOfCells column.1 (f.column column.2) = .error r := by
  rw [← Sequence.exists_mapM_eq_error_iff, ← columnsOfFrame_eq_mapM, schema]
  cases hcolumns : f.columns with
  | nil => simp
  | cons name rest => cases columnsOfFrame f 0 (name :: rest) <;> simp

/-- There is no schema exactly for an empty example, where what is behind values of different types
does not count and a frame is empty only without columns. -/
theorem exists_schema_eq_error_iff_isEmptyExample {v : Value} :
    (∃ e, v.schema = .error e) ↔
      v.IsEmptyExample (fun before => AreAlike (present before)) fun f => f.columns = [] := by
  by_cases hframe : ∃ f, v = .frame f
  · obtain ⟨f, rfl⟩ := hframe
    rw [exists_schema_frame_eq_error_iff]
    simp only [exists_columnOfCells_eq_error_iff]
    constructor
    · rintro (hcolumns | ⟨column, hcolumn, cell, hcell, hempty⟩)
      · exact .inr (.inl ⟨f, rfl, hcolumns⟩)
      · exact .inr (.inr ⟨cell, .cell hcolumn hcell, hempty⟩)
    · rintro (hnull | ⟨g, hg, hcolumns⟩ | ⟨cell, hsample, hempty⟩)
      · cases hnull
      · cases hg
        exact .inl hcolumns
      · cases hsample with
        | whole hframe => exact absurd rfl (hframe f)
        | cell hcolumn hcell => exact .inr ⟨_, hcolumn, cell, hcell, hempty⟩
  · push Not at hframe
    rw [exists_schema_eq_error_iff hframe]
    constructor
    · rintro (hnull | hempty)
      · exact .inl hnull
      · exact .inr (.inr ⟨v, .whole hframe, hempty⟩)
    · rintro (hnull | ⟨f, hf, -⟩ | ⟨x, hsample, hempty⟩)
      · exact .inl hnull
      · exact absurd hf (hframe f)
      · cases hsample with
        | whole => exact .inr hempty
        | @cell f => exact absurd rfl (hframe f)

theorem code_of_schema {v : Value} {e : SchemaError} (h : v.schema = .error e) :
    e.code = "HINTSIG_SIGNATURE_INFERENCE_FAILED" := by
  unfold schema at h
  split at h
  · split at h
    · cases h
      rfl
    · split at h <;> cases h
      rfl
  · cases h
    rfl
  · split at h <;> cases h
    rfl

/-- Examples without a schema are empty. There is none exactly for null, for a frame without
columns, and where an empty list or map is met that does not stand behind values of different types.
Every other example that counts as empty is a frame of columns without rows, or one in which values
of different types stand side by side. -/
theorem example_schema_fails_iff (v : Value) :
    ((∃ e, v.schema = .error e) ↔
        v.IsEmptyExample (fun before => AreAlike (present before)) fun f => f.columns = []) ∧
      (∀ e, v.schema = .error e → e.code = "HINTSIG_SIGNATURE_INFERENCE_FAILED" ∧
        v.IsEmptyExample (fun _ => True) fun f => f.isEmpty = true) ∧
      (v.IsEmptyExample (fun _ => True) (fun f => f.isEmpty = true) →
        (∃ e, v.schema = .error e) ∨ (∃ f, v = .frame f ∧ f.columns ≠ [] ∧ f.rows = []) ∨
          ∃ x, IsSample v x ∧ x.Meets (fun _ => True) IsMixed) := by
  refine ⟨exists_schema_eq_error_iff_isEmptyExample, fun e he => ⟨code_of_schema he, ?_⟩, ?_⟩
  · rcases exists_schema_eq_error_iff_isEmptyExample.mp ⟨e, he⟩ with
      hnull | ⟨f, hf, hcolumns⟩ | ⟨x, hsample, hempty⟩
    · exact .inl hnull
    · have hfempty : f.isEmpty = true := by simp [Frame.isEmpty, hcolumns]
      exact .inr (.inl ⟨f, hf, hfempty⟩)
    · exact .inr (.inr ⟨x, hsample, hempty.mono fun _ _ => trivial⟩)
  · rw [exists_schema_eq_error_iff_isEmptyExample]
    rintro (hnull | ⟨f, hf, hfempty⟩ | ⟨x, hsample, hempty⟩)
    · exact .inl (.inl hnull)
    · by_cases hcolumns : f.columns = []
      · exact .inl (.inr (.inl ⟨f, hf, hcolumns⟩))
      · have hrows : f.rows = [] := by simpa [Frame.isEmpty, hcolumns] using hfempty
        exact .inr (.inl ⟨f, hf, hcolumns, hrows⟩)
    · by_cases hmixed : x.Meets (fun _ => True) IsMixed
      · exact .inr (.inr ⟨x, hsample, hmixed⟩)
      · have hmet : x.MeetsEmpty := meetsEmpty_of_not_mixed hempty hmixed
        exact .inl (.inr (.inr ⟨x, hsample, hmet⟩))

end Value

end TypedModel
