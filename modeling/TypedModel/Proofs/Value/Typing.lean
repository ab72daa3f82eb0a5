import TypedModel.Proofs.Schema.Inference
import TypedModel.Proofs.Value.Parts

/-!
# Types of values

What type a value has is told by rules: a list is an array, and its items have a type in common or
else are anything, nulls apart. The main statements are that a type is inferred exactly where the
value has it, and that none is exactly where an empty list or map is met behind values that have a
type in common. Behind the first two values of different types nothing is looked at.
-/

namespace TypedModel

/-- The data type of a value is one only. -/
theorem DataType.eq_of_admits {s t : DataType} {v : Value} (hs : s.admits v = true)
    (ht : t.admits v = true) : s = t := by
  cases s <;> cases t <;>
    first
    | rfl
    | (cases v <;> first | exact absurd hs Bool.false_ne_true | exact absurd ht Bool.false_ne_true)

namespace Value

/-- What holds of a value if it holds of its parts holds of every value. The parts of a list are its
items, those of a map its values, and those of a record instance the values of its fields. -/
@[elab_as_elim]
theorem inductionOnParts {motive : Value → Prop} (null : motive .null)
    (frame : ∀ f, motive (.frame f))
    (scalar : ∀ (type : DataType) (v : Value), type.admits v = true → motive v)
    (list : ∀ items, (∀ x ∈ items, motive x) → motive (.list items))
    (map : ∀ entries, (∀ e ∈ entries, motive e.2) → motive (.map entries))
    (record : ∀ name fields, (∀ f ∈ fields, motive f.2) → motive (.record ⟨name, fields⟩))
    (v : Value) : motive v := by
  induction v using partInduction with
  | step v ih =>
    cases v with
    | null => exact null
    | frame f => exact frame f
    | bool b => exact scalar .boolean _ rfl
    | long n => exact scalar .long _ rfl
    | double x => exact scalar .double _ rfl
    | str s => exact scalar .string _ rfl
    | bytes octets => exact scalar .binary _ rfl
    | datetime t => exact scalar .datetime _ rfl
    | list items => exact list items fun x hx => ih x (.item hx)
    | map entries => exact map entries fun e he => ih e.2 (.entry he)
    | record r =>
      obtain ⟨name, fields⟩ := r
      exact record name fields fun f hf => ih f.2 (.field hf)

/-- The values that are not null. -/
def present (values : List Value) : List Value := values.filter fun x => !x.isNull

mutual

/-- The type of a value. -/
inductive HasType : Value → ColType → Prop
  /-- Null may stand for anything. -/
  | null : HasType .null .any
  /-- A frame within a value is not looked into. -/
  | frame (f : Frame) : HasType (.frame f) .any
  /-- A scalar has its data type. -/
  | scalar {type : DataType} {v : Value} (h : type.admits v = true) : HasType v (.scalar type)
  /-- A list that is not empty is an array. -/
  | list {items : List Value} {t : ColType} (hne : items ≠ [])
    (h : HaveType (present items) t) : HasType (.list items) (.array t)
  /-- A map that is not empty is a map. -/
  | map {entries : Entries Value} {t : ColType} (hne : entries ≠ [])
    (h : HaveType (present (entries.map Prod.snd)) t) : HasType (.map entries) (.map t)
  /-- A record instance is an object. -/
  | record {name : String} {fields : List (String × Value)} {properties : List Property}
    (h : FieldsHaveTypes fields properties) : HasType (.record ⟨name, fields⟩) (.object properties)

/-- The type that values have in common. -/
inductive HaveType : List Value → ColType → Prop
  /-- Without a value it is open. -/
  | nothing : HaveType [] .any
  /-- Values of one type have it in common. -/
  | same {first : Value} {rest : List Value} {t : ColType} (h : ∀ x ∈ first :: rest, HasType x t) :
    HaveType (first :: rest) t
  /-- Behind values of one type the first of another one leaves them none in particular, whatever
  follows. -/
  | mixed {first other : Value} {before after : List Value} {s t : ColType}
    (h : ∀ x ∈ first :: before, HasType x s) (hother : HasType other t) (hne : s ≠ t) :
    HaveType (first :: (before ++ other :: after)) .any

/-- The properties of fields: each has the name and the type of its field, and is required if the
field is not null. -/
inductive FieldsHaveTypes : List (String × Value) → List Property → Prop
  /-- There is no field. -/
  | nil : FieldsHaveTypes [] []
  /-- A field and the fields behind it. -/
  | cons {name : String} {value : Value} {type : ColType} {fields : List (String × Value)}
    {properties : List Property} (h : HasType value type)
    (rest : FieldsHaveTypes fields properties) :
    FieldsHaveTypes ((name, value) :: fields) (⟨name, type, !value.isNull⟩ :: properties)

end

section

variable {t : ColType}

theorem hasType_null_iff : HasType .null t ↔ t = .any := by
  constructor
  · intro h
    cases h with
    | null => rfl
    | @scalar type _ h => cases type <;> cases h
  · rintro rfl
    exact .null

theorem hasType_frame_iff {f : Frame} : HasType (.frame f) t ↔ t = .any := by
  constructor
  · intro h
    cases h with
    | frame => rfl
    | @scalar type _ h => cases type <;> cases h
  · rintro rfl
    exact .frame f

theorem hasType_scalar_iff {type : DataType} {v : Value} (hv : type.admits v = true) :
    v.HasType t ↔ t = .scalar type := by
  constructor
  · intro h
    cases h with
    | scalar h => rw [DataType.eq_of_admits h hv]
    | _ => cases type <;> cases hv
  · rintro rfl
    exact .scalar hv

/-- A list that is not empty is an array of what its items have in common. -/
theorem hasType_list_iff {items : List Value} :
    (Value.list items).HasType t ↔
      items ≠ [] ∧ ∃ type, HaveType (present items) type ∧ .array type = t := by
  constructor
  · intro h
    cases h with
    | @scalar type _ h => cases type <;> cases h
    | list hne h => exact ⟨hne, _, h, rfl⟩
  · rintro ⟨hne, type, h, rfl⟩
    exact .list hne h

theorem hasType_map_iff {entries : Entries Value} :
    (Value.map entries).HasType t ↔
      entries ≠ [] ∧ ∃ type, HaveType (present (entries.map Prod.snd)) type ∧ .map type = t := by
  constructor
  · intro h
    cases h with
    | @scalar type _ h => cases type <;> cases h
    | map hne h => exact ⟨hne, _, h, rfl⟩
  · rintro ⟨hne, type, h, rfl⟩
    exact .map hne h

theorem hasType_record_iff {name : String} {fields : List (String × Value)} :
    (Value.record ⟨name, fields⟩).HasType t ↔
      ∃ properties, FieldsHaveTypes fields properties ∧ .object properties = t := by
  constructor
  · intro h
    cases h with
    | @scalar type _ h => cases type <;> cases h
    | record h => exact ⟨_, h, rfl⟩
  · rintro ⟨properties, h, rfl⟩
    exact .record h

end

/-- Whether values, none of them null, have a type in common. -/
def AreAlike (values : List Value) : Prop := ∃ t, ∀ x ∈ values, x.HasType t

/-- Whether two of the values have different types. -/
def AreMixed (values : List Value) : Prop :=
  ∃ x ∈ values, ∃ y ∈ values, ∃ s t, x.HasType s ∧ y.HasType t ∧ s ≠ t

/-- Whether a value of some kind is met on the way into a value, through items, values of maps and
fields of record instances. Of the items and values of maps those in front have to satisfy a
condition. -/
inductive Meets (front : List Value → Prop) (target : Value → Prop) : Value → Prop
  /-- The value is of that kind. -/
  | here {v : Value} (h : target v) : Meets front target v
  /-- It is met in an item of a list. -/
  | item {before after : List Value} {x : Value} (hfront : front before)
    (hx : Meets front target x) : Meets front target (.list (before ++ x :: after))
  /-- It is met in a value of a map. -/
  | entry {before after : Entries Value} {e : String × Value}
    (hfront : front (before.map Prod.snd)) (hx : Meets front target e.2) :
    Meets front target (.map (before ++ e :: after))
  /-- It is met in a field of a record instance. -/
  | field {name : String} {fields : List (String × Value)} {f : String × Value} (hf : f ∈ fields)
    (hx : Meets front target f.2) : Meets front target (.record ⟨name, fields⟩)

/-- Whether an empty list or map is met behind values that have a type in common, nulls apart. -/
def MeetsEmpty (v : Value) : Prop :=
  v.Meets (fun before => AreAlike (present before)) fun x => x.isEmptyContainer = true

/-! ## Types that are inferred -/

/-- Nulls do not count. -/
theorem unifyItems_present (soFar : Option ColType) (items : List Value) :
    unifyItems soFar items = unifyItems soFar (present items) := by
  induction items generalizing soFar with
  | nil => rfl
  | cons item rest ih =>
    cases hnull : item.isNull with
    | true =>
      have hpresent : present (item :: rest) = present rest := by simp [present, hnull]
      rw [hpresent, ← ih, unifyItems, hnull]
      rfl
    | false =>
      have hpresent : present (item :: rest) = item :: present rest := by simp [present, hnull]
      rw [hpresent, unifyItems_cons hnull, unifyItems_cons hnull]
      congr 1
      funext type
      congr 1
      funext common
      exact ih (some common)

theorem mem_present {items : List Value} {x : Value} :
    x ∈ present items ↔ x ∈ items ∧ x.isNull = false := by
  simp [present]

/-- Values of one type leave it to the values behind them. -/
theorem unifyItems_same {first : Value} {before : List Value} {s : ColType}
    (hpresent : ∀ x ∈ first :: before, x.isNull = false)
    (h : ∀ x ∈ first :: before, x.colType = .ok s) (rest : List Value) :
    unifyItems none (first :: (before ++ rest)) = unifyItems (some s) rest :=
  unifyItems_append (.inr ⟨rfl, List.cons_ne_nil first before⟩) hpresent h rest

/-- Behind a type the first value of another one ends the search. -/
theorem unifyItems_mixed {other : Value} {after : List Value} {s t : ColType}
    (hpresent : other.isNull = false) (hother : other.colType = .ok t) (hne : s ≠ t) :
    unifyItems (some s) (other :: after) = .ok .any := by
  have hcommon : commonType (some s) t = none := if_neg hne
  rw [unifyItems_cons hpresent, hother, Sequence.ok_bind, hcommon]
  rfl

section

variable {values : List Value} (hpresent : ∀ x ∈ values, x.isNull = false)
  (htypes : ∀ x ∈ values, ∀ t, x.colType = .ok t ↔ x.HasType t)

include hpresent htypes

theorem unifyItems_of_haveType {t : ColType} (h : HaveType values t) :
    unifyItems none values = .ok t := by
  cases h with
  | nothing => rfl
  | @same first rest _ hsame =>
    have hinferred : ∀ x ∈ first :: rest, x.colType = .ok t :=
      fun x hx => (htypes x hx t).mpr (hsame x hx)
    have hend := unifyItems_same hpresent hinferred []
    rwa [List.append_nil] at hend
  | @mixed first other before after s u hsame hother hne =>
    have hmem : other ∈ first :: (before ++ other :: after) := by simp
    have hfront : first :: before ⊆ first :: (before ++ other :: after) :=
      List.cons_subset_cons first (List.subset_append_left before _)
    have hinferred : ∀ x ∈ first :: before, x.colType = .ok s :=
      fun x hx => (htypes x (hfront hx) s).mpr (hsame x hx)
    rw [unifyItems_same (fun x hx => hpresent x (hfront hx)) hinferred]
    exact unifyItems_mixed (hpresent other hmem) ((htypes other hmem u).mpr hother) hne

/-- The type that is inferred from values is the one that they have in common. -/
theorem haveType_of_unifyItems {t : ColType} (h : unifyItems none values = .ok t) :
    HaveType values t := by
  cases values with
  | nil =>
    cases h
    exact .nothing
  | cons first rest =>
    have hrun := h
    rw [unifyItems_cons (hpresent first List.mem_cons_self)] at hrun
    obtain ⟨s, hfirst, -⟩ := Sequence.bind_eq_ok_iff.mp hrun
    by_cases hall : ∀ x ∈ rest, x.colType = .ok s
    · have hsame : ∀ x ∈ first :: rest, x.colType = .ok s :=
        List.forall_mem_cons.mpr ⟨hfirst, hall⟩
      have hend := unifyItems_same hpresent hsame []
      rw [List.append_nil, h] at hend
      cases hend
      exact .same fun x hx => (htypes x hx s).mp (hsame x hx)
    · -- the first value without that type has another one, since its failure would be that of all
      push Not at hall
      obtain ⟨before, other, after, rfl, hbefore, hother⟩ := Sequence.exists_first hall
      have hmem : other ∈ first :: (before ++ other :: after) := by simp
      have hfront : first :: before ⊆ first :: (before ++ other :: after) :=
        List.cons_subset_cons first (List.subset_append_left before _)
      have hsame : ∀ x ∈ first :: before, x.colType = .ok s :=
        List.forall_mem_cons.mpr ⟨hfirst, fun x hx => not_not.mp (hbefore x hx)⟩
      have hend := unifyItems_same (fun x hx => hpresent x (hfront hx)) hsame (other :: after)
      rw [h, unifyItems_cons (hpresent other hmem)] at hend
      obtain ⟨u, htype, hend⟩ := Sequence.bind_eq_ok_iff.mp hend.symm
      have hne : s ≠ u := fun heq => hother (heq ▸ htype)
      have hcommon : commonType (some s) u = none := if_neg hne
      rw [hcommon] at hend
      cases hend
      exact .mixed (fun x hx => (htypes x (hfront hx) s).mp (hsame x hx))
        ((htypes other hmem u).mp htype) hne

end

/-- The common type of items is inferred where the types of the items are. -/
theorem unifyItems_eq_ok_iff {items : List Value} {t : ColType}
    (hitems : ∀ x ∈ items, ∀ t, x.colType = .ok t ↔ x.HasType t) :
    unifyItems none items = .ok t ↔ HaveType (present items) t := by
  have hpresent (x : Value) (hx : x ∈ present items) : x.isNull = false := (mem_present.mp hx).2
  have htypes (x : Value) (hx : x ∈ present items) := hitems x (mem_present.mp hx).1
  rw [unifyItems_present]
  exact ⟨haveType_of_unifyItems hpresent htypes, unifyItems_of_haveType hpresent htypes⟩

/-- The properties of fields are inferred where the types of the fields are. -/
theorem fieldTypes_eq_ok_iff {fields : List (String × Value)} {properties : List Property}
    (hfields : ∀ f ∈ fields, ∀ t, f.2.colType = .ok t ↔ f.2.HasType t) :
    fieldTypes fields = .ok properties ↔ FieldsHaveTypes fields properties := by
  induction fields generalizing properties with
  | nil =>
    constructor
    · intro h
      cases h
      exact .nil
    · intro h
      cases h
      rfl
  | cons f rest ih =>
    obtain ⟨name, value⟩ := f
    obtain ⟨hvalue, hrest⟩ := List.forall_mem_cons.mp hfields
    rw [fieldTypes]
    constructor
    · intro h
      obtain ⟨type, htype, h⟩ := Sequence.bind_eq_ok_iff.mp h
      obtain ⟨others, hothers, h⟩ := Sequence.bind_eq_ok_iff.mp h
      cases h
      exact .cons ((hvalue type).mp htype) ((ih hrest).mp hothers)
    · intro h
      cases h with
      | cons htype hothers => rw [(hvalue _).mpr htype, (ih hrest).mpr hothers]; rfl

/-- A type is inferred from a value exactly where the value has it. -/
theorem colType_eq_ok_iff (v : Value) : ∀ t, v.colType = .ok t ↔ v.HasType t := by
  induction v using inductionOnParts with
  | null =>
    intro t
    rw [hasType_null_iff, colType, Except.ok.injEq, eq_comm]
  | frame f =>
    intro t
    rw [hasType_frame_iff, colType, Except.ok.injEq, eq_comm]
  | scalar type v hv =>
    have hinferred : v.colType = .ok (.scalar type) := by
      cases v <;> cases type <;> first | rfl | exact absurd hv Bool.false_ne_true
    intro t
    rw [hasType_scalar_iff hv, hinferred, Except.ok.injEq, eq_comm]
  | list items ih =>
    intro t
    rw [hasType_list_iff, colType]
    cases items with
    | nil => simp
    | cons first rest =>
      simp only [List.isEmpty_cons, Bool.false_eq_true, if_false, Sequence.map_eq_ok_iff,
        unifyItems_eq_ok_iff ih, ne_eq, reduceCtorEq, not_false_iff, true_and]
  | map entries ih =>
    intro t
    have hvalues : ∀ x ∈ entries.map Prod.snd, ∀ t, x.colType = .ok t ↔ x.HasType t :=
      List.forall_mem_map.mpr ih
    rw [hasType_map_iff, colType, unifyEntries_eq]
    cases entries with
    | nil => simp
    | cons first rest =>
      simp only [List.isEmpty_cons, Bool.false_eq_true, if_false, Sequence.map_eq_ok_iff,
        unifyItems_eq_ok_iff hvalues, ne_eq, reduceCtorEq, not_false_iff, true_and]
  | record name fields ih =>
    intro t
    rw [hasType_record_iff, colType, Sequence.map_eq_ok_iff]
    simp only [fieldTypes_eq_ok_iff ih]

theorem HasType.unique {v : Value} {s t : ColType} (hs : v.HasType s) (ht : v.HasType t) :
    s = t := by
  have hinferred := (colType_eq_ok_iff v s).mpr hs
  rw [(colType_eq_ok_iff v t).mpr ht] at hinferred
  exact (Except.ok.inj hinferred).symm

/-! ## Values without a type -/

/-- No common type is inferred from items where one has no type, and those in front of it have one
in common or with the type met before, nulls apart. -/
theorem exists_unifyItems_eq_error_iff {soFar : Option ColType} {items : List Value} :
    (∃ r, unifyItems soFar items = .error r) ↔
      ∃ before x after, items = before ++ x :: after ∧
        (∃ s, (∀ t ∈ soFar, t = s) ∧ ∀ y ∈ present before, y.HasType s) ∧
        ∃ r, x.colType = .error r := by
  -- for every type met so far, since that of the first item is met before the others
  induction items generalizing soFar with
  | nil => simp [unifyItems]
  | cons item rest ih =>
    rw [Sequence.exists_split_cons]
    cases hnull : item.isNull with
    | true =>
      have hpresent (before : List Value) : present (item :: before) = present before := by
        simp [present, hnull]
      have hitem : item.colType = .ok .any := by rw [eq_null_of_isNull hnull, colType]
      rw [unifyItems, hnull]
      simp only [if_true, ih, hpresent, hitem, reduceCtorEq, exists_false, and_false, false_or]
    | false =>
      have hpresent (before : List Value) : present (item :: before) = item :: present before := by
        simp [present, hnull]
      rw [unifyItems_cons hnull]
      simp only [hpresent, List.forall_mem_cons]
      cases htype : item.colType with
      | error r =>
        refine iff_of_true ⟨r, rfl⟩ (.inl ⟨⟨soFar.getD .any, ?_, List.forall_mem_nil _⟩, r, rfl⟩)
        rintro t ⟨⟩
        rfl
      | ok type =>
        have hitem := (colType_eq_ok_iff item type).mp htype
        have hsame (s : ColType) : item.HasType s ↔ s = type :=
          ⟨fun hs => hs.unique hitem, fun hs => hs ▸ hitem⟩
        simp only [Sequence.ok_bind, hsame, reduceCtorEq, exists_false, and_false, false_or]
        cases soFar with
        | none => simp [commonType, ih]
        | some t =>
          by_cases heq : t = type
          · simp [commonType, ih, heq]
          · simp [commonType, heq]

theorem exists_fieldTypes_eq_error_iff {fields : List (String × Value)} :
    (∃ r, fieldTypes fields = .error r) ↔ ∃ f ∈ fields, ∃ r, f.2.colType = .error r := by
  induction fields with
  | nil => simp [fieldTypes]
  | cons f rest ih =>
    obtain ⟨name, value⟩ := f
    rw [List.exists_mem_cons_iff, ← ih, fieldTypes]
    cases value.colType with
    | error r => exact iff_of_true ⟨r, rfl⟩ (.inl ⟨r, rfl⟩)
    | ok type => simp [Sequence.ok_bind, Sequence.bind_ok_eq_error_iff]

/-- An empty list is met in a list that is one, or has one in an item behind alike ones. -/
theorem meetsEmpty_list_iff {items : List Value} :
    (Value.list items).MeetsEmpty ↔ items = [] ∨
      ∃ before x after, items = before ++ x :: after ∧ AreAlike (present before) ∧
        x.MeetsEmpty := by
  constructor
  · intro h
    cases h with
    | here h => exact .inl (List.isEmpty_iff.mp h)
    | item hfront hx => exact .inr ⟨_, _, _, rfl, hfront, hx⟩
  · rintro (rfl | ⟨before, x, after, rfl, hfront, hx⟩)
    · exact .here rfl
    · exact .item hfront hx

theorem meetsEmpty_map_iff {entries : Entries Value} :
    (Value.map entries).MeetsEmpty ↔ entries = [] ∨
      ∃ before x after, entries.map Prod.snd = before ++ x :: after ∧ AreAlike (present before) ∧
        x.MeetsEmpty := by
  constructor
  · intro h
    cases h with
    | here h => exact .inl (List.isEmpty_iff.mp h)
    | @entry before after e hfront hx =>
      exact .inr ⟨before.map Prod.snd, e.2, after.map Prod.snd, by simp, hfront, hx⟩
  · rintro (rfl | ⟨before, x, after, hsplit, hfront, hx⟩)
    · exact .here rfl
    · obtain ⟨front, rest, rfl, rfl, hrest⟩ := List.map_eq_append_iff.mp hsplit
      obtain ⟨e, behind, rfl, rfl, -⟩ := List.map_eq_cons_iff.mp hrest
      exact .entry hfront hx

theorem meetsEmpty_record_iff {name : String} {fields : List (String × Value)} :
    (Value.record ⟨name, fields⟩).MeetsEmpty ↔ ∃ f ∈ fields, f.2.MeetsEmpty := by
  constructor
  · intro h
    cases h with
    | here h => cases h
    | field hf hx => exact ⟨_, hf, hx⟩
  · rintro ⟨f, hf, hx⟩
    exact .field hf hx

/-- No common type is inferred where an empty list or map is met in an item behind alike ones. -/
theorem unifyItems_fails_iff {items : List Value}
    (hitems : ∀ x ∈ items, (∃ r, x.colType = .error r) ↔ x.MeetsEmpty) :
    (∃ r, unifyItems none items = .error r) ↔
      ∃ before x after, items = before ++ x :: after ∧ AreAlike (present before) ∧
        x.MeetsEmpty := by
  rw [exists_unifyItems_eq_error_iff]
  refine exists_congr fun before => exists_congr fun x => exists_congr fun after =>
    and_congr_right fun hsplit => and_congr ?_ (hitems x (by simp [hsplit]))
  simp [AreAlike]

/-- No type is inferred exactly where an empty list or map is met. -/
theorem exists_colType_eq_error_iff (v : Value) :
    (∃ r, v.colType = .error r) ↔ v.MeetsEmpty := by
  induction v using inductionOnParts with
  | null =>
    refine iff_of_false (by simp [colType]) fun h => ?_
    cases h with
    | here h => cases h
  | frame f =>
    refine iff_of_false (by simp [colType]) fun h => ?_
    cases h with
    | here h => cases h
  | scalar type v hv =>
    have hinferred := (colType_eq_ok_iff v (.scalar type)).mpr (.scalar hv)
    refine iff_of_false (by simp [hinferred]) fun h => ?_
    cases h with
    | here h => cases v <;> first | cases h | (cases type <;> cases hv)
    | _ => cases type <;> cases hv
  | list items ih =>
    rw [meetsEmpty_list_iff, ← unifyItems_fails_iff ih, colType]
    cases items with
    | nil => simp
    | cons first rest => simp [Sequence.map_eq_error_iff]
  | map entries ih =>
    have hvalues : ∀ x ∈ entries.map Prod.snd, (∃ r, x.colType = .error r) ↔ x.MeetsEmpty :=
      List.forall_mem_map.mpr ih
    rw [meetsEmpty_map_iff, ← unifyItems_fails_iff hvalues, colType, unifyEntries_eq]
    cases entries with
    | nil => simp
    | cons first rest => simp [Sequence.map_eq_error_iff]
  | record name fields ih =>
    rw [meetsEmpty_record_iff, colType]
    simp only [Sequence.map_eq_error_iff, exists_fieldTypes_eq_error_iff]
    exact exists_congr fun f => and_congr_right (ih f)

/-- A value has a type, or an empty list or map is met in it. -/
theorem exists_hasType_or_meetsEmpty (v : Value) : (∃ t, v.HasType t) ∨ v.MeetsEmpty := by
  rw [← exists_colType_eq_error_iff]
  cases h : v.colType with
  | ok t => exact .inl ⟨t, (colType_eq_ok_iff v t).mp h⟩
  | error r => exact .inr ⟨r, rfl⟩

end Value

end TypedModel
