import TypedModel.Proofs.Coercion.Conforms
import TypedModel.Schema.OfHint

/-!
# Fields that need not be given

The schema of a record says which of its properties are required, and coercion says which fields a
map may leave out. Both come from the defaults of the fields: a map that is accepted stays accepted
when some of its names are taken away just if none of them is the name of a required property, and
then only the fields of those names change, to their defaults.
-/

namespace TypedModel

open Sequence

/-- The entries that are left when names are taken away. -/
def Entries.without {α : Type} (gone : String → Bool) (entries : Entries α) : Entries α :=
  entries.filter fun e => !gone e.1

/-- What is taken away is not found any more, and everything else is found as before. -/
theorem Entries.get?_without {α : Type} (gone : String → Bool) (entries : Entries α)
    (name : String) :
    (entries.without gone).get? name = if gone name then none else entries.get? name := by
  have hfilter := lookup_filter (fun other => !gone other) name entries
  rw [get?, without, hfilter]
  cases gone name <;> rfl

/-- The fields of an instance before and after names are taken away from the map that it is built
from: the fields of those names take their defaults, and all others keep their values. -/
inductive Omitted (gone : String → Bool) :
    List FieldSpec → List (String × Value) → List (String × Value) → Prop where
  /-- There is no field. -/
  | done : Omitted gone [] [] []
  /-- A field that is taken away takes its default. -/
  | omitted {name : String} {hint : TypeHint} {default value : Value} {rest : List FieldSpec}
      {before after : List (String × Value)} (hgone : gone name = true)
      (later : Omitted gone rest before after) :
      Omitted gone (⟨name, hint, some default⟩ :: rest) ((name, value) :: before)
        ((name, default) :: after)
  /-- Any other field keeps its value. -/
  | kept {name : String} {hint : TypeHint} {default? : Option Value} {value : Value}
      {rest : List FieldSpec} {before after : List (String × Value)} (hkept : gone name = false)
      (later : Omitted gone rest before after) :
      Omitted gone (⟨name, hint, default?⟩ :: rest) ((name, value) :: before)
        ((name, value) :: after)

namespace TypeHint

section

variable {gone : String → Bool} {fields : List FieldSpec} {entries : Entries Value}
  {before : List (String × Value)}

/-- Fields that are built are still built without some names if those that are gone have defaults,
and are what taking these names away makes of them. -/
theorem plainFields_without_iff (h : plainFields fields entries = some before)
    (after : List (String × Value)) :
    plainFields fields (entries.without gone) = some after ↔ Omitted gone fields before after := by
  induction fields generalizing before after with
  | nil =>
    cases h
    constructor
    · intro hafter
      cases hafter
      exact .done
    · intro hafter
      cases hafter
      rfl
  | cons field rest ih =>
    obtain ⟨name, hint, default?⟩ := field
    obtain ⟨value, others, rfl, hvalue, hothers⟩ := plainFields_cons_eq_some_iff.mp h
    rw [plainFields_cons_eq_some_iff, Entries.get?_without]
    constructor
    · rintro ⟨now, later, rfl, hnow, hlater⟩
      have hrest := (ih hothers later).mp hlater
      cases hgone : gone name with
      | true =>
        rw [hgone] at hnow
        obtain rfl : default? = some now := hnow
        exact .omitted hgone hrest
      | false =>
        have hsame : now = value := by
          rw [hgone] at hnow
          cases hget : entries.get? name
          all_goals
            rw [hget] at hnow hvalue
            exact Option.some.inj (hnow.symm.trans hvalue)
        rw [hsame]
        exact .kept hgone hrest
    · intro hafter
      cases hafter with
      | omitted hgone later =>
        refine ⟨_, _, rfl, ?_, (ih hothers _).mpr later⟩
        rw [hgone]
        rfl
      | kept hkept later =>
        refine ⟨value, _, rfl, ?_, (ih hothers _).mpr later⟩
        rw [hkept]
        exact hvalue

/-- Names can be taken away if none of them is that of a field that has to be given. -/
theorem exists_omitted_iff (h : before.map Prod.fst = fields.map FieldSpec.name) :
    (∃ after, Omitted gone fields before after) ↔
      ∀ f ∈ fields, f.isRequired = true → gone f.name = false := by
  induction fields generalizing before with
  | nil =>
    rw [List.map_nil, List.map_eq_nil_iff] at h
    rw [h]
    exact iff_of_true ⟨[], .done⟩ fun f hf => absurd hf List.not_mem_nil
  | cons field rest ih =>
    obtain ⟨name, hint, default?⟩ := field
    obtain ⟨⟨name, value⟩, others, rfl, rfl, hothers⟩ := List.map_eq_cons_iff.mp h
    rw [List.forall_mem_cons, ← ih hothers]
    constructor
    · rintro ⟨after, hafter⟩
      cases hafter with
      | omitted hgone later =>
        exact ⟨fun hrequired => absurd hrequired Bool.false_ne_true, _, later⟩
      | kept hkept later => exact ⟨fun _ => hkept, _, later⟩
    · rintro ⟨hfield, after, later⟩
      cases hgone : gone name with
      | false => exact ⟨_, .kept hgone later⟩
      | true =>
        cases default? with
        | some default => exact ⟨_, .omitted hgone later⟩
        | none =>
          have hkept := hfield rfl
          rw [hgone] at hkept
          cases hkept

end

/-- The properties of fields are named as the fields are, in their order, and those of fields
without a default are required. -/
theorem properties_of_fieldTypes {fields : List FieldSpec} {properties : List Property}
    (h : fieldTypes fields = .ok properties) :
    properties.map (fun p => (p.name, p.required)) =
      fields.map fun f => (f.name, f.isRequired) := by
  induction fields generalizing properties with
  | nil =>
    cases h
    rfl
  | cons field rest ih =>
    obtain ⟨name, hint, default?⟩ := field
    rw [fieldTypes] at h
    obtain ⟨type, -, h⟩ := bind_eq_ok_iff.mp h
    obtain ⟨later, hlater, h⟩ := bind_eq_ok_iff.mp h
    cases h
    rw [List.map_cons, List.map_cons, ih hlater]
    rfl

/-- A record without a schema error is an object of the properties of its fields. -/
theorem exists_object {d : RecordDef} (h : (TypeHint.record d).schemaError? = Option.none) :
    ∃ properties, fieldTypes d.fields = .ok properties ∧
      (TypeHint.record d).schema = .ok (.single (.object properties)) := by
  obtain ⟨name, fields⟩ := d
  cases hfields : fieldTypes fields with
  | ok properties =>
    have htype : (TypeHint.record ⟨name, fields⟩).colType = .ok (.object properties) := by
      rw [colType, hfields]
      rfl
    refine ⟨properties, rfl, ?_⟩
    rw [schema, htype]
    rfl
  | error reason =>
    have htype : (TypeHint.record ⟨name, fields⟩).colType = .error reason := by
      rw [colType, hfields]
      rfl
    rw [schemaError?, schema, htype] at h
    cases h

/-- A record built from a map is an instance with the fields that are built from it. -/
theorem coerce_record_map_iff {d : RecordDef} {entries : Entries Value} {w : Value} :
    (TypeHint.record d).coerce (.map entries) = .ok w ↔
      ∃ values, plainFields d.fields entries = some values ∧ .record ⟨d.name, values⟩ = w := by
  obtain ⟨name, fields⟩ := d
  rw [coerce_eq_ok_iff, plain, plainRows, Option.map_eq_some_iff]
  intro r hinstance
  cases hinstance

/-- Schema and coercion agree on what may be left out. Every record definition that has a schema is
an object with one property for each field, named as the field and in the same order. Of every map
that the record accepts, names may be taken away just if none of them is the name of a required
property. Then the fields of these names take their defaults, and all others keep their values. -/
theorem required_properties_decide_omission (d : RecordDef)
    (h : (TypeHint.record d).schemaError? = Option.none) :
    ∃ properties, (TypeHint.record d).schema = .ok (.single (.object properties)) ∧
      properties.map Property.name = d.fields.map FieldSpec.name ∧
      ∀ (m : Entries Value) (w : Value), (TypeHint.record d).coerce (.map m) = .ok w →
        ∀ gone : String → Bool,
          ((∃ u, (TypeHint.record d).coerce (.map (m.without gone)) = .ok u) ↔
            ∀ p ∈ properties, p.required = true → gone p.name = false) ∧
          ∀ u, (TypeHint.record d).coerce (.map (m.without gone)) = .ok u →
            ∃ before after, w = .record ⟨d.name, before⟩ ∧ u = .record ⟨d.name, after⟩ ∧
              Omitted gone d.fields before after := by
  obtain ⟨properties, htypes, hschema⟩ := exists_object h
  have hproperties := properties_of_fieldTypes htypes
  have hnames := congrArg (List.map Prod.fst) hproperties
  rw [List.map_map, List.map_map] at hnames
  refine ⟨properties, hschema, hnames, fun m w hw gone => ?_⟩
  obtain ⟨before, hbefore, rfl⟩ := coerce_record_map_iff.mp hw
  have hwithout (after : List (String × Value)) :
      plainFields d.fields (m.without gone) = some after ↔ Omitted gone d.fields before after :=
    plainFields_without_iff hbefore after
  have haccepted : (∃ u, (TypeHint.record d).coerce (.map (m.without gone)) = .ok u) ↔
      ∃ after, Omitted gone d.fields before after := by
    constructor
    · rintro ⟨u, hu⟩
      obtain ⟨after, hafter, -⟩ := coerce_record_map_iff.mp hu
      exact ⟨after, (hwithout after).mp hafter⟩
    · rintro ⟨after, hafter⟩
      exact ⟨_, coerce_record_map_iff.mpr ⟨after, (hwithout after).mpr hafter, rfl⟩⟩
  constructor
  · rw [haccepted, exists_omitted_iff (names_of_plainFields hbefore)]
    have hrequired :
        (∀ q ∈ properties.map fun p => (p.name, p.required), q.2 = true → gone q.1 = false) ↔
          ∀ q ∈ d.fields.map fun f => (f.name, f.isRequired), q.2 = true → gone q.1 = false := by
      rw [hproperties]
    rw [List.forall_mem_map, List.forall_mem_map] at hrequired
    exact hrequired.symm
  · intro u hu
    obtain ⟨after, hafter, rfl⟩ := coerce_record_map_iff.mp hu
    exact ⟨before, after, rfl, rfl, (hwithout after).mp hafter⟩

/-- A query whose limit is a field twice, with two defaults, and whose tags may be null but have no
default: without its limit it is still accepted, and both limits are then their defaults. -/
theorem required_properties_decide_omission_query :
    let query : RecordDef := ⟨"Query",
      [⟨"text", .scalar .str, Option.none⟩, ⟨"limit", .optional (.scalar .int), some .null⟩,
        ⟨"tags", .optional (.list (.scalar .str)), Option.none⟩,
        ⟨"limit", .scalar .float, some (.double (.ofInt 1))⟩]⟩
    let given : Entries Value := [("limit", .long 3), ("tags", .null), ("text", .str "q")]
    let gone := fun name => name == "limit"
    (TypeHint.record query).schemaError? = Option.none ∧
      (TypeHint.record query).coerce (.map given) = .ok (.record ⟨"Query",
        [("text", .str "q"), ("limit", .long 3), ("tags", .null),
          ("limit", .double (.ofInt 3))]⟩) ∧
      ∃ properties u, (TypeHint.record query).schema = .ok (.single (.object properties)) ∧
        properties.map Property.name = ["text", "limit", "tags", "limit"] ∧
        (∀ p ∈ properties, p.required = true → gone p.name = false) ∧
        (TypeHint.record query).coerce (.map (given.without gone)) = .ok u ∧
        u = .record ⟨"Query", [("text", .str "q"), ("limit", .null), ("tags", .null),
          ("limit", .double (.ofInt 1))]⟩ := by
  intro query given gone
  have hquery : (TypeHint.record query).schemaError? = Option.none := rfl
  have haccepted : (TypeHint.record query).coerce (.map given) = .ok (.record ⟨"Query",
      [("text", .str "q"), ("limit", .long 3), ("tags", .null),
        ("limit", .double (.ofInt 3))]⟩) := rfl
  obtain ⟨properties, hschema, hnames, hall⟩ := required_properties_decide_omission query hquery
  obtain ⟨homission, -⟩ := hall given _ haccepted gone
  have hwithout := homission.mp ⟨_, rfl⟩
  exact ⟨hquery, haccepted, properties, _, hschema, hnames, hwithout, rfl, rfl⟩

end TypeHint

end TypedModel
