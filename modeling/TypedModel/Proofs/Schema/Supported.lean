import TypedModel.Proofs.Predict.Warning
import TypedModel.Proofs.Schema.Fits

/-!
# Supported hints

Which hints have a schema, said without building one. A part without a schema spoils lists, dicts,
records and optional hints around it, but no other union: what such a union holds is never looked
at. The main statement is that the check of a hint and the guards of a hint draw this line, and that
the error names the whole hint.
-/

namespace TypedModel

namespace TypeHint

/-- Hints without a schema. Of the unions only the optional hints are among them: a hint other than
none and none itself, in either order. -/
inductive IsUnsupported : TypeHint → Prop
  /-- None by itself. -/
  | none : IsUnsupported .none
  /-- Frames. -/
  | frame : IsUnsupported .frame
  /-- A class. -/
  | foreign (name : String) : IsUnsupported (.foreign name)
  /-- A list of items without a schema. -/
  | list {element : TypeHint} (h : IsUnsupported element) : IsUnsupported (.list element)
  /-- A dict whose names are not exactly texts. -/
  | key {key value : TypeHint} (h : key ≠ .scalar .str) : IsUnsupported (.dict key value)
  /-- A dict of values without a schema. -/
  | value {key value : TypeHint} (h : IsUnsupported value) : IsUnsupported (.dict key value)
  /-- A record with a field without a schema. -/
  | field {d : RecordDef} {f : FieldSpec} (hf : f ∈ d.fields) (h : IsUnsupported f.hint) :
    IsUnsupported (.record d)
  /-- A hint without a schema that is made optional. -/
  | optional {inner : TypeHint} (hinner : inner ≠ .none) (h : IsUnsupported inner) :
    IsUnsupported (.union [inner, .none])
  /-- The same with none in front. -/
  | optionalFlipped {inner : TypeHint} (hinner : inner ≠ .none) (h : IsUnsupported inner) :
    IsUnsupported (.union [.none, inner])

/-- Only none is none. -/
theorem isNone_eq_false_iff {h : TypeHint} : h.isNone = false ↔ h ≠ .none := by
  cases h <;> simp [isNone]

/-- Only the hint of texts is the one of texts. -/
theorem isStr_iff {h : TypeHint} : h.isStr = true ↔ h = .scalar .str := by
  constructor
  · intro hstr
    unfold isStr at hstr
    split at hstr
    · rfl
    · cases hstr
  · rintro rfl
    rfl

/-- A union makes a hint optional if it has that hint and none, in one order or the other, and the
hint is not none as well. -/
theorem optionalMember?_eq_some_iff {members : List TypeHint} {inner : TypeHint} :
    optionalMember? members = some inner ↔
      inner ≠ .none ∧ (members = [inner, .none] ∨ members = [.none, inner]) := by
  constructor
  · intro h
    refine ⟨?_, eq_pair_of_optionalMember h⟩
    rintro rfl
    rcases eq_pair_of_optionalMember h with rfl | rfl <;> cases h
  · rintro ⟨hinner, hpair⟩
    have hfalse := isNone_eq_false_iff.mpr hinner
    have hnone : TypeHint.none.isNone = true := rfl
    rcases hpair with rfl | rfl <;> simp [optionalMember?, hfalse, hnone]

/-- A union is without a schema where it makes a hint without one optional. -/
theorem isUnsupported_union_iff {members : List TypeHint} :
    IsUnsupported (.union members) ↔
      ∃ inner, optionalMember? members = some inner ∧ inner.IsUnsupported := by
  constructor
  · intro h
    cases h with
    | optional hinner h => exact ⟨_, optionalMember?_eq_some_iff.mpr ⟨hinner, .inl rfl⟩, h⟩
    | optionalFlipped hinner h => exact ⟨_, optionalMember?_eq_some_iff.mpr ⟨hinner, .inr rfl⟩, h⟩
  · rintro ⟨inner, hoptional, h⟩
    obtain ⟨hinner, rfl | rfl⟩ := optionalMember?_eq_some_iff.mp hoptional
    · exact .optional hinner h
    · exact .optionalFlipped hinner h

mutual

/-- A hint has no column type exactly where it is unsupported. -/
theorem exists_colType_eq_error_iff : ∀ h : TypeHint,
    (∃ reason, h.colType = .error reason) ↔ h.IsUnsupported
  | .scalar _ | .any => iff_of_false nofun nofun
  | .none => iff_of_true ⟨_, rfl⟩ .none
  | .frame => iff_of_true ⟨_, rfl⟩ .frame
  | .foreign name => iff_of_true ⟨_, rfl⟩ (.foreign name)
  | .list element => by
    have helement : (TypeHint.list element).IsUnsupported ↔ element.IsUnsupported :=
      ⟨fun h => by cases h; assumption, .list⟩
    rw [helement, ← exists_colType_eq_error_iff element]
    simp only [colType, Sequence.map_eq_error_iff]
  | .dict key value => by
    rw [colType]
    split
    next hkey =>
      have hvalue : (TypeHint.dict key value).IsUnsupported ↔ value.IsUnsupported := by
        refine ⟨fun h => ?_, .value⟩
        cases h with
        | key hne => exact absurd (isStr_iff.mp hkey) hne
        | value h => exact h
      rw [hvalue, ← exists_colType_eq_error_iff value]
      simp only [Sequence.map_eq_error_iff]
    next hkey =>
      have hne : key ≠ .scalar .str := fun h => hkey (isStr_iff.mpr h)
      exact iff_of_true ⟨_, rfl⟩ (.key hne)
  | .union members => by
    rw [colType_union, isUnsupported_union_iff]
    cases hoptional : optionalMember? members with
    | none => exact iff_of_false nofun nofun
    | some inner =>
      have hinner : inner ∈ members := by
        rcases eq_pair_of_optionalMember hoptional with rfl | rfl <;> simp
      rw [Option.elim, exists_colType_eq_error_iff_of_mem members inner hinner]
      simp
  | .record ⟨name, fields⟩ => by
    have hfields : (TypeHint.record ⟨name, fields⟩).IsUnsupported ↔
        ∃ f ∈ fields, f.hint.IsUnsupported :=
      ⟨fun h => by cases h; exact ⟨_, ‹_›, ‹_›⟩, fun ⟨f, hf, h⟩ => .field hf h⟩
    rw [hfields, ← exists_fieldTypes_eq_error_iff fields]
    simp only [colType, Sequence.map_eq_error_iff]

/-- A member of a union has no column type exactly where it is unsupported. -/
theorem exists_colType_eq_error_iff_of_mem : ∀ (members : List TypeHint), ∀ member ∈ members,
    ((∃ reason, member.colType = .error reason) ↔ member.IsUnsupported)
  | first :: rest, member, hm => by
    rcases List.mem_cons.mp hm with he | hm
    · rw [he]
      exact exists_colType_eq_error_iff first
    · exact exists_colType_eq_error_iff_of_mem rest member hm

/-- Fields have no properties exactly where one of them is unsupported. -/
theorem exists_fieldTypes_eq_error_iff : ∀ fields : List FieldSpec,
    (∃ reason, fieldTypes fields = .error reason) ↔ ∃ f ∈ fields, f.hint.IsUnsupported
  | [] => iff_of_false nofun nofun
  | ⟨name, hint, default?⟩ :: rest => by
    rw [List.exists_mem_cons_iff, ← exists_colType_eq_error_iff hint,
      ← exists_fieldTypes_eq_error_iff rest, fieldTypes]
    cases hint.colType with
    | error reason => exact iff_of_true ⟨reason, rfl⟩ (.inl ⟨reason, rfl⟩)
    | ok type => cases fieldTypes rest <;> simp [bind, Except.bind]

end

/-- An error with a hint gives a reason behind the text of the whole hint. -/
theorem schema_eq_error_iff {h : TypeHint} {e : SchemaError} :
    h.schema = .error e ↔ ∃ reason, h.colType = .error reason ∧
      e = .unsupportedHint h.display reason := by
  unfold schema
  cases h.colType <;> simp [eq_comm]

/-- A hint has no schema exactly where it is unsupported. -/
theorem exists_schema_eq_error_iff {h : TypeHint} :
    (∃ e, h.schema = .error e) ↔ h.IsUnsupported := by
  simp only [← exists_colType_eq_error_iff, schema_eq_error_iff]
  constructor
  · rintro ⟨-, reason, hreason, -⟩
    exact ⟨reason, hreason⟩
  · rintro ⟨reason, hreason⟩
    exact ⟨_, reason, hreason, rfl⟩

/-- The check of a hint gives the error that its schema has. -/
theorem schemaError?_eq_some_iff {h : TypeHint} {e : SchemaError} :
    h.schemaError? = some e ↔ h.schema = .error e := by
  unfold schemaError?
  cases h.schema <;> simp

/-- A guard coerces inputs to its hint exactly where the hint is supported, however the guard is
made: frames, which it passes through, are unsupported as well. -/
theorem validatesInput_start_iff {h : TypeHint} {owner : String} {output : Option TypeHint}
    {quiet enabled : Bool} :
    (Guard.start owner ⟨some h, output⟩ quiet enabled).validatesInput = true ↔
      ¬ h.IsUnsupported := by
  have hinput : (Guard.start owner ⟨some h, output⟩ quiet enabled).input = .ofHint (some h) := by
    cases quiet <;> rfl
  rw [Guard.validatesInput, hinput, InputCheck.ofHint]
  by_cases hpassed : h.isPassThrough = true
  · have hframe : h = .frame := by
      cases h <;> first | rfl | cases hpassed
    rw [if_pos hpassed, hframe]
    exact iff_of_false Bool.false_ne_true (not_not.mpr .frame)
  · rw [if_neg hpassed]
    cases hcheck : h.schemaError? with
    | some e =>
      have herror := exists_schema_eq_error_iff.mp ⟨e, schemaError?_eq_some_iff.mp hcheck⟩
      exact iff_of_false Bool.false_ne_true (not_not.mpr herror)
    | none =>
      refine iff_of_true rfl fun hunsupported => ?_
      obtain ⟨e, he⟩ := exists_schema_eq_error_iff.mpr hunsupported
      rw [schemaError?_eq_some_iff.mpr he] at hcheck
      cases hcheck

/-- The check of a hint recognises exactly the supported ones. It fails, as the schema of the hint
does, where the hint is unsupported; the error is of that code, a warning and no rejection, and tells
the text of the whole hint, wherever in it the unsupported part stands. Guards of the hint coerce
their inputs exactly where it is supported. -/
theorem check_recognises_supported (h : TypeHint) :
    ((∃ e, h.schema = .error e) ↔ h.IsUnsupported) ∧
      ((∃ e, h.schemaError? = some e) ↔ h.IsUnsupported) ∧
      (∀ e, h.schema = .error e ∨ h.schemaError? = some e →
        e.code = "HINTSIG_UNSUPPORTED_TYPE_HINT" ∧ e.severity = .warn ∧ e.isReject = false ∧
          e.hint? = some h.display ∧
          ∃ reason : String, e.message = s!"Unsupported type hint `{h.display}`: {reason}") ∧
      ∀ owner output quiet enabled,
        (Guard.start owner ⟨some h, output⟩ quiet enabled).validatesInput = true ↔
          ¬ h.IsUnsupported := by
  refine ⟨exists_schema_eq_error_iff, ?_, fun e he => ?_, fun _ _ _ _ => validatesInput_start_iff⟩
  · simp only [schemaError?_eq_some_iff]
    exact exists_schema_eq_error_iff
  · rw [schemaError?_eq_some_iff, or_self] at he
    obtain ⟨reason, -, rfl⟩ := schema_eq_error_iff.mp he
    exact ⟨rfl, rfl, rfl, rfl, reason, rfl⟩

/-- Two nones make no hint optional, so their union is anything. -/
example : (TypeHint.union [.none, .none]).colType = .ok .any := rfl

end TypeHint

end TypedModel
