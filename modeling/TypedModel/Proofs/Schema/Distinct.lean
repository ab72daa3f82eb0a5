import TypedModel.Proofs.Schema.RoundTrip

/-!
# Distinct signatures have distinct documents

Forms of types have names of their own, and fields that may be left out are told by their names from
those that stand where they would. So each of a signature's parts is in its document, at any depth.
-/

namespace TypedModel

open Json Sequence

/-! ## Types -/

namespace ColType

/-- Types with the same fields have one form. -/
theorem form_eq_of_toFields {t u : ColType} (h : t.toFields = u.toFields) : t.form = u.form := by
  obtain ⟨name, parts, ht, hform, -⟩ := t.exists_toFields_eq
  obtain ⟨name', parts', hu, hform', -⟩ := u.exists_toFields_eq
  rw [ht, hu, List.cons.injEq, Prod.mk.injEq, Json.string.injEq] at h
  obtain ⟨⟨-, rfl⟩, -⟩ := h
  exact Option.some.inj (hform.symm.trans hform')

mutual

/-- Distinct types have distinct fields. -/
theorem eq_of_toFields : ∀ {t u : ColType}, t.toFields = u.toFields → t = u
  | .scalar a, u, h => by
    have hform := form_eq_of_toFields h
    cases u with
    | scalar b => rw [Form.scalar.inj hform]
    | _ => cases hform
  | .array t, u, h => by
    have hform := form_eq_of_toFields h
    cases u with
    | array u =>
      simp only [toFields, List.cons.injEq, Prod.mk.injEq, Json.object.injEq, true_and,
        and_true] at h
      rw [eq_of_toFields h]
    | _ => cases hform
  | .map t, u, h => by
    have hform := form_eq_of_toFields h
    cases u with
    | map u =>
      simp only [toFields, List.cons.injEq, Prod.mk.injEq, Json.object.injEq, true_and,
        and_true] at h
      rw [eq_of_toFields h]
    | _ => cases hform
  | .object ps, u, h => by
    have hform := form_eq_of_toFields h
    cases u with
    | object qs =>
      simp only [toFields, List.cons.injEq, Prod.mk.injEq, Json.array.injEq, true_and,
        and_true] at h
      rw [eq_of_propertiesToJson h]
    | _ => cases hform
  | .any, u, h => by
    have hform := form_eq_of_toFields h
    cases u with
    | any => rfl
    | _ => cases hform

/-- Distinct properties have distinct documents. -/
theorem eq_of_propertiesToJson :
    ∀ {ps qs : List Property}, propertiesToJson ps = propertiesToJson qs → ps = qs
  | [], [], _ => rfl
  | [], ⟨_, _, _⟩ :: _, h => nomatch h
  | ⟨m, t, p⟩ :: ps, ⟨n, u, q⟩ :: qs, h => by
    simp only [propertiesToJson, List.cons.injEq, Json.object.injEq, List.cons_append,
      Prod.mk.injEq, Json.string.injEq, true_and] at h
    obtain ⟨⟨rfl, hfields⟩, hrest⟩ := h
    obtain ⟨htype, hrequired⟩ := List.append_inj' hfields rfl
    simp only [List.cons.injEq, Prod.mk.injEq, Json.bool.injEq, true_and, and_true] at hrequired
    rw [eq_of_toFields htype, hrequired, eq_of_propertiesToJson hrest]

end

end ColType

/-! ## Fields that may be left out -/

/-- A field that may be left out is told by the fields if what stands behind it does not begin with
one of its name. -/
theorem optionalField_inj {α : Type} {key : String} {f : α → Json} {a b : Option α}
    {as bs : List (String × Json)} (hf : ∀ x y, f x = f y → x = y)
    (has : ∀ e ∈ as.head?, e.1 ≠ key) (hbs : ∀ e ∈ bs.head?, e.1 ≠ key)
    (h : a.elim [] (fun x => [(key, f x)]) ++ as = b.elim [] (fun x => [(key, f x)]) ++ bs) :
    a = b ∧ as = bs := by
  cases a with
  | none =>
    cases b with
    | none => exact ⟨rfl, h⟩
    | some y => exact absurd rfl (has (key, f y) (by rw [show as = _ from h]; rfl))
  | some x =>
    cases b with
    | none => exact absurd rfl (hbs (key, f x) (by rw [show bs = _ from h.symm]; rfl))
    | some y =>
      obtain ⟨hfield, hrest⟩ := List.cons.inj h
      rw [hf x y (Prod.mk.inj hfield).2]
      exact ⟨rfl, hrest⟩

/-! ## Columns, schemas and signatures -/

/-- Distinct columns have distinct documents. -/
theorem ColSpec.toJson_inj {c d : ColSpec} : c.toJson = d.toJson ↔ c = d := by
  refine ⟨fun h => ?_, congrArg toJson⟩
  have hfields (c : ColSpec) : c.toJson =
      .object (c.name.elim [] (fun name => [("name", .string name)]) ++
        (c.type.toFields ++ [("required", .bool c.required)])) := by
    obtain ⟨name, type, required⟩ := c
    cases name <;> rfl
  have hfirst (c : ColSpec) :
      ∀ e ∈ (c.type.toFields ++ [("required", Json.bool c.required)]).head?, e.1 ≠ "name" := by
    obtain ⟨name, parts, htype, -⟩ := c.type.exists_toFields_eq
    simp [htype]
  rw [hfields, hfields, Json.object.injEq] at h
  obtain ⟨hname, hrest⟩ :=
    optionalField_inj (fun _ _ => Json.string.inj) (hfirst c) (hfirst d) h
  obtain ⟨htype, hrequired⟩ := List.append_inj' hrest rfl
  simp only [List.cons.injEq, Prod.mk.injEq, Json.bool.injEq, true_and, and_true] at hrequired
  obtain ⟨m, t, p⟩ := c
  obtain ⟨n, u, q⟩ := d
  rw [ColSpec.mk.injEq]
  exact ⟨hname, ColType.eq_of_toFields htype, hrequired⟩

/-- Distinct schemas have distinct documents. -/
theorem Schema.toJson_inj {s t : Schema} : s.toJson = t.toJson ↔ s = t := by
  refine ⟨fun h => ?_, congrArg toJson⟩
  simp only [toJson, Json.object.injEq, List.cons.injEq, Prod.mk.injEq, Json.array.injEq,
    true_and, and_true] at h
  have hcolumns : s.columns = t.columns := eq_of_map_eq_map (fun _ _ _ => ColSpec.toJson_inj.mp) h
  exact congrArg mk hcolumns

/-- Distinct signatures have distinct documents. -/
theorem ModelSignature.toJson_inj {s t : ModelSignature} : s.toJson = t.toJson ↔ s = t := by
  refine ⟨fun h => ?_, congrArg toJson⟩
  have hschema : ∀ s t : Schema, s.toJson = t.toJson → s = t := fun _ _ => Schema.toJson_inj.mp
  have houtputs (s : ModelSignature) :
      ∀ e ∈ (schemaFields "outputs" s.outputs ++
        [("from_type_hint", Json.bool s.fromTypeHint)]).head?, e.1 ≠ "inputs" := by
    cases s.outputs <;> simp [schemaFields]
  rw [toJson_eq, toJson_eq, Json.object.injEq] at h
  obtain ⟨hinputs, hrest⟩ := optionalField_inj hschema (houtputs s) (houtputs t) h
  obtain ⟨houtputs, horigin⟩ := optionalField_inj hschema (by simp) (by simp) hrest
  simp only [List.cons.injEq, Prod.mk.injEq, Json.bool.injEq, true_and, and_true] at horigin
  obtain ⟨inputs, outputs, fromTypeHint⟩ := s
  obtain ⟨inputs', outputs', fromTypeHint'⟩ := t
  rw [ModelSignature.mk.injEq]
  exact ⟨hinputs, houtputs, horigin⟩

end TypedModel
