import TypedModel.Schema.Json
import TypedModel.Proofs.Json.Reads

/-!
# Signatures read back

The document of a signature reads back as that signature as long as its containers fit within the
nesting limit. The fields of a type stand among those of its column or property, which are read
whole first and then read as a type.
-/

namespace TypedModel

open Json Decoder Sequence

namespace ColType

/-! ## Written types have a text -/

mutual

/-- The fields of a type are writable. -/
theorem fieldsWritable_toFields : ∀ t : ColType, fieldsWritable t.toFields = true
  | .scalar _ | .any => rfl
  | .array items => by
    simp only [toFields, fieldsWritable, isWritable, fieldsWritable_toFields items, Bool.and_self]
  | .map values => by
    simp only [toFields, fieldsWritable, isWritable, fieldsWritable_toFields values, Bool.and_self]
  | .object properties => by
    simp only [toFields, fieldsWritable, isWritable, itemsWritable_properties properties,
      Bool.and_self]

/-- The documents of properties are writable. -/
theorem itemsWritable_properties : ∀ properties : List Property,
    itemsWritable (propertiesToJson properties) = true
  | [] => rfl
  | ⟨name, type, required⟩ :: rest => by
    have hfields : fieldsWritable (type.toFields ++ [("required", .bool required)]) = true :=
      fieldsWritable_append (fieldsWritable_toFields type) rfl
    simp only [propertiesToJson, itemsWritable, isWritable, List.cons_append, fieldsWritable,
      hfields, itemsWritable_properties rest, Bool.and_self]

end

/-- The fields of a type have names of their own. -/
theorem name_of_mem_toFields {t : ColType} {f : String × Json} (h : f ∈ t.toFields) :
    f.1 ∈ ["type", "items", "values", "properties"] := by
  cases t <;> simp only [toFields, List.mem_cons, List.not_mem_nil, or_false] at h <;>
    rcases h with rfl | rfl <;> simp

/-! ## Reading types -/

/-- Form and parts of a type are told apart where the parts fit. -/
theorem splitForm_cutFields {name : String} {form : Form} {parts : List (String × Json)}
    {held : Bool} {outer : Nat} (ho : outer ≤ nestingLimit)
    (hform : Form.options.lookup name = some form) (hw : fieldsWritable parts = true)
    (hnames : ∀ f ∈ parts, f.1 ≠ "type") :
    splitForm (Decoder.choice Form.options held)
        (cutFields outer (("type", .string name) :: parts)) =
      within (outer + fieldsDepth parts ≤ nestingLimit) (form, parts) := by
  have hfirst : splitForm.step (Decoder.choice Form.options held) (none, [])
      ("type", .string name) = .ok (some form, []) := by
    simp only [splitForm.step, once, choice, hform, required, if_true]
    rfl
  have hstep (slots : Option Form × List (String × Json)) (j : Json) : ∀ f ∈ parts,
      splitForm.step (Decoder.choice Form.options held) slots (f.1, j) =
        (whole j).map fun w => (slots.1, slots.2 ++ [(f.1, w)]) := by
    intro f hf
    rw [splitForm.step, if_neg (hnames f hf)]
    cases whole j <;> rfl
  have hrest := foldlM_whole (fun slots fields => (slots.1, slots.2 ++ fields)) (by simp)
    (by simp) ho hw hstep (some form, [])
  have hcut : cutFields outer (("type", .string name) :: parts) =
      ("type", .string name) :: cutFields outer parts := rfl
  rw [splitForm, hcut, List.foldlM_cons, hfirst, ok_bind, hrest]
  exact within_bind_ok fun _ => rfl

/-- Form and parts of a type that fits are told apart. -/
theorem splitForm_cons {name : String} {form : Form} {parts : List (String × Json)} {held : Bool}
    (hform : Form.options.lookup name = some form) (hw : fieldsWritable parts = true)
    (hfits : fieldsDepth parts ≤ nestingLimit) (hnames : ∀ f ∈ parts, f.1 ≠ "type") :
    splitForm (Decoder.choice Form.options held) (("type", .string name) :: parts) =
      .ok (form, parts) := by
  have hsplit : splitForm (Decoder.choice Form.options held)
      (cutFields 0 (("type", .string name) :: parts)) = _ :=
    splitForm_cutFields (Nat.zero_le nestingLimit) hform hw hnames
  have hdepth : fieldsDepth (("type", .string name) :: parts) = fieldsDepth parts :=
    Nat.zero_max _
  rwa [cutFields_of_fits _ 0 (by omega), within_of_fits (by omega)] at hsplit

/-- The fields of a property are told apart where those of its type fit. -/
theorem decodeProperty_cutFields {type : Decoder ColType} {name : String} {t : ColType}
    {required : Bool} {outer : Nat} (ho : outer ≤ nestingLimit)
    (htype : outer + fieldsDepth t.toFields ≤ nestingLimit → type t.toJson = .ok t) :
    decodeProperty type (.object (cutFields outer
        (("name", .string name) :: t.toFields ++ [("required", .bool required)]))) =
      within (outer + fieldsDepth t.toFields ≤ nestingLimit) ⟨name, t, required⟩ := by
  have hstep (slots : Option String × Option Bool × List (String × Json)) (j : Json) :
      ∀ f ∈ t.toFields, decodeProperty.step slots (f.1, j) =
        (whole j).map fun w => (slots.1, slots.2.1, slots.2.2 ++ [(f.1, w)]) := by
    intro f hf
    have hname := name_of_mem_toFields hf
    simp only [List.mem_cons, List.not_mem_nil, or_false] at hname
    rcases hname with h | h | h | h <;> rw [h] <;> simp only [decodeProperty.step] <;>
      cases whole j <;> rfl
  have htypes := foldlM_whole (fun slots fields => (slots.1, slots.2.1, slots.2.2 ++ fields))
    (by simp) (by simp) ho (fieldsWritable_toFields t) hstep (some name, none, [])
  have hname : decodeProperty.step (none, none, []) ("name", .string name) =
      .ok (some name, none, []) := rfl
  have hrequired (fields : List (String × Json)) :
      decodeProperty.step (some name, none, fields) ("required", .bool required) =
        .ok (some name, some required, fields) := rfl
  have hcut : cutFields outer (("name", .string name) :: t.toFields ++
      [("required", .bool required)]) =
        ("name", .string name) :: (cutFields outer t.toFields ++ [("required", .bool required)]) := by
    rw [List.cons_append, cutFields, cutFields_append]
    rfl
  rw [hcut, decodeProperty, List.foldlM_cons, hname, ok_bind, List.foldlM_append, htypes,
    bind_assoc]
  refine within_bind_ok fun hfits => ?_
  rw [List.nil_append, List.foldlM_cons, hrequired, ok_bind, List.foldlM_nil, pure_bind]
  show (type (.object t.toFields) >>= fun t => .ok (Property.mk name t required)) = _
  rw [← toJson, htype hfits, ok_bind]

/-- The fields of a property that fits are told apart. -/
theorem decodeProperty_toJson {type : Decoder ColType} {name : String} {t : ColType}
    {required : Bool} (hfits : fieldsDepth t.toFields ≤ nestingLimit)
    (htype : type t.toJson = .ok t) :
    decodeProperty type
        (.object (("name", .string name) :: t.toFields ++ [("required", .bool required)])) =
      .ok ⟨name, t, required⟩ := by
  have hread : decodeProperty type (.object (cutFields 0
      (("name", .string name) :: t.toFields ++ [("required", .bool required)]))) = _ :=
    decodeProperty_cutFields (Nat.zero_le nestingLimit) fun _ => htype
  have hdepth : fieldsDepth (("name", .string name) :: t.toFields ++
      [("required", .bool required)]) = fieldsDepth t.toFields := by
    simp [fieldsDepth_append, fieldsDepth, depth]
  rwa [cutFields_of_fits _ 0 (by omega), within_of_fits (by omega)] at hread

/-- The only part of a form is read under its name. -/
theorem only_fields {α : Type} (key : String) (part : Decoder α) (j : Json) :
    Parts.only key part (.fields [(key, j)]) = part j := by
  simp only [Parts.only, List.foldlM_cons, List.foldlM_nil, if_true, once]
  cases part j <;> rfl

/-- A type whose form has a part is read from that part. -/
theorem decodeWithin_part {name key : String} {form : Form} {part : Json} {levels : Nat}
    {held : Bool} (hform : Form.options.lookup name = some form) (hkey : key ≠ "type")
    (hw : part.isWritable = true) (hfits : part.depth ≤ nestingLimit) :
    decodeWithin (levels + 1) held (.object [("type", .string name), (key, part)]) =
      ofParts (decodeWithin levels true) (Decoder.list (decodeProperty (decodeWithin levels true)))
        (.fields [(key, part)]) form := by
  have hsplit : splitForm (Decoder.choice Form.options held) [("type", .string name), (key, part)] =
      .ok (form, [(key, part)]) :=
    splitForm_cons hform (by simp only [fieldsWritable, hw, Bool.and_self])
      (by simp only [fieldsDepth]; omega) (by simpa using hkey)
  rw [decodeWithin, hsplit]
  rfl

/-- A type whose form has no part is read from the form. -/
theorem decodeWithin_leaf {name : String} {form : Form} {levels : Nat} {held : Bool}
    (hform : Form.options.lookup name = some form) :
    decodeWithin (levels + 1) held (.object [("type", .string name)]) =
      ofParts (decodeWithin levels true) (Decoder.list (decodeProperty (decodeWithin levels true)))
        (.fields []) form := by
  have hsplit : splitForm (Decoder.choice Form.options held) [("type", .string name)] =
      .ok (form, []) := splitForm_cons hform rfl (Nat.zero_le _) (by simp)
  rw [decodeWithin, hsplit]
  rfl

mutual

/-- The document of a type is read as the type, within as many levels as it has. -/
theorem decodeWithin_toJson : ∀ (t : ColType) (levels : Nat) (held : Bool),
    t.toJson.depth ≤ levels → t.toJson.depth ≤ nestingLimit →
    decodeWithin levels held t.toJson = .ok t
  | t, 0, held, hl, _ => absurd hl (by rw [toJson, depth]; omega)
  | .scalar type, levels + 1, held, hl, hn => by
    have hform : Form.options.lookup type.name = some (.scalar type) := by cases type <;> rfl
    rw [toJson, toFields, decodeWithin_leaf hform]
    rfl
  | .any, levels + 1, held, hl, hn => by
    rw [toJson, toFields, decodeWithin_leaf rfl]
    rfl
  | .array items, levels + 1, held, hl, hn => by
    simp only [toJson, toFields, depth, fieldsDepth] at hl hn
    have hw : (Json.object items.toFields).isWritable = true := fieldsWritable_toFields items
    have hitems := decodeWithin_toJson items levels true (by rw [toJson, depth]; omega)
      (by rw [toJson, depth]; omega)
    rw [toJson, toFields, decodeWithin_part rfl (by decide) hw (by rw [depth]; omega), ofParts,
      only_fields]
    exact congrArg (Except.map ColType.array) hitems
  | .map values, levels + 1, held, hl, hn => by
    simp only [toJson, toFields, depth, fieldsDepth] at hl hn
    have hw : (Json.object values.toFields).isWritable = true := fieldsWritable_toFields values
    have hvalues := decodeWithin_toJson values levels true (by rw [toJson, depth]; omega)
      (by rw [toJson, depth]; omega)
    rw [toJson, toFields, decodeWithin_part rfl (by decide) hw (by rw [depth]; omega), ofParts,
      only_fields]
    exact congrArg (Except.map ColType.map) hvalues
  | .object properties, levels + 1, held, hl, hn => by
    simp only [toJson, toFields, depth, fieldsDepth] at hl hn
    have hw : (Json.array (propertiesToJson properties)).isWritable = true :=
      itemsWritable_properties properties
    have hproperties := mapM_decodeProperty properties levels (by omega) (by omega)
    rw [toJson, toFields, decodeWithin_part rfl (by decide) hw (by rw [depth]; omega), ofParts,
      only_fields]
    exact congrArg (Except.map ColType.object) hproperties

/-- The documents of properties are read as the properties. -/
theorem mapM_decodeProperty : ∀ (properties : List Property) (levels : Nat),
    itemsDepth (propertiesToJson properties) ≤ levels →
    itemsDepth (propertiesToJson properties) ≤ nestingLimit →
    (propertiesToJson properties).mapM (decodeProperty (decodeWithin levels true)) = .ok properties
  | [], _, _, _ => rfl
  | ⟨name, type, required⟩ :: rest, levels, hl, hn => by
    rw [propertiesToJson, itemsDepth, depth, List.cons_append, fieldsDepth, fieldsDepth_append]
      at hl hn
    have htype := decodeWithin_toJson type levels true (by rw [toJson, depth]; omega)
      (by rw [toJson, depth]; omega)
    have hfirst : decodeProperty (decodeWithin levels true)
        (.object (("name", .string name) :: type.toFields ++ [("required", .bool required)])) =
          .ok ⟨name, type, required⟩ := decodeProperty_toJson (by omega) htype
    have hrest := mapM_decodeProperty rest levels (by omega) (by omega)
    rw [propertiesToJson, List.mapM_cons, hfirst, ok_bind, hrest]
    rfl

end

/-- Outermost form of a type. -/
def form : ColType → Form
  | .scalar type => .scalar type
  | .array _ => .array
  | .map _ => .map
  | .object _ => .object
  | .any => .any

/-- The first field of a type names its form, and no other does. -/
theorem exists_toFields_eq (t : ColType) : ∃ name parts,
    t.toFields = ("type", .string name) :: parts ∧ Form.options.lookup name = some t.form ∧
      ∀ f ∈ parts, f.1 ≠ "type" := by
  cases t with
  | scalar type => exact ⟨type.name, [], rfl, by cases type <;> rfl, by simp⟩
  | array items => exact ⟨"array", _, rfl, rfl, by simp⟩
  | map values => exact ⟨"map", _, rfl, rfl, by simp⟩
  | object properties => exact ⟨"object", _, rfl, rfl, by simp⟩
  | any => exact ⟨"any", [], rfl, rfl, by simp⟩

/-- The document of a type is writable. -/
theorem isWritable_toJson (t : ColType) : t.toJson.isWritable = true := fieldsWritable_toFields t

/-- The document of a type by itself is read as the type. -/
theorem reads_toJson (t : ColType) (outer : Nat) : Reads decoder outer t.toJson t := by
  refine reads_object rfl fun hlimit => ?_
  by_cases hfits : outer + 1 + fieldsDepth t.toFields ≤ nestingLimit
  · have hdepth : t.toJson.depth ≤ nestingLimit := by
      rw [toJson, depth]
      omega
    have hread : decodeWithin (nestingLimit + 1) false t.toJson = .ok t :=
      decodeWithin_toJson t _ false (Nat.le_succ_of_le hdepth) hdepth
    rw [cutFields_of_fits _ _ hfits, within_of_fits hfits]
    exact hread
  · -- the parts are read whole before the form is used, so what is too deep fails there
    obtain ⟨name, parts, hfields, hform, hnames⟩ := exists_toFields_eq t
    have hw : fieldsWritable parts = true := by
      have hall := fieldsWritable_toFields t
      rwa [hfields] at hall
    have hsplit : splitForm (Decoder.choice Form.options false)
        (cutFields (outer + 1) (("type", .string name) :: parts)) = _ :=
      splitForm_cutFields hlimit hform hw hnames
    have hdeep : ¬ outer + 1 + fieldsDepth parts ≤ nestingLimit := by
      rw [hfields] at hfits
      exact fun h => hfits (by simpa [fieldsDepth, depth] using h)
    rw [within_of_not hfits, hfields, decoder, decodeWithin, hsplit, within_of_not hdeep]
    rfl

/-- The fields of a type that fits are read as the type. -/
theorem fieldsDecoder_toFields {t : ColType} (h : fieldsDepth t.toFields + 1 ≤ nestingLimit) :
    fieldsDecoder (.object t.toFields) = .ok t :=
  decodeWithin_toJson t (nestingLimit + 1) true (Nat.le_succ_of_le h) h

end ColType

namespace Property

/-- The document of a property is writable. -/
theorem isWritable_toJson (p : Property) : p.toJson.isWritable = true := by
  have hleading : fieldsWritable (("name", .string p.name) :: p.type.toFields) = true :=
    ColType.fieldsWritable_toFields p.type
  exact fieldsWritable_append hleading rfl

/-- The document of a property is read as the property. -/
theorem reads_toJson (p : Property) (outer : Nat) : Reads decoder outer p.toJson p := by
  obtain ⟨name, type, required⟩ := p
  refine reads_object rfl fun hlimit => ?_
  have htype (hfits : outer + 1 + fieldsDepth type.toFields ≤ nestingLimit) :
      ColType.fieldsDecoder type.toJson = .ok type :=
    ColType.fieldsDecoder_toFields (by omega)
  have hdepth : fieldsDepth (("name", .string name) :: type.toFields ++
      [("required", .bool required)]) = fieldsDepth type.toFields := by
    simp [fieldsDepth_append, fieldsDepth, depth]
  rw [hdepth]
  exact ColType.decodeProperty_cutFields hlimit htype

end Property

/-! ## Columns and schemas -/

namespace ColSpec

/-- The document of a column is writable. -/
theorem isWritable_toJson (c : ColSpec) : c.toJson.isWritable = true := by
  have hfields : fieldsWritable (c.type.toFields ++ [("required", .bool c.required)]) = true :=
    fieldsWritable_append (ColType.fieldsWritable_toFields c.type) rfl
  obtain ⟨name, type, required⟩ := c
  cases name with
  | none => exact hfields
  | some name => exact hfields

/-- Type fields of a column are kept for later. -/
theorem foldlM_step (slots : Option (Option String) × Option Bool) (t : ColType) {outer : Nat}
    (ho : outer ≤ nestingLimit) :
    (cutFields outer t.toFields).foldlM decoder.step (slots.1, slots.2, []) =
      within (outer + fieldsDepth t.toFields ≤ nestingLimit) (slots.1, slots.2, t.toFields) := by
  have hstep (slots : Option (Option String) × Option Bool × List (String × Json)) (j : Json) :
      ∀ f ∈ t.toFields, decoder.step slots (f.1, j) =
        (whole j).map fun w => (slots.1, slots.2.1, slots.2.2 ++ [(f.1, w)]) := by
    intro f hf
    have hname := ColType.name_of_mem_toFields hf
    simp only [List.mem_cons, List.not_mem_nil, or_false] at hname
    rcases hname with h | h | h | h <;> rw [h] <;> simp only [decoder.step] <;>
      cases whole j <;> rfl
  exact foldlM_whole (fun slots fields => (slots.1, slots.2.1, slots.2.2 ++ fields)) (by simp)
    (by simp) ho (ColType.fieldsWritable_toFields t) hstep (slots.1, slots.2, [])

/-- A column is read from its type fields and the switch behind them. -/
theorem foldlM_typeAndRequired {slot : Option (Option String)} (c : ColSpec) {outer : Nat}
    (hslot : slot.getD none = c.name) (ho : outer < nestingLimit) :
    ((cutFields (outer + 1) (c.type.toFields ++ [("required", .bool c.required)])).foldlM
        decoder.step (slot, none, []) >>= fun slots =>
          ColType.fieldsDecoder (.object slots.2.2) >>= fun t =>
            .ok (ColSpec.mk (slots.1.getD none) t (slots.2.1.getD true))) =
      within (outer + 1 + fieldsDepth c.type.toFields ≤ nestingLimit) c := by
  have hrequired : decoder.step (slot, none, c.type.toFields) ("required", .bool c.required) =
      .ok (slot, some c.required, c.type.toFields) := rfl
  rw [cutFields_append, List.foldlM_append, foldlM_step (slot, none) c.type ho,
    bind_assoc]
  refine within_bind_ok fun hfits => ?_
  have htype : ColType.fieldsDecoder (.object c.type.toFields) = .ok c.type :=
    ColType.fieldsDecoder_toFields (by omega)
  simp only [cutFields, cut, List.foldlM_cons, List.foldlM_nil, hrequired, ok_bind, pure_bind,
    htype, hslot, Option.getD_some]

/-- The document of a column is read as the column. -/
theorem reads_toJson (c : ColSpec) (outer : Nat) : Reads decoder outer c.toJson c := by
  refine reads_object rfl fun hlimit => ?_
  obtain ⟨name, type, required⟩ := c
  cases name with
  | none =>
    refine (foldlM_typeAndRequired ⟨none, type, required⟩ rfl hlimit).trans ?_
    exact within_congr (by simp [fieldsDepth_append, fieldsDepth, depth]) _
  | some name =>
    refine (foldlM_typeAndRequired ⟨some name, type, required⟩ rfl hlimit).trans ?_
    exact within_congr (by simp [fieldsDepth_append, fieldsDepth, depth]) _

end ColSpec

namespace Schema

/-- The document of a schema is writable. -/
theorem isWritable_toJson (s : Schema) : s.toJson.isWritable = true := by
  have hcolumns (columns : List ColSpec) :
      itemsWritable (columns.map ColSpec.toJson) = true := by
    induction columns with
    | nil => rfl
    | cons c rest ih => rw [List.map_cons, itemsWritable, ColSpec.isWritable_toJson c, ih]; rfl
  simp only [toJson, isWritable, fieldsWritable, hcolumns, Bool.and_self]

/-- The document of a schema is read as the schema. -/
theorem reads_toJson (s : Schema) (outer : Nat) : Reads decoder outer s.toJson s := by
  refine reads_object rfl fun hlimit => ?_
  have hcolumns (columns : List ColSpec) :
      List.Forall₂ (Reads ColSpec.decoder (outer + 2)) (columns.map ColSpec.toJson) columns := by
    induction columns with
    | nil => exact .nil
    | cons c rest ih => exact .cons (c.reads_toJson _) ih
  have hfield := once_reads (reads_list fun _ => hcolumns s.columns)
  have hstep (j : Json) : decoder.step none ("columns", j) =
      once none (list ColSpec.decoder) j := rfl
  simp only [cutFields, decoder, List.foldlM_cons, List.foldlM_nil, hstep, hfield, bind_assoc,
    pure_bind, fieldsDepth, Nat.max_zero]
  exact within_bind_ok fun _ => rfl

end Schema

namespace ModelSignature

/-- The document of a signature is writable. -/
theorem isWritable_toJson (s : ModelSignature) : s.toJson.isWritable = true := by
  obtain ⟨inputs, outputs, fromTypeHint⟩ := s
  cases inputs <;> cases outputs <;>
    simp [toJson, isWritable, fieldsWritable, Schema.isWritable_toJson]

/-- The field of a schema, if there is one. -/
def schemaFields (name : String) (schema : Option Schema) : List (String × Json) :=
  schema.elim [] fun s => [(name, s.toJson)]

/-- The document of a signature by its fields. -/
theorem toJson_eq (s : ModelSignature) :
    s.toJson = .object (schemaFields "inputs" s.inputs ++
      (schemaFields "outputs" s.outputs ++ [("from_type_hint", .bool s.fromTypeHint)])) := by
  obtain ⟨inputs, outputs, fromTypeHint⟩ := s
  cases inputs <;> cases outputs <;> rfl

/-- A schema is kept under its name, and none without it. -/
theorem foldlM_schema {name : String} {slots : Slots} (keep : Option (Option Schema) → Slots)
    (hnone : keep none = slots)
    (hstep : ∀ j, slots.step (name, j) =
      once none (nullable Schema.decoder) j >>= fun slot => .ok (keep slot))
    (schema : Option Schema) {outer : Nat} (ho : outer ≤ nestingLimit) :
    (cutFields outer (schemaFields name schema)).foldlM Slots.step slots =
      within (outer + fieldsDepth (schemaFields name schema) ≤ nestingLimit)
        (keep (schema.map some)) := by
  cases schema with
  | none => exact (congrArg Except.ok hnone.symm).trans (within_of_fits ho _).symm
  | some s =>
    have hread : Reads (nullable Schema.decoder) outer s.toJson (some s) :=
      reads_nullable (s.reads_toJson outer)
    simp only [schemaFields, Option.elim_some, cutFields, List.foldlM_cons, List.foldlM_nil,
      hstep, once_reads hread, bind_pure, fieldsDepth, Nat.max_zero, Option.map_some]
    exact within_bind_ok fun _ => rfl

/-- The document of a signature is read as the signature. -/
theorem reads_toJson (s : ModelSignature) (outer : Nat) : Reads decoder outer s.toJson s := by
  rw [toJson_eq]
  refine reads_object rfl fun hlimit => ?_
  obtain ⟨inputs, outputs, fromTypeHint⟩ := s
  have hinputs : (cutFields (outer + 1) (schemaFields "inputs" inputs)).foldlM Slots.step {} = _ :=
    foldlM_schema (fun slot => { inputs := slot }) rfl (fun j => rfl) inputs hlimit
  have houtputs : (cutFields (outer + 1) (schemaFields "outputs" outputs)).foldlM Slots.step
      { inputs := inputs.map some } = _ :=
    foldlM_schema (fun slot => { inputs := inputs.map some, outputs := slot }) rfl (fun j => rfl)
      outputs hlimit
  have horigin : (cutFields (outer + 1) [("from_type_hint", Json.bool fromTypeHint)]).foldlM
      Slots.step { inputs := inputs.map some, outputs := outputs.map some } =
      .ok ⟨inputs.map some, outputs.map some, some fromTypeHint⟩ := rfl
  have hfinish : (⟨inputs.map some, outputs.map some, some fromTypeHint⟩ : Slots).finish =
      ⟨inputs, outputs, fromTypeHint⟩ := by
    cases inputs <;> cases outputs <;> rfl
  have hrest : (cutFields (outer + 1) (schemaFields "outputs" outputs ++
      [("from_type_hint", .bool fromTypeHint)])).foldlM Slots.step { inputs := inputs.map some } =
        within (outer + 1 + fieldsDepth (schemaFields "outputs" outputs) ≤ nestingLimit)
          ⟨inputs.map some, outputs.map some, some fromTypeHint⟩ := by
    rw [cutFields_append, List.foldlM_append, houtputs]
    exact within_bind_ok fun _ => horigin
  have hslots : (cutFields (outer + 1) (schemaFields "inputs" inputs ++
      (schemaFields "outputs" outputs ++ [("from_type_hint", .bool fromTypeHint)]))).foldlM
        Slots.step {} =
      within (outer + 1 + fieldsDepth (schemaFields "inputs" inputs ++
          (schemaFields "outputs" outputs ++ [("from_type_hint", .bool fromTypeHint)])) ≤
            nestingLimit)
        ⟨inputs.map some, outputs.map some, some fromTypeHint⟩ := by
    rw [cutFields_append, List.foldlM_append, hinputs]
    refine within_bind (fun _ => hrest) ?_
    simp only [fieldsDepth_append, fieldsDepth, depth]
    omega
  rw [decoder, hslots, map_within, hfinish]

/-- The texts of a signature are decoded as that signature, the same in every part, and those of a
schema, a column, a property or a type by themselves as what they were written for. Names are of no
account, and neither is what is empty: only the nesting limit sets a bound. -/
theorem written_parts_read_back :
    (∀ s : ModelSignature, ReadsBack decoder s.toJson s) ∧
    (∀ s : Schema, ReadsBack Schema.decoder s.toJson s) ∧
    (∀ c : ColSpec, ReadsBack ColSpec.decoder c.toJson c) ∧
    (∀ p : Property, ReadsBack Property.decoder p.toJson p) ∧
    (∀ t : ColType, ReadsBack ColType.decoder t.toJson t) := by
  refine ⟨fun s => ?_, fun s => ?_, fun c => ?_, fun p => ?_, fun t => ?_⟩
  · exact (s.reads_toJson 0).readsBack s.isWritable_toJson
  · exact (s.reads_toJson 0).readsBack s.isWritable_toJson
  · exact (c.reads_toJson 0).readsBack c.isWritable_toJson
  · exact (p.reads_toJson 0).readsBack p.isWritable_toJson
  · exact (t.reads_toJson 0).readsBack t.isWritable_toJson

/-- Columns and properties that are named for the fields around them, one name twice and one empty,
beside an object without properties and a schema without columns. -/
theorem written_parts_read_back_lookalikes :
    let lookalikes : ColType := .object
      [⟨"type", .scalar .string, false⟩, ⟨"required", .map (.array .any), true⟩,
        ⟨"required", .object [], false⟩, ⟨"", .array (.object [⟨"items", .any, true⟩]), true⟩]
    let s : ModelSignature :=
      ⟨some ⟨[⟨some "name", lookalikes, false⟩, ⟨none, .scalar .datetime, true⟩]⟩, some ⟨[]⟩, true⟩
    s.toJson.depth ≤ nestingLimit ∧ ofText decoder s.toJson.toText = .ok s ∧
      ofText decoder s.toJson.toIndentedText = .ok s := by
  intro lookalikes s
  have hfits : s.toJson.depth ≤ nestingLimit := by decide +kernel
  exact ⟨hfits, (written_parts_read_back.1 s).1 hfits⟩

end ModelSignature

end TypedModel
