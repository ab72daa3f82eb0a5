import TypedModel.Store.Manifest
import TypedModel.Proofs.ModelId
import TypedModel.Proofs.Schema.RoundTrip
import TypedModel.Proofs.Value.RoundTrip

/-!
# Manifests read back

The file of a manifest reads back as that manifest where its document fits within the nesting limit,
and does not read at all where it does not.
-/

namespace TypedModel.Manifest

open Json Decoder Sequence

/-! ## Optional parts -/

/-- The document of an optional signature is writable. -/
theorem isWritable_signatureToJson (signature : Option ModelSignature) :
    (signatureToJson signature).isWritable = true := by
  cases signature with
  | none => rfl
  | some s => exact s.isWritable_toJson

/-- The document of an optional example is writable. -/
theorem isWritable_exampleToJson (given : Option Value) :
    (exampleToJson given).isWritable = true := by
  cases given with
  | none => rfl
  | some v => exact v.isWritable_toJson

/-- An optional signature is read from its document. -/
theorem reads_signatureToJson (signature : Option ModelSignature) {outer : Nat}
    (ho : outer ≤ nestingLimit) :
    Reads (nullable ModelSignature.decoder) outer (signatureToJson signature) signature := by
  cases signature with
  | none => exact reads_leaf ho rfl rfl
  | some s => exact reads_nullable (s.reads_toJson outer)

/-- An optional example is read from its document, an example of null apart from none. -/
theorem reads_exampleToJson {given : Option Value} (hgiven : ∀ v ∈ given, v.WellFormed)
    {outer : Nat} (ho : outer ≤ nestingLimit) :
    Reads (nullable Value.decoder) outer (exampleToJson given) given := by
  cases given with
  | none => exact reads_leaf ho rfl rfl
  | some v =>
    have hread : Reads Value.decoder outer v.toJson v :=
      Value.reads_toJson v (nestingLimit + 1) outer false (hgiven v rfl) ho (by omega)
    obtain ⟨fields, hfields⟩ : ∃ fields, v.toJson = .object fields := by
      rcases v with - | - | - | - | - | - | - | - | - | ⟨-, -⟩ | ⟨-, -⟩ <;> exact ⟨_, rfl⟩
    rw [exampleToJson, Option.elim_some, hfields]
    exact reads_nullable (hfields ▸ hread)

/-! ## Manifests -/

variable (m : Manifest)

/-- The document of a manifest is writable. -/
theorem isWritable_toJson : m.toJson.isWritable = true := by
  have hversion : (Json.ofInt m.formatVersion.toNat).isWritable = true := by
    have hbound := m.formatVersion.toNat_lt
    simp only [Json.ofInt, isWritable, Number.isWritable, Bool.and_eq_true, decide_eq_true_eq]
    omega
  simp only [toJson, isWritable, fieldsWritable, isWritable_signatureToJson,
    isWritable_exampleToJson, hversion, Bool.and_self]

/-- The version of a manifest is read. -/
theorem decodeVersion_ofInt (version : UInt8) :
    decodeVersion (.ofInt version.toNat) = .ok version := by
  have hbound := version.toNat_lt
  rw [Json.ofInt, decodeVersion, if_pos (by omega)]
  simp

/-- The identifier of a manifest is read. -/
theorem decodeId_render (id : ModelId) : decodeId (.string id.render) = .ok id := by
  simp only [decodeId, Decoder.string, ok_bind, ModelId.parse?_render, required]

/-- The fields of a manifest in front of signature and example. -/
def leadingFields : List (String × Json) :=
  [("model_id", .string m.modelId.render), ("created_at", .string m.createdAt),
    ("flavor", .string m.flavor), ("predict_fn", .string m.predictFn)]

/-- The fields of a manifest behind signature and example. -/
def trailingFields : List (String × Json) :=
  [("payload_checksum", .string m.payloadChecksum),
    ("format_version", .ofInt m.formatVersion.toNat)]

/-- The leading fields fill their slots. -/
theorem foldlM_leadingFields :
    (cutFields 1 m.leadingFields).foldlM Slots.step {} =
      .ok ⟨m.modelId, m.createdAt, m.flavor, m.predictFn, none, none, none, none⟩ := by
  have hid : Slots.step {} ("model_id", .string m.modelId.render) =
      .ok { modelId := some m.modelId } := by
    simp only [Slots.step, once, decodeId_render]
    rfl
  simp only [leadingFields, cutFields, cut, List.foldlM_cons, hid, ok_bind]
  rfl

/-- The trailing fields fill their slots. -/
theorem foldlM_trailingFields {slots : Slots} (hchecksum : slots.payloadChecksum = none)
    (hversion : slots.formatVersion = none) :
    (cutFields 1 m.trailingFields).foldlM Slots.step slots =
      .ok { slots with
        payloadChecksum := some m.payloadChecksum, formatVersion := some m.formatVersion } := by
  have hfirst : slots.step ("payload_checksum", .string m.payloadChecksum) =
      .ok { slots with payloadChecksum := some m.payloadChecksum } := by
    simp only [Slots.step, hchecksum]
    rfl
  have hsecond (slots : Slots) (h : slots.formatVersion = none) :
      slots.step ("format_version", .ofInt m.formatVersion.toNat) =
        .ok { slots with formatVersion := some m.formatVersion } := by
    simp only [Slots.step, h, once, decodeVersion_ofInt]
    rfl
  have hcut : (Json.ofInt m.formatVersion.toNat).cut 1 = .ofInt m.formatVersion.toNat := rfl
  simp only [trailingFields, cutFields, cut, hcut, List.foldlM_cons, hfirst, ok_bind]
  rw [hsecond]
  · rfl
  · exact hversion

/-- A signature fills its slot. -/
theorem step_signature {slots : Slots} (hslot : slots.signature = none) {outer : Nat}
    (ho : outer ≤ nestingLimit) :
    slots.step ("signature", (signatureToJson m.signature).cut outer) =
      within (outer + (signatureToJson m.signature).depth ≤ nestingLimit)
        { slots with signature := some m.signature } := by
  simp only [Slots.step, hslot, once_reads (reads_signatureToJson m.signature ho)]
  exact within_bind_ok fun _ => rfl

/-- An example fills its slot. -/
theorem step_inputExample {slots : Slots} (hslot : slots.inputExample = none)
    (hgiven : ∀ v ∈ m.inputExample, v.WellFormed) {outer : Nat} (ho : outer ≤ nestingLimit) :
    slots.step ("input_example", (exampleToJson m.inputExample).cut outer) =
      within (outer + (exampleToJson m.inputExample).depth ≤ nestingLimit)
        { slots with inputExample := some m.inputExample } := by
  simp only [Slots.step, hslot, once_reads (reads_exampleToJson hgiven ho)]
  exact within_bind_ok fun _ => rfl

/-- Signature and example are all that gives the document of a manifest its depth. -/
theorem depth_toJson :
    m.toJson.depth =
      max (signatureToJson m.signature).depth (exampleToJson m.inputExample).depth + 1 := by
  simp only [toJson, depth, fieldsDepth, Json.ofInt]
  omega

/-- The document of a manifest is read as the manifest. -/
theorem reads_toJson (hgiven : ∀ v ∈ m.inputExample, v.WellFormed) :
    Reads decoder 0 m.toJson m := by
  have hfields : m.toJson = .object (m.leadingFields ++
      ("signature", signatureToJson m.signature) ::
        ("input_example", exampleToJson m.inputExample) :: m.trailingFields) := rfl
  have hdepth := depth_toJson m
  rw [hfields, depth] at hdepth
  rw [hfields]
  refine reads_object rfl fun hlimit => ?_
  have hexample : (cutFields 1 (("input_example", exampleToJson m.inputExample) ::
      m.trailingFields)).foldlM Slots.step
        ⟨m.modelId, m.createdAt, m.flavor, m.predictFn, some m.signature, none, none, none⟩ =
      within (1 + (exampleToJson m.inputExample).depth ≤ nestingLimit)
        ⟨m.modelId, m.createdAt, m.flavor, m.predictFn, some m.signature, some m.inputExample,
          m.payloadChecksum, m.formatVersion⟩ := by
    rw [cutFields, List.foldlM_cons, step_inputExample m rfl hgiven hlimit]
    exact within_bind_ok fun _ => foldlM_trailingFields m rfl rfl
  have hslots : (cutFields 1 (m.leadingFields ++ ("signature", signatureToJson m.signature) ::
      ("input_example", exampleToJson m.inputExample) :: m.trailingFields)).foldlM Slots.step {} =
      within (0 + 1 + fieldsDepth (m.leadingFields ++
          ("signature", signatureToJson m.signature) ::
            ("input_example", exampleToJson m.inputExample) :: m.trailingFields) ≤ nestingLimit)
        ⟨m.modelId, m.createdAt, m.flavor, m.predictFn, some m.signature, some m.inputExample,
          m.payloadChecksum, m.formatVersion⟩ := by
    rw [cutFields_append, List.foldlM_append, foldlM_leadingFields, ok_bind, cutFields,
      List.foldlM_cons, step_signature m rfl hlimit]
    exact within_bind (fun _ => hexample) (by omega)
  rw [decoder, hslots]
  exact within_bind_ok fun _ => rfl

/-! ## Files of manifests -/

/-- The text of a manifest reads back where its document fits within the nesting limit. -/
theorem ofText_toText (hgiven : ∀ v ∈ m.inputExample, v.WellFormed) :
    ofText decoder m.toText = within (m.toJson.depth ≤ nestingLimit) m :=
  ofText_toIndentedText m.isWritable_toJson (m.reads_toJson hgiven)

/-- A manifest whose file is on the disk is read where its document fits, and is no manifest where it
does not. -/
theorem read_of_text {disk : Disk} {path : String} (hfile : disk.read path = some m.toText)
    (hgiven : ∀ v ∈ m.inputExample, v.WellFormed) :
    read disk path =
      if m.toJson.depth ≤ nestingLimit then .ok m else .error (.manifest path) := by
  by_cases hfits : m.toJson.depth ≤ nestingLimit
  · simp only [read, hfile, ofText_toText m hgiven, within_of_fits hfits, if_pos hfits]
  · simp only [read, hfile, ofText_toText m hgiven, within_of_not hfits, if_neg hfits]

end TypedModel.Manifest
