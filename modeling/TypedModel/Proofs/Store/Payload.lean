import TypedModel.Proofs.Json.Distinct
import TypedModel.Proofs.Schema.Distinct
import TypedModel.Proofs.Store.Manifest
import TypedModel.Proofs.Text.Octets
import TypedModel.Proofs.Value.Distinct

/-!
# What the checksum covers

The checksum of a manifest runs over the octets of a text. Those octets belong to one signature and
one example, so a change of either changes what is summed.
-/

namespace TypedModel

namespace Manifest

/-! ## Payloads -/

/-- Octets that the checksum of a signature and an example runs over. -/
def payloadOctets (signature : Option ModelSignature) (given : Option Value) : List UInt8 :=
  (payload signature given).toText.toUTF8.toList

/-- Distinct optional signatures have distinct documents. -/
theorem signatureToJson_inj {s t : Option ModelSignature} :
    signatureToJson s = signatureToJson t ↔ s = t := by
  cases s with
  | none =>
    cases t with
    | none => exact iff_of_true rfl rfl
    | some t => exact iff_of_false nofun nofun
  | some s =>
    cases t with
    | none => exact iff_of_false nofun nofun
    | some t => exact ModelSignature.toJson_inj.trans Option.some_inj.symm

/-- Distinct optional examples have distinct documents, and that of an example of null is not that
of none. -/
theorem exampleToJson_inj {v w : Option Value} : exampleToJson v = exampleToJson w ↔ v = w := by
  have hobject (v : Value) : v.toJson ≠ .null := by
    obtain ⟨name, content, hv, -⟩ := v.exists_toJson_eq
    rw [hv]
    exact nofun
  cases v with
  | none =>
    cases w with
    | none => exact iff_of_true rfl rfl
    | some w => exact iff_of_false (hobject w).symm nofun
  | some v =>
    cases w with
    | none => exact iff_of_false (hobject v) nofun
    | some w => exact Value.toJson_inj.trans Option.some_inj.symm

/-- The payload of a signature and an example is writable. -/
theorem isWritable_payload (signature : Option ModelSignature) (given : Option Value) :
    (payload signature given).isWritable = true := by
  simp only [payload, Json.isWritable, Json.fieldsWritable, isWritable_signatureToJson,
    isWritable_exampleToJson, Bool.and_self]

/-- The checksum runs over octets that belong to one signature and one example. Examples are the
same where they are as structures: NaN is one value, zeros of different sign are two, and an example
of null is not the absence of one. -/
theorem payload_identifies_parts (s t : Option ModelSignature) (v w : Option Value) :
    checksumOf s v = Checksum.render (Checksum.crc32 (payloadOctets s v)) ∧
    (payloadOctets s v = payloadOctets t w ↔ s = t ∧ v = w) := by
  refine ⟨rfl, ?_⟩
  calc payloadOctets s v = payloadOctets t w
    _ ↔ (payload s v).toText = (payload t w).toText := Text.octets_inj
    _ ↔ payload s v = payload t w :=
      Json.toText_inj (isWritable_payload s v) (isWritable_payload t w)
    _ ↔ signatureToJson s = signatureToJson t ∧ exampleToJson v = exampleToJson w := by
      simp only [payload, Json.object.injEq, List.cons.injEq, Prod.mk.injEq, true_and, and_true]
    _ ↔ s = t ∧ v = w := and_congr signatureToJson_inj exampleToJson_inj

end Manifest

end TypedModel
