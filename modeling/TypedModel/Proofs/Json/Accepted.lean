import TypedModel.Json.Decoder
import TypedModel.Proofs.Sequence
import Mathlib.Logic.Relation

/-!
# Trees that decoders accept

What a tree is made of, at any depth, and which trees a decoder makes typed data of. Each form of
data has one lemma, which tells the parts that its own parts are decoded from.
-/

namespace TypedModel

namespace Json

/-- What lies immediately in a tree. -/
inductive HasPart : Json → Json → Prop
  /-- An item of an array. -/
  | item {items : List Json} {d : Json} (h : d ∈ items) : HasPart (.array items) d
  /-- The value of a field of an object. -/
  | field {fields : List (String × Json)} {f : String × Json} (h : f ∈ fields) :
    HasPart (.object fields) f.2

/-- Whether the second tree is the first one or lies in it at some depth. -/
def Holds : Json → Json → Prop := Relation.ReflTransGen HasPart

end Json

namespace Decoder

open Sequence

variable {α β : Type}

theorem required_eq_ok_iff {o : Option α} {a : α} : required o = .ok a ↔ o = some a := by
  cases o <;> simp [required]

/-- A field is given once. -/
theorem once_eq_ok_iff {slot next : Option α} {value : Decoder α} {j : Json} :
    once slot value j = .ok next ↔ slot = none ∧ ∃ a, value j = .ok a ∧ some a = next := by
  cases slot <;> simp [once, map_eq_ok_iff]

theorem string_eq_ok_iff {j : Json} {s : String} : string j = .ok s ↔ j = .string s := by
  cases j <;> simp [string]

/-- A list is decoded from an array, item by item. -/
theorem list_eq_ok_iff {item : Decoder α} {j : Json} {as : List α} :
    list item j = .ok as ↔
      ∃ items, j = .array items ∧ List.Forall₂ (fun d a => item d = .ok a) items as := by
  cases j <;> simp [list, mapM_eq_ok_iff]

/-- A pair is decoded from an array of two. -/
theorem pair_eq_ok_iff {first : Decoder α} {second : Decoder β} {j : Json} {a : α} {b : β} :
    pair first second j = .ok (a, b) ↔
      ∃ x y, j = .array [x, y] ∧ first x = .ok a ∧ second y = .ok b := by
  constructor
  · intro h
    rw [pair.eq_def] at h
    split at h
    · rename_i x y rest
      obtain ⟨a', ha, h⟩ := bind_eq_ok_iff.mp h
      obtain ⟨b', hb, h⟩ := bind_eq_ok_iff.mp h
      split at h
      · rename_i hempty
        cases h
        exact ⟨x, y, by rw [List.isEmpty_iff.mp hempty], ha, hb⟩
      · cases h
    · cases h
  · rintro ⟨x, y, rfl, ha, hb⟩
    rw [pair, ha, ok_bind, hb]
    rfl

end Decoder

end TypedModel
