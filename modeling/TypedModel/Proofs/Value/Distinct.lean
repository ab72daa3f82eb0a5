import TypedModel.Proofs.Value.Parts
import TypedModel.Proofs.Value.RoundTrip

/-!
# Distinct values have distinct documents

A value is told by its document alone, whatever its kind and however deep it is, without a limit to
the nesting: kinds have names of their own, and the contents of one kind differ with the values.
-/

namespace TypedModel.Value

open Sequence

/-! ## Kinds -/

/-- Kind of a value. -/
def kind : Value → Kind
  | .null => .null
  | .bool _ => .bool
  | .long _ => .long
  | .double _ => .double
  | .str _ => .str
  | .bytes _ => .bytes
  | .datetime _ => .datetime
  | .list _ => .list
  | .map _ => .map
  | .record _ => .record
  | .frame _ => .frame

/-- The document of a value begins with the name of its kind. -/
theorem exists_toJson_eq (v : Value) :
    ∃ name content, v.toJson = .object (("kind", .string name) :: content) ∧
      Kind.options.lookup name = some v.kind := by
  rcases v with - | - | - | - | - | - | - | - | - | ⟨-, -⟩ | ⟨-, -⟩ <;> exact ⟨_, _, rfl, rfl⟩

/-- Values with one document are of one kind. -/
theorem kind_eq_of_toJson {v w : Value} (h : v.toJson = w.toJson) : v.kind = w.kind := by
  obtain ⟨name, content, hv, hkind⟩ := v.exists_toJson_eq
  obtain ⟨name', content', hw, hkind'⟩ := w.exists_toJson_eq
  rw [hv, hw, Json.object.injEq, List.cons.injEq, Prod.mk.injEq, Json.string.injEq] at h
  obtain ⟨⟨-, rfl⟩, -⟩ := h
  exact Option.some.inj (hkind.symm.trans hkind')

/-- Contents are told apart under one kind. -/
theorem content_of_tagged {name : String} {c d : Json} (h : tagged name c = tagged name d) :
    c = d := by
  simpa [tagged] using h

/-! ## Contents -/

/-- Doubles are told apart by their contents, NaN from the infinities and the zeros by their
signs. -/
theorem doubleToJson_inj {x y : Double} : doubleToJson x = doubleToJson y ↔ x = y := by
  constructor
  · intro h
    have hread := decodeDouble_doubleToJson x
    rw [h, decodeDouble_doubleToJson, Except.ok.injEq] at hread
    exact hread.symm
  · exact congrArg doubleToJson

theorem itemsToJson_eq_map (items : List Value) : itemsToJson items = items.map toJson := by
  induction items with
  | nil => rfl
  | cons item rest ih => rw [itemsToJson, ih, List.map_cons]

theorem entriesToJson_eq_map (entries : List (String × Value)) :
    entriesToJson entries = entries.map fun e => (e.1, e.2.toJson) := by
  induction entries with
  | nil => rfl
  | cons e rest ih => rw [entriesToJson, ih, List.map_cons]

theorem fieldsToJson_eq_map (fields : List (String × Value)) :
    fieldsToJson fields = fields.map fun f => .array [.string f.1, f.2.toJson] := by
  induction fields with
  | nil => rfl
  | cons f rest ih => rw [fieldsToJson, ih, List.map_cons]

theorem rowsToJson_eq_map (rows : List (List Value)) :
    rowsToJson rows = rows.map fun row => .array (row.map toJson) := by
  induction rows with
  | nil => rfl
  | cons row rest ih => rw [rowsToJson, ih, itemsToJson_eq_map, List.map_cons]

/-! ## Values -/

/-- Distinct values have distinct documents. -/
theorem toJson_inj {v w : Value} : v.toJson = w.toJson ↔ v = w := by
  refine ⟨fun h => ?_, congrArg toJson⟩
  induction v using partInduction generalizing w with
  | step v ih =>
    have hkind := kind_eq_of_toJson h
    match v, w, hkind, ih, h with
    | .null, .null, _, _, _ => rfl
    | .bool a, .bool b, _, _, h =>
      have hcontent := content_of_tagged h
      rw [Json.bool.inj hcontent]
    | .long a, .long b, _, _, h =>
      have hcontent : Json.ofInt a.toInt = Json.ofInt b.toInt := content_of_tagged h
      simp only [Json.ofInt, Json.number.injEq, Json.Number.int.injEq, Int64.toInt_inj] at hcontent
      rw [hcontent]
    | .double a, .double b, _, _, h =>
      rw [doubleToJson_inj.mp (content_of_tagged h)]
    | .str a, .str b, _, _, h =>
      have hcontent := content_of_tagged h
      rw [Json.string.inj hcontent]
    | .bytes a, .bytes b, _, _, h =>
      have hcontent := Json.string.inj (content_of_tagged h)
      rw [Text.base64Encode_inj.mp (String.ofList_injective hcontent)]
    | .datetime a, .datetime b, _, _, h =>
      rw [Time.render_inj.mp (Json.string.inj (content_of_tagged h))]
    | .list as, .list bs, _, ih, h =>
      have hitems := Json.array.inj (content_of_tagged h)
      rw [itemsToJson_eq_map, itemsToJson_eq_map] at hitems
      rw [eq_of_map_eq_map (fun a ha b => ih a (.item ha)) hitems]
    | .map as, .map bs, _, ih, h =>
      have hentries := Json.object.inj (content_of_tagged h)
      rw [entriesToJson_eq_map, entriesToJson_eq_map] at hentries
      have hentry : ∀ e ∈ as, ∀ e' : String × Value, (e.1, e.2.toJson) = (e'.1, e'.2.toJson) →
          e = e' := by
        intro e he e' h
        obtain ⟨hname, hvalue⟩ := Prod.mk.inj h
        exact Prod.ext hname (ih e.2 (.entry he) hvalue)
      rw [eq_of_map_eq_map hentry hentries]
    | .record ⟨m, as⟩, .record ⟨n, bs⟩, _, ih, h =>
      have hparts := Json.object.inj (content_of_tagged h)
      simp only [List.cons.injEq, Prod.mk.injEq, Json.string.injEq, Json.array.injEq, true_and,
        and_true] at hparts
      obtain ⟨rfl, hfields⟩ := hparts
      rw [fieldsToJson_eq_map, fieldsToJson_eq_map] at hfields
      have hfield : ∀ f ∈ as, ∀ f' : String × Value,
          Json.array [.string f.1, f.2.toJson] = .array [.string f'.1, f'.2.toJson] → f = f' := by
        intro f hf f' h
        simp only [Json.array.injEq, List.cons.injEq, Json.string.injEq, and_true] at h
        exact Prod.ext h.1 (ih f.2 (.field hf) h.2)
      rw [eq_of_map_eq_map hfield hfields]
    | .frame ⟨m, as⟩, .frame ⟨n, bs⟩, _, ih, h =>
      have hparts := Json.object.inj (content_of_tagged h)
      simp only [List.cons.injEq, Prod.mk.injEq, Json.array.injEq, true_and, and_true] at hparts
      obtain ⟨hcolumns, hrows⟩ := hparts
      rw [rowsToJson_eq_map, rowsToJson_eq_map] at hrows
      have hrow : ∀ row ∈ as, ∀ row' : List Value,
          Json.array (row.map toJson) = .array (row'.map toJson) → row = row' := by
        intro row hrow row' h
        exact eq_of_map_eq_map (fun x hx y => ih x (.cell hrow hx)) (Json.array.inj h)
      rw [eq_of_map_eq_map (fun _ _ _ => Json.string.inj) hcolumns,
        eq_of_map_eq_map hrow hrows]

end TypedModel.Value
