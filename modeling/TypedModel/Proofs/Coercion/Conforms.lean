import TypedModel.Proofs.Coercion.Plain
import TypedModel.Proofs.Entries

/-!
# Conforming values

What a predict body may rely on: the value it is given conforms to the input hint. Conforming
is a relation of a hint, the value that was given and the value that came of it, since a record
built from a map may hold the default of a name that the map lacks. A frame met by a dict or
record hint becomes the list of its rows; where no frame can be reached through lists and maps
the result has the shape of its hint everywhere.
-/

namespace TypedModel

namespace Value

mutual

/-- Whether no frame can be reached through lists and maps. -/
def frameFree : Value → Bool
  | .list items => itemsFrameFree items
  | .map entries => entriesFrameFree entries
  | .frame _ => false
  | _ => true
termination_by structural v => v

/-- Whether no frame can be reached through items. -/
def itemsFrameFree : List Value → Bool
  | [] => true
  | item :: rest => frameFree item && itemsFrameFree rest
termination_by structural items => items

/-- Whether no frame can be reached through the values of entries. -/
def entriesFrameFree : List (String × Value) → Bool
  | [] => true
  | (_, value) :: rest => frameFree value && entriesFrameFree rest
termination_by structural entries => entries

end

/-- Items are free of frames one by one. -/
theorem itemsFrameFree_iff {items : List Value} :
    itemsFrameFree items = true ↔ ∀ item ∈ items, item.frameFree = true := by
  induction items with
  | nil => simp [itemsFrameFree]
  | cons item rest ih => simp [itemsFrameFree, ih]

/-- Entries are free of frames one by one. -/
theorem entriesFrameFree_iff {entries : List (String × Value)} :
    entriesFrameFree entries = true ↔ ∀ e ∈ entries, e.2.frameFree = true := by
  induction entries with
  | nil => simp [entriesFrameFree]
  | cons e rest ih =>
    obtain ⟨name, value⟩ := e
    simp [entriesFrameFree, ih]

/-- Items that a list hint sees in a value free of frames are free of frames. -/
theorem frameFree_of_listed {v : Value} {items : List Value} (hf : v.frameFree = true)
    (hl : v.listed? = some items) : ∀ item ∈ items, item.frameFree = true := by
  cases v with
  | list given =>
    cases hl
    exact itemsFrameFree_iff.mp hf
  | frame f => cases hf
  | _ => cases hl

end Value

namespace TypeHint

/-- What a dict or record hint asks of a value: of a map what `onMap` says, and of a frame, if
`rows` allows it, a list with one such result for each row. -/
def OverRows (rows : Bool) (onMap : Entries Value → Value → Prop) : Value → Value → Prop
  | .map entries, w => onMap entries w
  | .frame f, w =>
    rows = true ∧ ∃ results, w = .list results ∧
      List.Forall₂ (fun row result => onMap (f.rowEntries row) result) f.rows results
  | _, _ => False

mutual

/-- Whether the value that came of a given one conforms to a hint; `rows` tells whether the rows
of a frame may stand, as a list, where a dict or record hint met the frame. -/
def Conforms (rows : Bool) : TypeHint → Value → Value → Prop
  | .any, _, _ | .frame, _, _ | .foreign _, _, _ => True
  | .none, _, w => w = .null
  | .scalar kind, _, w => kind.admits w = true
  | .union members, v, w => MemberConforms rows members v w
  | .list element, v, w =>
    ∃ items results, v.listed? = some items ∧ w = .list results ∧
      List.Forall₂ (Conforms rows element) items results
  | .dict _ element, v, w =>
    OverRows rows
      (fun entries w => ∃ results, w = .map results ∧
        List.Forall₂ (fun e r => r.1 = e.1 ∧ Conforms rows element e.2 r.2) entries results)
      v w
  | .record ⟨name, fields⟩, v, w =>
    (∃ r, v = .record r ∧ w = .record r ∧ r.name = name) ∨
      OverRows rows
        (fun entries w => ∃ values, w = .record ⟨name, values⟩ ∧
          values.map Prod.fst = fields.map FieldSpec.name ∧
          FieldsConform rows fields entries (values.map Prod.snd))
        v w
termination_by structural h => h

/-- Whether a value conforms to one of the members of a union. -/
def MemberConforms (rows : Bool) : List TypeHint → Value → Value → Prop
  | [], _, _ => False
  | member :: rest, v, w => Conforms rows member v w ∨ MemberConforms rows rest v w
termination_by structural members => members

/-- Whether the values of a record built from a map conform: each one to the hint of its field
where the map has the field's name, and otherwise it is the field's default. -/
def FieldsConform (rows : Bool) : List FieldSpec → Entries Value → List Value → Prop
  | [], _, values => values = []
  | ⟨name, hint, default?⟩ :: rest, entries, values =>
    ∃ value others, values = value :: others ∧
      (match entries.get? name with
        | some given => Conforms rows hint given value
        | Option.none => default? = some value) ∧
      FieldsConform rows rest entries others
termination_by structural fields => fields

end

/-- A scalar coerced plainly is of its kind. -/
theorem admits_of_plainScalar {kind : ScalarKind} {v w : Value} (h : plainScalar kind v = some w) :
    kind.admits w = true := by
  unfold plainScalar at h
  split at h
  · rename_i hk
    cases h
    exact hk
  · split at h
    · cases h
      rfl
    · cases h

/-- Results of a dict or record hint are those of its maps, over the rows of a frame only where
frames can be met. -/
theorem overRows_of_plainRows {rows : Bool} {f : Entries Value → Option Value}
    {onMap : Entries Value → Value → Prop} {v w : Value}
    (hmap : ∀ entries w, (rows = true ∨ Value.entriesFrameFree entries = true) →
      f entries = some w → onMap entries w)
    (hv : rows = true ∨ v.frameFree = true) (h : plainRows f v = some w) :
    OverRows rows onMap v w := by
  cases v with
  | map entries => exact hmap entries w hv h
  | frame frame =>
    have hr : rows = true := hv.resolve_right (by simp [Value.frameFree])
    obtain ⟨results, hrun, rfl⟩ := Option.map_eq_some_iff.mp h
    refine ⟨hr, results, rfl, (Sequence.mapM_eq_some_iff.mp hrun).imp fun row result => ?_⟩
    exact hmap _ _ (.inl hr)
  | _ => cases h

/-- The fields of a record built from a map are named as declared. -/
theorem names_of_plainFields {fields : List FieldSpec} {entries : Entries Value}
    {values : List (String × Value)} (h : plainFields fields entries = some values) :
    values.map Prod.fst = fields.map FieldSpec.name := by
  induction fields generalizing values with
  | nil =>
    cases h
    rfl
  | cons field rest ih =>
    obtain ⟨name, hint, default?⟩ := field
    obtain ⟨value, others, rfl, -, ho⟩ := plainFields_cons_eq_some_iff.mp h
    rw [List.map_cons, List.map_cons, ih ho]

mutual

/-- What plain coercion makes of a value conforms to the hint. -/
theorem conforms_of_plain (rows : Bool) : ∀ (h : TypeHint) (v w : Value),
    (rows = true ∨ v.frameFree = true) → h.plain v = some w → Conforms rows h v w
  | .any, _, _, _, _ | .frame, _, _, _, _ | .foreign _, _, _, _, _ => trivial
  | .none, v, w, _, h => by
    rw [plain] at h
    split at h
    · rename_i hn
      cases h
      exact Value.eq_null_of_isNull hn
    · cases h
  | .scalar _, _, _, _, h => admits_of_plainScalar h
  | .union members, v, w, hv, h => memberConforms_of_plainFirst rows members v w hv h
  | .list element, v, w, hv, h => by
    obtain ⟨items, hl, h⟩ := Option.bind_eq_some_iff.mp h
    obtain ⟨results, hr, rfl⟩ := Option.map_eq_some_iff.mp h
    have hfree : ∀ item ∈ items, rows = true ∨ item.frameFree = true := fun item hi =>
      hv.imp_right fun hf => Value.frameFree_of_listed hf hl item hi
    have hrun := (List.forall₂_and_left _ _).mpr ⟨hfree, Sequence.mapM_eq_some_iff.mp hr⟩
    exact ⟨items, results, hl, rfl,
      hrun.imp fun item result ⟨hi, hp⟩ => conforms_of_plain rows element item result hi hp⟩
  | .dict _ element, v, w, hv, h => by
    refine overRows_of_plainRows ?_ hv h
    intro entries w hf hm
    obtain ⟨results, hr, rfl⟩ := Option.map_eq_some_iff.mp hm
    have hfree : ∀ e ∈ entries, rows = true ∨ e.2.frameFree = true := fun e he =>
      hf.imp_right fun hf => Value.entriesFrameFree_iff.mp hf e he
    have hrun := (List.forall₂_and_left _ _).mpr ⟨hfree, Sequence.mapM_eq_some_iff.mp hr⟩
    refine ⟨results, rfl, hrun.imp fun e r ⟨he, hp⟩ => ?_⟩
    obtain ⟨result, hv, rfl⟩ := Option.map_eq_some_iff.mp hp
    exact ⟨rfl, conforms_of_plain rows element e.2 result he hv⟩
  | .record ⟨name, fields⟩, v, w, hv, h => by
    have hmap : ∀ (entries : Entries Value) (w : Value),
        (rows = true ∨ Value.entriesFrameFree entries = true) →
        (plainFields fields entries).map (.record ⟨name, ·⟩) = some w →
        ∃ values, w = .record ⟨name, values⟩ ∧
          values.map Prod.fst = fields.map FieldSpec.name ∧
          FieldsConform rows fields entries (values.map Prod.snd) := by
      intro entries w hf hm
      obtain ⟨values, hp, rfl⟩ := Option.map_eq_some_iff.mp hm
      exact ⟨values, rfl, names_of_plainFields hp,
        fieldsConform_of_plainFields rows fields entries values hf hp⟩
    cases v with
    | record r =>
      rw [plain] at h
      split at h
      · cases h
        exact .inl ⟨r, rfl, rfl, ‹_›⟩
      · cases h
    | _ => exact .inr (overRows_of_plainRows hmap hv h)

/-- What a union makes of a value conforms to one of its members. -/
theorem memberConforms_of_plainFirst (rows : Bool) : ∀ (members : List TypeHint) (v w : Value),
    (rows = true ∨ v.frameFree = true) → plainFirst members v = some w →
    MemberConforms rows members v w
  | member :: rest, v, w, hv, h => by
    rw [plainFirst] at h
    split at h
    · rename_i hm
      cases h
      exact .inl (conforms_of_plain rows member v w hv hm)
    · exact .inr (memberConforms_of_plainFirst rows rest v w hv h)

/-- The values of a record built from a map conform to its fields. -/
theorem fieldsConform_of_plainFields (rows : Bool) : ∀ (fields : List FieldSpec)
    (entries : Entries Value) (values : List (String × Value)),
    (rows = true ∨ Value.entriesFrameFree entries = true) →
    plainFields fields entries = some values →
    FieldsConform rows fields entries (values.map Prod.snd)
  | [], _, _, _, h => by
    cases h
    rfl
  | ⟨name, hint, default?⟩ :: rest, entries, values, hf, h => by
    obtain ⟨value, others, rfl, hv, ho⟩ := plainFields_cons_eq_some_iff.mp h
    refine ⟨value, others.map Prod.snd, rfl, ?_,
      fieldsConform_of_plainFields rows rest entries others hf ho⟩
    cases hg : entries.get? name with
    | none => simpa only [hg] using hv
    | some given =>
      simp only [hg] at hv
      have hgiven : rows = true ∨ given.frameFree = true := hf.imp_right fun hf =>
        Value.entriesFrameFree_iff.mp hf _ (Entries.mem_of_get? hg)
      exact conforms_of_plain rows hint given value hgiven hv

end

/-- What a predict body is given conforms to the input hint: the coerced value conforms to the
hint, with the rows of a frame as a list where a dict or record hint met the frame, and without
this exception where no frame can be reached through lists and maps. -/
theorem coerced_value_conforms (h : TypeHint) (v w : Value) (hc : h.coerce v = .ok w) :
    Conforms true h v w ∧ (v.frameFree = true → Conforms false h v w) := by
  have hp := coerce_eq_ok_iff.mp hc
  exact ⟨conforms_of_plain true h v w (.inl rfl) hp,
    fun hf => conforms_of_plain false h v w (.inr hf) hp⟩

/-- Points from maps, one of them with an integer, an undeclared name and no tag, beside a point
that is an instance already. -/
theorem coerced_value_conforms_points :
    let h := TypeHint.list (.record ⟨"Point",
      [⟨"x", .scalar .float, Option.none⟩, ⟨"tag", .optional (.scalar .str), some .null⟩]⟩)
    let given := Value.list
      [.map [("x", .long 1), ("z", .null)], .record ⟨"Point", [("y", .null)]⟩]
    let result := Value.list
      [.record ⟨"Point", [("x", .double (.ofInt 1)), ("tag", .null)]⟩,
        .record ⟨"Point", [("y", .null)]⟩]
    h.coerce given = .ok result ∧ given.frameFree = true ∧ Conforms false h given result := by
  intro h given result
  have hc : h.coerce given = .ok result := by rfl
  exact ⟨hc, rfl, (coerced_value_conforms h given result hc).2 rfl⟩

end TypeHint

end TypedModel
