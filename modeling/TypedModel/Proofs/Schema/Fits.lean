import TypedModel.Schema.OfHint
import TypedModel.Proofs.Coercion.Conforms
import TypedModel.Proofs.Value.Reach

/-!
# Values that fit a schema

A column type describes values on its own, without regard to any hint. The main statement ties the
two readings of a hint together: what coercion lets through fits the type that the schema of the
hint gives its column, null apart, which only a column that is not required lets through.
-/

namespace TypedModel

/-- Values of a scalar data type. -/
def DataType.admits : DataType → Value → Bool
  | .long, .long _ | .string, .str _ | .boolean, .bool _ | .double, .double _ | .binary, .bytes _
  | .datetime, .datetime _ => true
  | _, _ => false

/-- The data type of a scalar kind has the values of that kind. -/
theorem ScalarKind.admits_dataType (kind : ScalarKind) (v : Value) :
    kind.dataType.admits v = kind.admits v := by
  cases kind <;> cases v <;> rfl

namespace ColType

mutual

/-- Whether a value fits a column type; within a container null fits as well. -/
def Fits : ColType → Value → Prop
  | .any, _ => True
  | .scalar type, v => type.admits v = true
  | .array items, v => ∃ xs, v = .list xs ∧ ∀ x ∈ xs, x = .null ∨ Fits items x
  | .map values, v => ∃ entries, v = .map entries ∧ ∀ e ∈ entries, e.2 = .null ∨ Fits values e.2
  | .object properties, v => ∃ r, v = .record r ∧ PropertiesFit properties r.fields
termination_by structural t => t

/-- Whether the fields of a record instance line up with the properties of an object. -/
def PropertiesFit : List Property → List (String × Value) → Prop
  | [], fields => fields = []
  | ⟨name, type, _⟩ :: rest, fields =>
    ∃ value others, fields = (name, value) :: others ∧ (value = .null ∨ Fits type value) ∧
      PropertiesFit rest others
termination_by structural properties => properties

end

/-- Null fits the type of anything and no other. -/
theorem eq_any_of_fits_null {t : ColType} (h : t.Fits .null) : t = .any := by
  cases t with
  | any => rfl
  | scalar type => cases type <;> cases h
  | array items =>
    obtain ⟨_, hv, -⟩ := h
    cases hv
  | map values =>
    obtain ⟨_, hv, -⟩ := h
    cases hv
  | object properties =>
    obtain ⟨_, hv, -⟩ := h
    cases hv

end ColType

namespace TypeHint

mutual

/-- Whether every record default, in the part of a hint that its schema describes, is null or fits
the type of its property. Of a union the schema describes only the hint that is made optional. -/
def DefaultsFit : TypeHint → Prop
  | .list element => DefaultsFit element
  | .dict _ element => DefaultsFit element
  | .union members => (optionalMember? members).isSome = true → MembersDefaultsFit members
  | .record ⟨_, fields⟩ => FieldsDefaultsFit fields
  | _ => True
termination_by structural h => h

/-- Whether the defaults within the members of a union fit. -/
def MembersDefaultsFit : List TypeHint → Prop
  | [] => True
  | member :: rest => DefaultsFit member ∧ MembersDefaultsFit rest
termination_by structural members => members

/-- Whether the defaults of fields, and those within their hints, fit. -/
def FieldsDefaultsFit : List FieldSpec → Prop
  | [] => True
  | ⟨_, hint, default?⟩ :: rest =>
    (∀ value ∈ default?, ∀ type, colType hint = .ok type → value = .null ∨ type.Fits value) ∧
      DefaultsFit hint ∧ FieldsDefaultsFit rest
termination_by structural fields => fields

end

/-- Defaults that fit in all members fit in each of them. -/
theorem defaultsFit_of_mem {members : List TypeHint} (h : MembersDefaultsFit members) :
    ∀ member ∈ members, member.DefaultsFit := by
  induction members with
  | nil => simp
  | cons first rest ih =>
    intro member hm
    rcases List.mem_cons.mp hm with rfl | hm
    · exact h.1
    · exact ih h.2 member hm

/-! ## Optional hints -/

/-- The type of a union is that of the hint it makes optional, and otherwise anything. -/
theorem colType_union (members : List TypeHint) :
    (TypeHint.union members).colType = (optionalMember? members).elim (.ok .any) colType := by
  match members with
  | [] | [_] | _ :: _ :: _ :: _ => rfl
  | [a, b] =>
    simp only [colType, memberTypes, unionType, optionalMember?]
    cases a.isNone <;> cases b.isNone <;> rfl

/-- An optional hint keeps null and is otherwise the hint it makes optional. -/
theorem plainFirst_optional {members : List TypeHint} {inner : TypeHint} {v w : Value}
    (ho : optionalMember? members = some inner) (h : plainFirst members v = some w) :
    w = .null ∨ inner.plain v = some w := by
  have hnone {x : Value} (hx : (TypeHint.none).plain v = some x) : x = .null := by
    rw [plain] at hx
    split at hx
    · rename_i hv
      cases hx
      exact Value.eq_null_of_isNull hv
    · cases hx
  rcases eq_pair_of_optionalMember ho with rfl | rfl
  · rw [plainFirst_pair, Option.or_eq_some_iff] at h
    rcases h with h | ⟨-, h⟩
    · exact .inr h
    · exact .inl (hnone h)
  · rw [plainFirst_pair, Option.or_eq_some_iff] at h
    rcases h with h | ⟨-, h⟩
    · exact .inl (hnone h)
    · exact .inr h

/-! ## Coerced values -/

/-- A value under a record hint that is no instance is a map, if frames are out of reach. -/
theorem exists_map_of_plainRows {onMap : Entries Value → Option Value} {v w : Value}
    (hv : v.instanceFree = true) (h : plainRows onMap v = some w) :
    ∃ entries, v = .map entries ∧ onMap entries = some w := by
  cases v with
  | map entries => exact ⟨entries, rfl, h⟩
  | frame f => cases hv
  | _ => cases h

/-- What a list hint makes of a value without instances is made of a list. -/
theorem exists_list_of_plain {element : TypeHint} {v w : Value} (hv : v.instanceFree = true)
    (h : (TypeHint.list element).plain v = some w) :
    ∃ items, v = .list items ∧ ∃ results,
      List.Forall₂ (fun item result => element.plain item = some result) items results ∧
        w = .list results := by
  obtain ⟨items, hl, h⟩ := Option.bind_eq_some_iff.mp h
  obtain ⟨results, hr, rfl⟩ := Option.map_eq_some_iff.mp h
  refine ⟨items, ?_, results, Sequence.mapM_eq_some_iff.mp hr, rfl⟩
  cases v with
  | list given => cases hl; rfl
  | frame f => cases hv
  | _ => cases hl

/-- What a record hint makes of a value without instances is built from a map. -/
theorem exists_fields_of_plain {name : String} {fields : List FieldSpec} {v w : Value}
    (hv : v.instanceFree = true) (h : (TypeHint.record ⟨name, fields⟩).plain v = some w) :
    ∃ entries, v = .map entries ∧ ∃ values, plainFields fields entries = some values ∧
      w = .record ⟨name, values⟩ := by
  have hrows : plainRows (fun entries => (plainFields fields entries).map (.record ⟨name, ·⟩)) v =
      some w := by
    cases v with
    | record r => cases hv
    | _ => exact h
  obtain ⟨entries, rfl, hm⟩ := exists_map_of_plainRows hv hrows
  obtain ⟨values, hp, rfl⟩ := Option.map_eq_some_iff.mp hm
  exact ⟨entries, rfl, values, hp, rfl⟩

mutual

/-- What plain coercion makes of a value without instances fits the type of the hint, or is null
under an optional hint. -/
theorem fits_of_plain : ∀ (h : TypeHint) (t : ColType) (v w : Value), h.colType = .ok t →
    h.DefaultsFit → v.instanceFree = true → h.plain v = some w →
    t.Fits w ∨ w = .null ∧ h.optional?.isSome = true
  | .any, t, v, w, ht, _, _, _ => by
    cases ht
    exact .inl trivial
  | .none, _, _, _, ht, _, _, _ | .frame, _, _, _, ht, _, _, _
  | .foreign _, _, _, _, ht, _, _, _ => by cases ht
  | .scalar kind, t, v, w, ht, _, _, h => by
    cases ht
    have hw : kind.admits w = true := admits_of_plainScalar h
    exact .inl ((kind.admits_dataType w).trans hw)
  | .list element, t, v, w, ht, hd, hv, h => by
    obtain ⟨type, htype, rfl⟩ := Sequence.map_eq_ok_iff.mp ht
    obtain ⟨items, rfl, results, hrun, rfl⟩ := exists_list_of_plain hv h
    refine .inl ⟨results, rfl, fun x hx => ?_⟩
    obtain ⟨item, hi, hp⟩ := Sequence.exists_of_mem_right hrun hx
    have hfree := Value.instanceFree_list.mp hv item hi
    rcases fits_of_plain element type item x htype hd hfree hp with hfit | ⟨hnull, -⟩
    · exact .inr hfit
    · exact .inl hnull
  | .dict key element, t, v, w, ht, hd, hv, h => by
    rw [colType] at ht
    split at ht
    · obtain ⟨type, htype, rfl⟩ := Sequence.map_eq_ok_iff.mp ht
      obtain ⟨entries, rfl, h⟩ := exists_map_of_plainRows hv h
      obtain ⟨results, hr, rfl⟩ := Option.map_eq_some_iff.mp h
      have hrun := Sequence.mapM_eq_some_iff.mp hr
      refine .inl ⟨results, rfl, fun x hx => ?_⟩
      obtain ⟨e, he, hentry⟩ := Sequence.exists_of_mem_right hrun hx
      obtain ⟨value, hp, rfl⟩ := Option.map_eq_some_iff.mp hentry
      have hfree := Value.instanceFree_map.mp hv e he
      rcases fits_of_plain element type e.2 value htype hd hfree hp with hfit | ⟨hnull, -⟩
      · exact .inr hfit
      · exact .inl hnull
    · cases ht
  | .union members, t, v, w, ht, hd, hv, h => by
    rw [colType_union] at ht
    cases ho : optionalMember? members with
    | none =>
      rw [ho] at ht
      cases ht
      exact .inl trivial
    | some inner =>
      rw [ho] at ht
      have hsome : (TypeHint.union members).optional?.isSome = true := by rw [optional?, ho]; rfl
      rcases plainFirst_optional ho h with hnull | hinner
      · exact .inr ⟨hnull, hsome⟩
      · have hm : inner ∈ members := by
          rcases eq_pair_of_optionalMember ho with rfl | rfl <;> simp
        have hdefaults := defaultsFit_of_mem (hd (by rw [ho]; rfl)) inner hm
        exact (fits_of_plain_member members inner hm t v w ht hdefaults hv hinner).imp_right
          fun hnull => ⟨hnull.1, hsome⟩
  | .record ⟨name, fields⟩, t, v, w, ht, hd, hv, h => by
    obtain ⟨properties, hps, rfl⟩ := Sequence.map_eq_ok_iff.mp ht
    obtain ⟨entries, rfl, values, hp, rfl⟩ := exists_fields_of_plain hv h
    exact .inl ⟨⟨name, values⟩, rfl, propertiesFit_of_plainFields fields properties entries values
      hps hd (Value.instanceFree_map.mp hv) hp⟩

/-- What a member of a union makes of a value fits the type of the member. -/
theorem fits_of_plain_member : ∀ (members : List TypeHint), ∀ member ∈ members,
    ∀ (t : ColType) (v w : Value), member.colType = .ok t → member.DefaultsFit →
    v.instanceFree = true → member.plain v = some w →
    t.Fits w ∨ w = .null ∧ member.optional?.isSome = true
  | first :: rest, member, hm, t, v, w, ht, hd, hv, h => by
    rcases List.mem_cons.mp hm with he | hm
    · rw [he] at ht hd h ⊢
      exact fits_of_plain first t v w ht hd hv h
    · exact fits_of_plain_member rest member hm t v w ht hd hv h

/-- The fields of a record built from a map line up with the properties of its type. -/
theorem propertiesFit_of_plainFields : ∀ (fields : List FieldSpec) (properties : List Property)
    (entries : Entries Value) (values : List (String × Value)),
    fieldTypes fields = .ok properties → FieldsDefaultsFit fields →
    (∀ e ∈ entries, e.2.instanceFree = true) → plainFields fields entries = some values →
    ColType.PropertiesFit properties values
  | [], _, _, _, ht, _, _, h => by
    cases ht
    cases h
    rfl
  | ⟨name, hint, default?⟩ :: rest, properties, entries, values, ht, hd, hv, h => by
    obtain ⟨type, htype, ht⟩ := Sequence.bind_eq_ok_iff.mp ht
    obtain ⟨others, hothers, ht⟩ := Sequence.bind_eq_ok_iff.mp ht
    cases ht
    obtain ⟨hdefault, hhint, hrest⟩ := hd
    obtain ⟨value, later, rfl, hvalue, hlater⟩ := plainFields_cons_eq_some_iff.mp h
    refine ⟨value, later, rfl, ?_,
      propertiesFit_of_plainFields rest others entries later hothers hrest hv hlater⟩
    cases hg : entries.get? name with
    | none =>
      simp only [hg] at hvalue
      exact hdefault value hvalue type htype
    | some given =>
      simp only [hg] at hvalue
      have hfree := hv (name, given) (Entries.mem_of_get? hg)
      rcases fits_of_plain hint type given value htype hhint hfree hvalue with hfit | ⟨hnull, -⟩
      · exact .inr hfit
      · exact .inl hnull

end

/-- The schema of a hint describes what coercion lets through: of a value without frames and record
instances, under a hint whose record defaults are null or fit their properties, the coerced value
fits the type of the only column, or is null where the column is not required or takes anything. So
a required column that does not take anything never receives null. -/
theorem schema_describes_coerced (h : TypeHint) (s : Schema) (v w : Value)
    (hs : h.schema = .ok s) (hd : h.DefaultsFit) (hv : v.instanceFree = true)
    (hc : h.coerce v = .ok w) :
    ∃ c, s.columns = [c] ∧
      (c.type.Fits w ∨ w = .null ∧ (c.required = false ∨ c.type = .any)) ∧
      (c.required = true → c.type ≠ .any → w ≠ .null) := by
  rw [schema] at hs
  split at hs
  · rename_i type htype
    cases hs
    have hfits := fits_of_plain h type v w htype hd hv (coerce_eq_ok_iff.mp hc)
    refine ⟨⟨Option.none, type, h.optional?.isNone⟩, rfl, ?_, ?_⟩
    · refine hfits.imp_right fun hnull => ⟨hnull.1, .inl ?_⟩
      rw [← Option.not_isSome, hnull.2]
      rfl
    · intro hrequired hany hnull
      rcases hfits with hfit | ⟨-, hoptional⟩
      · exact hany (ColType.eq_any_of_fits_null (hnull ▸ hfit))
      · rw [← Option.not_isSome, hoptional] at hrequired
        cases hrequired
  · cases hs

/-- Optional points with a widened coordinate, a tag that is not given and a list of anything. -/
theorem schema_describes_coerced_points :
    let point : RecordDef := ⟨"Point",
      [⟨"x", .scalar .float, Option.none⟩, ⟨"tag", .optional (.scalar .str), some (.str "")⟩,
        ⟨"notes", .list (.union [.scalar .int, .scalar .str]), Option.none⟩]⟩
    let h := TypeHint.optional (.dict (.scalar .str) (.record point))
    let type := ColType.map (.object [⟨"x", .scalar .double, true⟩, ⟨"tag", .scalar .string, false⟩,
      ⟨"notes", .array .any, true⟩])
    let given := Value.map [("p", .map [("notes", .list [.long 1, .str "a"]), ("x", .long 2)])]
    let result := Value.map [("p", .record ⟨"Point",
      [("x", .double (.ofInt 2)), ("tag", .str ""), ("notes", .list [.long 1, .str "a"])]⟩)]
    h.schema = .ok ⟨[⟨Option.none, type, false⟩]⟩ ∧ h.DefaultsFit ∧ given.instanceFree = true ∧
      h.coerce given = .ok result ∧ type.Fits result := by
  intro point h type given result
  have hs : h.schema = .ok ⟨[⟨Option.none, type, false⟩]⟩ := rfl
  have hd : h.DefaultsFit := by
    have htag : ∀ value ∈ some (Value.str ""), ∀ t, (TypeHint.optional (.scalar .str)).colType = .ok t →
        value = .null ∨ t.Fits value := by
      intro value hvalue t ht
      cases hvalue
      cases ht
      exact .inr rfl
    have hpoint : (TypeHint.record point).DefaultsFit :=
      ⟨by simp, trivial, htag, fun _ => ⟨trivial, trivial, trivial⟩, by simp, nofun, trivial⟩
    exact fun _ => ⟨hpoint, trivial, trivial⟩
  have hc : h.coerce given = .ok result := rfl
  obtain ⟨c, hcolumn, hfits, -⟩ := schema_describes_coerced h _ given result hs hd rfl hc
  cases hcolumn
  rcases hfits with hfit | ⟨hnull, -⟩
  · exact ⟨hs, hd, rfl, hc, hfit⟩
  · exact Value.noConfusion hnull

end TypeHint

end TypedModel
