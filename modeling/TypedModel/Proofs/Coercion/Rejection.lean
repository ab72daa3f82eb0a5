import TypedModel.Proofs.Coercion.Acceptance
import TypedModel.Proofs.Coercion.Conforms
import TypedModel.Proofs.Value.WellFormed

/-!
# The place of a rejection

A rejection names the first position that does not fit. Its path leads through hint and value
together, one step for each item, row, map entry and record field, and at every step all positions
that are visited earlier are accepted. At its end the value clashes with the hint, or a required
field is not given. A value that has such a position is rejected for it and for no other.
-/

namespace TypedModel

/-- Frames. -/
def Value.isFrame : Value → Bool
  | .frame _ => true
  | _ => false

/-- The same rejection further down, behind the steps in front. -/
def Rejection.under (front : Path) : Rejection → Rejection
  | .clash path hint value => .clash (front ++ path) hint value
  | .missing path => .missing (front ++ path)

/-- Steps in front of each other are joined. -/
theorem Rejection.under_under (front path : Path) (r : Rejection) :
    (r.under path).under front = r.under (front ++ path) := by
  cases r <;> simp only [under, List.append_assoc]

namespace TypeHint

/-- One step into hint and value, all positions that are visited earlier being accepted. -/
inductive Step : TypeHint → Value → PathStep → TypeHint → Value → Prop
  /-- An item of a list, or of a frame read as one, behind items of lower indices. -/
  | item {element : TypeHint} {v item : Value} {before after : List Value}
    (hitems : v.listed? = some (before ++ item :: after))
    (hbefore : ∀ x ∈ before, element.Accepts x) :
    Step (.list element) v (.index before.length) element item
  /-- A row of a frame as a map, behind rows of lower indices. -/
  | row {h : TypeHint} {f : Frame} {row : List Value} {before after : List (List Value)}
    (hreads : h.readsRows = true) (hrows : f.rows = before ++ row :: after)
    (hbefore : ∀ x ∈ before, h.Accepts (.map (f.rowEntries x))) :
    Step h (.frame f) (.index before.length) h (.map (f.rowEntries row))
  /-- The value of a name of a map, behind those of smaller names. -/
  | entry {key element : TypeHint} {entries : Entries Value} {name : String} {value : Value}
    (hmem : (name, value) ∈ entries) (hbefore : ∀ e ∈ entries, e.1 < name → element.Accepts e.2) :
    Step (.dict key element) (.map entries) (.name name) element value
  /-- The value given for a declared field, behind fields declared earlier. -/
  | field {d : RecordDef} {entries : Entries Value} {f : FieldSpec} {value : Value}
    {before after : List FieldSpec} (hfields : d.fields = before ++ f :: after)
    (hgiven : entries.get? f.name = some value) (hbefore : ∀ x ∈ before, x.AcceptedIn entries) :
    Step (.record d) (.map entries) (.name f.name) f.hint value

/-- Whether a path leads from a hint and a value to a hint and a value within them. Where a value is
given, an optional hint is the hint that it makes optional. -/
inductive Leads : TypeHint → Value → Path → TypeHint → Value → Prop
  /-- The path ends here. -/
  | here (h : TypeHint) (v : Value) : Leads h v [] h v
  /-- The hint that is made optional. -/
  | optional {h inner g : TypeHint} {v x : Value} {path : Path} (hinner : h.optional? = some inner)
    (hv : v ≠ .null) (rest : Leads inner v path g x) : Leads h v path g x
  /-- A step, and what follows it. -/
  | step {h next g : TypeHint} {v value x : Value} {s : PathStep} {path : Path}
    (first : Step h v s next value) (rest : Leads next value path g x) : Leads h v (s :: path) g x

/-- Whether a rejection names the first position of a value that does not fit a hint. -/
inductive Offence : TypeHint → Value → Rejection → Prop
  /-- The value at the end of the path clashes with the hint there. -/
  | clash {h g : TypeHint} {v x : Value} {path : Path} (hl : Leads h v path g x)
    (hc : g.Clashes x) : Offence h v (.clash path g x)
  /-- The last step is a declared field without default whose name the map lacks. -/
  | missing {h : TypeHint} {v : Value} {path : Path} {d : RecordDef} {entries : Entries Value}
    {f : FieldSpec} {before after : List FieldSpec} (hl : Leads h v path (.record d) (.map entries))
    (hfields : d.fields = before ++ f :: after) (hbefore : ∀ x ∈ before, x.AcceptedIn entries)
    (habsent : entries.get? f.name = Option.none) (hrequired : f.default? = Option.none) :
    Offence h v (.missing (path ++ [.name f.name]))

/-- An offence behind a step. -/
theorem Offence.step {h next : TypeHint} {v value : Value} {s : PathStep} {r : Rejection}
    (first : Step h v s next value) (ho : Offence next value r) : Offence h v (r.under [s]) := by
  cases ho with
  | clash hl hc => exact .clash (.step first hl) hc
  | missing hl hfields hbefore habsent hrequired =>
    exact .missing (.step first hl) hfields hbefore habsent hrequired

/-- An offence against the hint that is made optional. -/
theorem Offence.optional {h inner : TypeHint} {v : Value} {r : Rejection}
    (hinner : h.optional? = some inner) (hv : v ≠ .null) (ho : Offence inner v r) :
    Offence h v r := by
  cases ho with
  | clash hl hc => exact .clash (.optional hinner hv hl) hc
  | missing hl hfields hbefore habsent hrequired =>
    exact .missing (.optional hinner hv hl) hfields hbefore habsent hrequired

/-- What a step leads to is well formed with the value. -/
theorem Step.wellFormed {h next : TypeHint} {v value : Value} {s : PathStep}
    (first : Step h v s next value) (hv : v.WellFormed) : value.WellFormed := by
  cases first with
  | item hitems _ =>
    cases v with
    | list items =>
      cases hitems
      exact Value.itemsWellFormed_iff.mp hv value (by simp)
    | frame f => exact Value.wellFormed_items hv value (Option.some.inj hitems ▸ by simp)
    | _ => cases hitems
  | row _ hrows _ => exact Value.wellFormed_rowEntries hv (hrows ▸ by simp)
  | entry hmem _ => exact Value.entriesWellFormed_iff.mp hv.2 _ hmem
  | field _ hgiven _ => exact Value.entriesWellFormed_iff.mp hv.2 _ (Entries.mem_of_get? hgiven)

/-- Where a path leads from a well-formed value the value is well formed. -/
theorem Leads.wellFormed {h g : TypeHint} {v x : Value} {path : Path} (hl : Leads h v path g x)
    (hv : v.WellFormed) : x.WellFormed := by
  induction hl with
  | here => exact hv
  | optional _ _ _ ih => exact ih hv
  | step first _ ih => exact ih (first.wellFormed hv)

/-- A step leads to a smaller hint, or from a frame to a row under the same hint. -/
theorem Step.smaller {h next : TypeHint} {v value : Value} {s : PathStep}
    (first : Step h v s next value) :
    2 * sizeOf next + value.isFrame.toNat < 2 * sizeOf h + v.isFrame.toNat := by
  have hle := Bool.toNat_le value.isFrame
  cases first with
  | item | entry =>
    simp only [list.sizeOf_spec, dict.sizeOf_spec]
    omega
  | row => simp [Value.isFrame]
  | @field d _ f _ before after hfields _ _ =>
    obtain ⟨name, fields⟩ := d
    obtain rfl : fields = before ++ f :: after := hfields
    have hmem : sizeOf f < sizeOf (before ++ f :: after) := List.sizeOf_lt_of_mem (by simp)
    obtain ⟨field, hint, default?⟩ := f
    simp only [FieldSpec.mk.sizeOf_spec] at hmem
    simp only [record.sizeOf_spec, RecordDef.mk.sizeOf_spec]
    omega

/-- The hint that is made optional is smaller. -/
theorem sizeOf_optional {h inner : TypeHint} (hinner : h.optional? = some inner) :
    sizeOf inner < sizeOf h := by
  cases h with
  | union members =>
    have hmem : inner ∈ members := by
      rcases eq_pair_of_optionalMember hinner with rfl | rfl <;> simp
    have hlt := List.sizeOf_lt_of_mem hmem
    rw [union.sizeOf_spec]
    omega
  | _ => cases hinner

end TypeHint

namespace Coercion

open Sequence TypeHint

/-! ## One value -/

/-- What rejects a value that is visited: the value as such, the hint that is made optional, a part
of the value, or a field that is not given. -/
inductive Cause (path : Path) : TypeHint → Value → Rejection → Prop
  /-- The value clashes with the hint. -/
  | clash {h : TypeHint} {v : Value} (hc : h.Clashes v) : Cause path h v (.clash path h v)
  /-- The hint that is made optional rejects the value. -/
  | optional {h inner : TypeHint} {v : Value} {r : Rejection} (hinner : h.optional? = some inner)
    (hv : v ≠ .null) (hr : visit inner path v = .error r) : Cause path h v r
  /-- A step leads to what is rejected. -/
  | step {h next : TypeHint} {v value : Value} {s : PathStep} {r : Rejection}
    (first : Step h v s next value) (hr : visit next (path ++ [s]) value = .error r) :
    Cause path h v r
  /-- A declared field without default is not given. -/
  | missing {d : RecordDef} {entries : Entries Value} {f : FieldSpec}
    {before after : List FieldSpec} (hfields : d.fields = before ++ f :: after)
    (hbefore : ∀ x ∈ before, x.AcceptedIn entries)
    (habsent : entries.get? f.name = Option.none) (hrequired : f.default? = Option.none) :
    Cause path (.record d) (.map entries) (.missing (path ++ [.name f.name]))

/-- A visit that rejects a value has a cause. -/
theorem cause_of_visit {h : TypeHint} {path : Path} {v : Value} {r : Rejection} (hv : v.WellFormed)
    (hr : visit h path v = .error r) : Cause path h v r := by
  cases h with
  | any | frame | foreign _ => cases hr
  | none =>
    rw [visit] at hr
    split at hr
    · cases hr
    · rename_i hnull
      cases hr
      exact .clash fun hv => hnull (hv ▸ rfl)
  | scalar kind =>
    obtain ⟨rfl, hc⟩ := visitScalar_eq_error_iff.mp hr
    exact .clash hc
  | union members =>
    rw [visit, visitMembers_eq_map] at hr
    cases hmember : optionalMember? members with
    | none =>
      obtain ⟨rfl, hc⟩ := (visitUnion_eq_error_iff hmember).mp hr
      exact .clash hc
    | some inner =>
      rw [visitUnion_of_optional hmember] at hr
      split at hr
      · cases hr
      · rename_i hnull
        exact .optional hmember (fun hv => hnull (hv ▸ rfl)) hr
  | list element =>
    cases v with
    | list _ | frame _ =>
      obtain ⟨before, item, after, hsplit, hbefore, hitem⟩ := (visit_list_eq_error_iff rfl).mp hr
      exact .step (.item (congrArg some hsplit) hbefore) hitem
    | _ =>
      cases hr
      exact .clash rfl
  | dict key element =>
    cases v with
    | map entries =>
      obtain ⟨name, value, hmem, hbefore, hvalue⟩ := (visitEntries_eq_error_iff hv.1).mp hr
      exact .step (.entry hmem hbefore) hvalue
    | frame f =>
      obtain ⟨before, row, after, hsplit, hbefore, hrow⟩ := (visit_frame_eq_error_iff rfl).mp hr
      exact .step (.row rfl hsplit hbefore) hrow
    | _ =>
      cases hr
      exact .clash rfl
  | record d =>
    obtain ⟨name, fields⟩ := d
    cases v with
    | record instanceOf =>
      rw [visit] at hr
      split at hr
      · cases hr
      · rename_i hname
        cases hr
        refine .clash ⟨rfl, fun other hother => ?_⟩
        cases hother
        exact hname
    | map entries =>
      obtain ⟨before, f, after, hsplit, hbefore, hfield⟩ :=
        visitFields_eq_error_iff.mp (bind_ok_eq_error_iff.mp hr)
      rcases hfield with ⟨given, hgiven, hr⟩ | ⟨habsent, hrequired, rfl⟩
      · exact .step (.field hsplit hgiven hbefore) hr
      · exact .missing hsplit hbefore habsent hrequired
    | frame f =>
      obtain ⟨before, row, after, hsplit, hbefore, hrow⟩ := (visit_frame_eq_error_iff rfl).mp hr
      exact .step (.row rfl hsplit hbefore) hrow
    | _ =>
      cases hr
      exact .clash ⟨rfl, by simp⟩

/-- A value that clashes with the hint is rejected. -/
theorem visit_of_clashes {h : TypeHint} {v : Value} (path : Path) (hc : h.Clashes v) :
    visit h path v = .error (.clash path h v) := by
  cases h with
  | any | frame | foreign _ => cases hc
  | none => exact if_neg fun hnull => hc (Value.eq_null_of_isNull hnull)
  | scalar kind => exact visitScalar_eq_error_iff.mpr ⟨rfl, hc⟩
  | union members =>
    rw [visit, visitMembers_eq_map]
    exact (visitUnion_eq_error_iff hc.1).mpr ⟨rfl, hc⟩
  | list element =>
    cases v with
    | list _ | frame _ => cases hc
    | _ => rfl
  | dict key element =>
    cases v with
    | map _ | frame _ => cases hc
    | _ => rfl
  | record d =>
    obtain ⟨name, fields⟩ := d
    cases v with
    | map _ | frame _ => cases hc.1
    | record instanceOf => exact if_neg (hc.2 instanceOf rfl)
    | _ => rfl

/-- A rejection behind a step is a rejection in front of it. -/
theorem visit_of_step {h next : TypeHint} {v value : Value} {s : PathStep} {path : Path}
    {r : Rejection} (hv : v.WellFormed) (first : Step h v s next value)
    (hr : visit next (path ++ [s]) value = .error r) : visit h path v = .error r := by
  cases first with
  | item hitems hbefore =>
    exact (visit_list_eq_error_iff hitems).mpr ⟨_, _, _, rfl, hbefore, hr⟩
  | row hreads hrows hbefore =>
    exact (visit_frame_eq_error_iff hreads).mpr ⟨_, _, _, hrows, hbefore, hr⟩
  | entry hmem hbefore => exact (visitEntries_eq_error_iff hv.1).mpr ⟨_, _, hmem, hbefore, hr⟩
  | @field d _ _ _ _ _ hfields hgiven hbefore =>
    obtain ⟨name, fields⟩ := d
    refine bind_ok_eq_error_iff.mpr (visitFields_eq_error_iff.mpr ?_)
    exact ⟨_, _, _, hfields, hbefore, .inl ⟨_, hgiven, hr⟩⟩

/-- A visit rejects a value exactly where there is a cause for it. -/
theorem visit_eq_error_iff {h : TypeHint} {path : Path} {v : Value} {r : Rejection}
    (hv : v.WellFormed) : visit h path v = .error r ↔ Cause path h v r := by
  refine ⟨cause_of_visit hv, fun hcause => ?_⟩
  cases hcause with
  | clash hc => exact visit_of_clashes path hc
  | optional hinner hgiven hr =>
    cases h with
    | union members =>
      rw [visit, visitMembers_eq_map, visitUnion_of_optional hinner, if_neg]
      · exact hr
      · exact fun hnull => hgiven (Value.eq_null_of_isNull hnull)
    | _ => cases hinner
  | step first hr => exact visit_of_step hv first hr
  | @missing d _ _ _ _ hfields hbefore habsent hrequired =>
    obtain ⟨name, fields⟩ := d
    refine bind_ok_eq_error_iff.mpr (visitFields_eq_error_iff.mpr ?_)
    exact ⟨_, _, _, hfields, hbefore, .inr ⟨habsent, hrequired, rfl⟩⟩

/-! ## Every value -/

/-- A rejection of a visit, told from behind its path, is an offence. -/
theorem offence_of_visit {h : TypeHint} {path : Path} {v : Value} {r : Rejection}
    (hv : v.WellFormed) (hr : visit h path v = .error r) :
    ∃ offence, r = Rejection.under path offence ∧ Offence h v offence := by
  -- The hint gets smaller with every step but that from a frame to a row, which is no frame.
  cases (visit_eq_error_iff hv).mp hr with
  | clash hc =>
    refine ⟨.clash [] h v, ?_, .clash (.here h v) hc⟩
    rw [Rejection.under, List.append_nil]
  | optional hinner hgiven hr =>
    have hsmaller := sizeOf_optional hinner
    obtain ⟨offence, hunder, ho⟩ := offence_of_visit hv hr
    exact ⟨offence, hunder, ho.optional hinner hgiven⟩
  | @step _ _ _ _ s _ first hr =>
    have hsmaller := first.smaller
    obtain ⟨offence, rfl, ho⟩ := offence_of_visit (first.wellFormed hv) hr
    exact ⟨offence.under [s], (Rejection.under_under path [s] offence).symm, ho.step first⟩
  | @missing d entries f before after hfields hbefore habsent hrequired =>
    exact ⟨.missing ([] ++ [.name f.name]), rfl,
      .missing (.here _ _) hfields hbefore habsent hrequired⟩
termination_by 2 * sizeOf h + v.isFrame.toNat

/-- A rejection where a path leads is a rejection where it begins. -/
theorem visit_of_leads {h g : TypeHint} {v x : Value} {rest : Path} (hl : Leads h v rest g x) :
    ∀ {path : Path} {r : Rejection}, v.WellFormed → visit g (path ++ rest) x = .error r →
      visit h path v = .error r := by
  -- The path in front of the place grows with every step, so it is any path in the induction.
  induction hl with
  | here h v =>
    intro path r _ hr
    rwa [List.append_nil] at hr
  | optional hinner hgiven _ ih =>
    intro path r hv hr
    exact (visit_eq_error_iff hv).mpr (.optional hinner hgiven (ih hv hr))
  | step first _ ih =>
    intro path r hv hr
    refine (visit_eq_error_iff hv).mpr (.step first (ih (first.wellFormed hv) ?_))
    rwa [List.append_assoc, List.singleton_append]

end Coercion

namespace TypeHint

open Coercion Sequence

/-- A value is rejected exactly for its first offence. -/
theorem coerce?_eq_error_iff {h : TypeHint} {v : Value} {r : Rejection} (hv : v.WellFormed) :
    h.coerce? v = .error r ↔ Offence h v r := by
  rw [coerce?, map_eq_error_iff]
  constructor
  · intro hr
    obtain ⟨offence, rfl, ho⟩ := offence_of_visit hv hr
    cases offence <;> exact ho
  · intro ho
    cases ho with
    | clash hl hc => exact visit_of_leads hl hv (visit_of_clashes _ hc)
    | missing hl hfields hbefore habsent hrequired =>
      refine visit_of_leads hl hv ((visit_eq_error_iff (hl.wellFormed hv)).mpr ?_)
      exact .missing hfields hbefore habsent hrequired

/-- A value has no other first offence. -/
theorem Offence.unique {h : TypeHint} {v : Value} {r other : Rejection} (hv : v.WellFormed)
    (ho : Offence h v r) (hother : Offence h v other) : r = other := by
  have hr := (coerce?_eq_error_iff hv).mpr ho
  rw [(coerce?_eq_error_iff hv).mpr hother] at hr
  exact (Except.error.inj hr).symm

/-- A rejection points at the first offending position. Its error is that of an invalid input, and
its details name the place of a path that leads through hint and value, all positions visited
earlier being accepted: at its end the value clashes with the hint, whose kinds the details tell, or
its last step is a declared field without default that is not given. -/
theorem rejection_names_first_offence (h : TypeHint) (v : Value) (e : SchemaError)
    (hv : v.WellFormed) (he : h.coerce v = .error e) :
    e.code = "HINTSIG_INVALID_INPUT" ∧ ∃ path details, e.details? = some details ∧
      details.field = Path.render path ∧
      ((∃ g x, Leads h v path g x ∧ g.Clashes x ∧ details.expected = g.kindName ∧
          details.actual = x.kindName) ∨
        ∃ (front : Path) (d : RecordDef) (entries : Entries Value) (before : List FieldSpec)
          (f : FieldSpec) (after : List FieldSpec), path = front ++ [.name f.name] ∧
          Leads h v front (.record d) (.map entries) ∧ d.fields = before ++ f :: after ∧
          (∀ x ∈ before, x.AcceptedIn entries) ∧ entries.get? f.name = Option.none ∧
          f.default? = Option.none ∧ details.expected = "field to be present" ∧
          details.actual = "missing") := by
  rw [coerce] at he
  cases hr : h.coerce? v with
  | ok w =>
    rw [hr] at he
    cases he
  | error r =>
    rw [hr] at he
    cases he
    refine ⟨rfl, ?_⟩
    cases (coerce?_eq_error_iff hv).mp hr with
    | clash hl hc => exact ⟨_, _, rfl, rfl, .inl ⟨_, _, hl, hc, rfl, rfl⟩⟩
    | missing hl hfields hbefore habsent hrequired =>
      exact ⟨_, _, rfl, rfl,
        .inr ⟨_, _, _, _, _, _, rfl, hl, hfields, hbefore, habsent, hrequired, rfl, rfl⟩⟩

/-- Of several bad tags and a bad item behind them, the tag of the smallest name is told. -/
theorem rejection_names_first_offence_tags :
    let point : RecordDef := ⟨"Point", [⟨"x", .scalar .float, Option.none⟩,
      ⟨"tags", .optional (.dict (.scalar .str) (.scalar .int)), some .null⟩]⟩
    let h := TypeHint.list (.record point)
    let v := Value.list [.map [("x", .long 1)],
      .map [("tags", .map [("a", .long 1), ("b", .str ""), ("c", .null)]), ("x", .long 2)], .null]
    let e := SchemaError.invalidInput ⟨"[1].tags.b", "int", "str"⟩
    v.WellFormed ∧ h.coerce v = .error e ∧ ∃ path g x, Leads h v path g x ∧ g.Clashes x ∧
      Path.render path = "[1].tags.b" := by
  intro point h v e
  have htags : Entries.IsSorted [("a", Value.long 1), ("b", .str ""), ("c", .null)] := by
    unfold Entries.IsSorted
    decide
  have hfields (tags : Value) : Entries.IsSorted [("tags", tags), ("x", Value.long 2)] := by
    simp only [Entries.IsSorted, List.pairwise_pair]
    decide
  have hx : Entries.IsSorted [("x", Value.long 1)] := List.pairwise_singleton _ _
  have hv : v.WellFormed := by
    simp only [v, Value.WellFormed, Value.ItemsWellFormed, Value.EntriesWellFormed, htags, hfields,
      hx, and_self]
  have he : h.coerce v = .error e := by rfl
  obtain ⟨-, path, details, hdetails, hfield, hend⟩ := rejection_names_first_offence h v e hv he
  cases hdetails
  rcases hend with ⟨g, x, hl, hc, -, -⟩ | ⟨-, -, -, -, -, -, -, -, -, -, -, -, -, hactual⟩
  · exact ⟨hv, he, path, g, x, hl, hc, hfield.symm⟩
  · exact absurd hactual (by decide)

end TypeHint

end TypedModel
