import TypedModel.Proofs.Coercion.Conforms

/-!
# Repeated coercion

A coerced value is coerced to itself. For unions this asks that no member that rejects a value
accepts what a later member makes of it. So coercion is first looked at without regard to its hint:
it may widen integers, and build records from maps that their definitions accept. A hint that
accepts what came of such steps accepts what they began with, which is where it matters that the
names of records tell their definitions apart.
-/

namespace TypedModel

namespace TypeHint

mutual

/-- The record definitions that a value may meet under a hint; no value meets the key hint of a
dict. -/
def definitions : TypeHint → List RecordDef
  | .list element => definitions element
  | .dict _ element => definitions element
  | .union members => memberDefinitions members
  | .record ⟨name, fields⟩ => ⟨name, fields⟩ :: fieldDefinitions fields
  | _ => []
termination_by structural h => h

/-- The record definitions within the members of a union. -/
def memberDefinitions : List TypeHint → List RecordDef
  | [] => []
  | member :: rest => definitions member ++ memberDefinitions rest
termination_by structural members => members

/-- The record definitions within the hints of fields. -/
def fieldDefinitions : List FieldSpec → List RecordDef
  | [] => []
  | ⟨_, hint, _⟩ :: rest => definitions hint ++ fieldDefinitions rest
termination_by structural fields => fields

end

/-- The definitions of a member are among those of the union. -/
theorem definitions_subset_of_mem {members : List TypeHint} {member : TypeHint}
    (h : member ∈ members) : member.definitions ⊆ memberDefinitions members := by
  induction members with
  | nil => cases h
  | cons first rest ih =>
    rcases List.mem_cons.mp h with rfl | h
    · exact List.subset_append_left _ _
    · exact List.Subset.trans (ih h) (List.subset_append_right _ _)

end TypeHint

/-- Whether definitions of the same name are the same definition. -/
def NamesDefine (definitions : List RecordDef) : Prop :=
  ∀ d ∈ definitions, ∀ e ∈ definitions, d.name = e.name → d = e

/-- What coercion may make of a value, whatever the hint: an integer is widened, lists and maps keep
their shape, and a map that a record definition accepts becomes its instance. -/
inductive Rewrites (definitions : List RecordDef) : Value → Value → Prop
  /-- The value stays. -/
  | unchanged (v : Value) : Rewrites definitions v v
  /-- An integer becomes a double. -/
  | widened (n : Int64) : Rewrites definitions (.long n) (.double (.ofInt n.toInt))
  /-- The items of a list are rewritten. -/
  | items {given results : List Value} (h : List.Forall₂ (Rewrites definitions) given results) :
    Rewrites definitions (.list given) (.list results)
  /-- The values of a map are rewritten under their names. -/
  | entries {given results : Entries Value} (hnames : results.map Prod.fst = given.map Prod.fst)
    (hvalues : List.Forall₂ (Rewrites definitions) (given.map Prod.snd) (results.map Prod.snd)) :
    Rewrites definitions (.map given) (.map results)
  /-- A map becomes an instance of a record. -/
  | built {given : Entries Value} {values : List (String × Value)} (d : RecordDef)
    (hd : d ∈ definitions) (h : TypeHint.plainFields d.fields given = some values) :
    Rewrites definitions (.map given) (.record ⟨d.name, values⟩)

namespace TypeHint

open Sequence

variable {ds : List RecordDef}

/-! ## What accepts a value -/

/-- A union accepts what one of its members accepts. -/
theorem isSome_plainFirst_cons (member : TypeHint) (rest : List TypeHint) (v : Value) :
    (plainFirst (member :: rest) v).isSome = ((member.plain v).isSome || (plainFirst rest v).isSome) := by
  rw [plainFirst]
  cases member.plain v <;> rfl

/-- A list is accepted where its items are. -/
theorem isSome_plain_list (element : TypeHint) (items : List Value) :
    ((TypeHint.list element).plain (.list items)).isSome = true ↔
      ∀ item ∈ items, (element.plain item).isSome = true := by
  rw [← isSome_mapM_iff]
  show ((items.mapM element.plain).map Value.list).isSome = true ↔ _
  rw [Option.isSome_map]

/-- A map is accepted by a dict where its values are. -/
theorem isSome_plain_map (key element : TypeHint) (entries : Entries Value) :
    ((TypeHint.dict key element).plain (.map entries)).isSome = true ↔
      ∀ value ∈ entries.map Prod.snd, (element.plain value).isSome = true := by
  show ((entries.mapM fun e => (element.plain e.2).map (e.1, ·)).map Value.map).isSome = true ↔ _
  rw [Option.isSome_map, isSome_mapM_iff, List.forall_mem_map]
  simp only [Option.isSome_map]

/-- A map is accepted by a record where all of its fields can be built. -/
theorem isSome_plain_record (d : RecordDef) (entries : Entries Value) :
    ((TypeHint.record d).plain (.map entries)).isSome = (plainFields d.fields entries).isSome := by
  obtain ⟨name, fields⟩ := d
  show ((plainFields fields entries).map (Value.record ⟨name, ·⟩)).isSome = _
  rw [Option.isSome_map]

/-- The fields can be built where the first one and the others can. -/
theorem isSome_plainFields_cons (f : FieldSpec) (rest : List FieldSpec) (entries : Entries Value) :
    (plainFields (f :: rest) entries).isSome =
      ((match entries.get? f.name with
        | some given => f.hint.plain given
        | Option.none => f.default?).isSome && (plainFields rest entries).isSome) := by
  obtain ⟨name, hint, default?⟩ := f
  rw [plainFields]
  cases entries.get? name with
  | none => cases default? <;> cases plainFields rest entries <;> rfl
  | some given =>
    cases hp : hint.plain given <;> cases plainFields rest entries <;> simp [hp]

/-! ## Hints that accept a rewritten value -/

/-- A scalar hint that takes a widened integer takes the integer. -/
theorem isSome_plainScalar_of_rewrites {kind : ScalarKind} {v w : Value} (hr : Rewrites ds v w)
    (h : (plainScalar kind w).isSome = true) : (plainScalar kind v).isSome = true := by
  cases hr with
  | unchanged => exact h
  | widened n => cases kind <;> first | rfl | cases h
  | items _ | entries _ _ | built _ _ _ => cases kind <;> cases h

mutual

/-- A hint that accepts a rewritten value accepts the value it was rewritten from. -/
theorem isSome_plain_of_rewrites (hn : NamesDefine ds) : ∀ (g : TypeHint) {v w : Value},
    g.definitions ⊆ ds → Rewrites ds v w → (g.plain w).isSome = true → (g.plain v).isSome = true
  | .any, _, _, _, _, _ | .frame, _, _, _, _, _ | .foreign _, _, _, _, _, _ => rfl
  | .none, v, w, _, hr, h => by
    cases hr with
    | unchanged => exact h
    | widened _ | items _ | entries _ _ | built _ _ _ => cases h
  | .scalar kind, v, w, _, hr, h => isSome_plainScalar_of_rewrites hr h
  | .union members, v, w, hd, hr, h => isSome_plainFirst_of_rewrites hn members hd hr h
  | .list element, v, w, hd, hr, h => by
    cases hr with
    | unchanged => exact h
    | widened _ | entries _ _ | built _ _ _ => cases h
    | items hitems =>
      rw [isSome_plain_list] at h ⊢
      intro item hi
      obtain ⟨result, hresult, hstep⟩ := exists_of_mem_right hitems.flip hi
      exact isSome_plain_of_rewrites hn element hd hstep (h result hresult)
  | .dict key element, v, w, hd, hr, h => by
    cases hr with
    | unchanged => exact h
    | widened _ | items _ | built _ _ _ => cases h
    | entries _ hvalues =>
      rw [isSome_plain_map] at h ⊢
      intro value hv
      obtain ⟨result, hresult, hstep⟩ := exists_of_mem_right hvalues.flip hv
      exact isSome_plain_of_rewrites hn element hd hstep (h result hresult)
  | .record ⟨name, fields⟩, v, w, hd, hr, h => by
    obtain ⟨hdefinition, hfields⟩ := List.cons_subset.mp hd
    cases hr with
    | unchanged => exact h
    | widened _ | items _ => cases h
    | entries hnames hvalues =>
      rw [isSome_plain_record] at h ⊢
      exact isSome_plainFields_of_rewrites hn fields hfields hnames hvalues h
    | built d hmem hp =>
      have hname : d.name = name := by
        by_contra hne
        rw [plain, if_neg hne] at h
        cases h
      have hsame : d = ⟨name, fields⟩ := hn d hmem _ hdefinition hname
      rw [isSome_plain_record, ← hsame, hp]
      rfl

/-- A union that accepts a rewritten value accepts the value it was rewritten from. -/
theorem isSome_plainFirst_of_rewrites (hn : NamesDefine ds) : ∀ (members : List TypeHint)
    {v w : Value}, memberDefinitions members ⊆ ds → Rewrites ds v w →
    (plainFirst members w).isSome = true → (plainFirst members v).isSome = true
  | [], _, _, _, _, h => by cases h
  | member :: rest, v, w, hd, hr, h => by
    obtain ⟨hmember, hrest⟩ := List.append_subset.mp hd
    rw [isSome_plainFirst_cons, Bool.or_eq_true] at h ⊢
    exact h.imp (isSome_plain_of_rewrites hn member hmember hr)
      (isSome_plainFirst_of_rewrites hn rest hrest hr)

/-- Fields that can be built from rewritten entries can be built from the entries. -/
theorem isSome_plainFields_of_rewrites (hn : NamesDefine ds) : ∀ (fields : List FieldSpec)
    {given results : Entries Value}, fieldDefinitions fields ⊆ ds →
    results.map Prod.fst = given.map Prod.fst →
    List.Forall₂ (Rewrites ds) (given.map Prod.snd) (results.map Prod.snd) →
    (plainFields fields results).isSome = true → (plainFields fields given).isSome = true
  | [], _, _, _, _, _, _ => rfl
  | ⟨name, hint, default?⟩ :: rest, given, results, hd, hnames, hvalues, h => by
    obtain ⟨hhint, hrest⟩ := List.append_subset.mp hd
    rw [isSome_plainFields_cons, Bool.and_eq_true] at h ⊢
    refine ⟨?_, isSome_plainFields_of_rewrites hn rest hrest hnames hvalues h.2⟩
    have hfirst := h.1
    have hfound : Option.Rel (Rewrites ds) (given.get? name) (results.get? name) :=
      lookup_rel hnames hvalues name
    cases hg : given.get? name with
    | none =>
      rw [hg] at hfound
      cases hw : results.get? name with
      | none => simpa only [hw] using hfirst
      | some result =>
        rw [hw] at hfound
        cases hfound
    | some value =>
      rw [hg] at hfound
      cases hw : results.get? name with
      | none =>
        rw [hw] at hfound
        cases hfound
      | some result =>
        rw [hw] at hfound
        cases hfound with
        | some hstep =>
          simp only [hw] at hfirst
          exact isSome_plain_of_rewrites hn hint hhint hstep hfirst

end

/-! ## Coercion as rewriting -/

mutual

/-- Plain coercion rewrites a value in which no frame is met. -/
theorem rewrites_of_plain : ∀ (h : TypeHint) {v w : Value}, h.definitions ⊆ ds →
    v.frameFree = true → h.plain v = some w → Rewrites ds v w
  | .any, v, w, _, _, h | .frame, v, w, _, _, h | .foreign _, v, w, _, _, h => by
    cases h
    exact .unchanged v
  | .none, v, w, _, _, h => by
    rw [plain] at h
    split at h
    · cases h
      exact .unchanged v
    · cases h
  | .scalar kind, v, w, _, _, h => by
    unfold plain plainScalar at h
    split at h
    · cases h
      exact .unchanged v
    · split at h
      · cases h
        exact .widened _
      · cases h
  | .union members, v, w, hd, hv, h => rewrites_of_plainFirst members hd hv h
  | .list element, v, w, hd, hv, h => by
    obtain ⟨items, hl, h⟩ := Option.bind_eq_some_iff.mp h
    obtain ⟨results, hr, rfl⟩ := Option.map_eq_some_iff.mp h
    have hfree := Value.frameFree_of_listed hv hl
    have hrun := (List.forall₂_and_left _ _).mpr ⟨hfree, mapM_eq_some_iff.mp hr⟩
    have hsteps : List.Forall₂ (Rewrites ds) items results :=
      hrun.imp fun item result ⟨hi, hp⟩ => rewrites_of_plain element hd hi hp
    cases v with
    | list given =>
      cases hl
      exact .items hsteps
    | frame f => cases hv
    | _ => cases hl
  | .dict _ element, v, w, hd, hv, h => by
    cases v with
    | map given =>
      obtain ⟨results, hr, rfl⟩ := Option.map_eq_some_iff.mp h
      obtain ⟨hnames, hvalues⟩ := mapM_values_eq_some_iff.mp hr
      have hfree : ∀ value ∈ given.map Prod.snd, value.frameFree = true :=
        List.forall_mem_map.mpr (Value.entriesFrameFree_iff.mp hv)
      have hrun := (List.forall₂_and_left _ _).mpr ⟨hfree, hvalues⟩
      exact .entries hnames
        (hrun.imp fun value result ⟨hx, hp⟩ => rewrites_of_plain element hd hx hp)
    | frame f => cases hv
    | _ => cases h
  | .record ⟨name, fields⟩, v, w, hd, hv, h => by
    cases v with
    | record r =>
      rw [plain] at h
      split at h
      · cases h
        exact .unchanged _
      · cases h
    | map given =>
      obtain ⟨values, hp, rfl⟩ := Option.map_eq_some_iff.mp h
      exact .built ⟨name, fields⟩ (List.cons_subset.mp hd).1 hp
    | frame f => cases hv
    | _ => cases h

/-- What a union makes of a value is a rewriting of it. -/
theorem rewrites_of_plainFirst : ∀ (members : List TypeHint) {v w : Value},
    memberDefinitions members ⊆ ds → v.frameFree = true → plainFirst members v = some w →
    Rewrites ds v w
  | member :: rest, v, w, hd, hv, h => by
    obtain ⟨hmember, hrest⟩ := List.append_subset.mp hd
    rw [plainFirst] at h
    split at h
    · rename_i hm
      cases h
      exact rewrites_of_plain member hmember hv hm
    · exact rewrites_of_plainFirst rest hrest hv h

end

/-- A hint that rejects a value rejects what another hint makes of it. -/
theorem plain_eq_none_of_plain {g h : TypeHint} {v w : Value} (hn : NamesDefine ds)
    (hg : g.definitions ⊆ ds) (hh : h.definitions ⊆ ds) (hv : v.frameFree = true)
    (hw : h.plain v = some w) (hnone : g.plain v = Option.none) : g.plain w = Option.none := by
  have hrewrites := rewrites_of_plain h hh hv hw
  have haccepts := isSome_plain_of_rewrites hn g hg hrewrites
  rw [hnone] at haccepts
  simpa using haccepts

/-! ## Coercing again -/

mutual

/-- A value coerced plainly is coerced to itself. -/
theorem plain_of_plain (hn : NamesDefine ds) : ∀ (h : TypeHint) {v w : Value},
    h.definitions ⊆ ds → v.frameFree = true → h.plain v = some w → h.plain w = some w
  | .any, _, _, _, _, _ | .frame, _, _, _, _, _ | .foreign _, _, _, _, _, _ => rfl
  | .none, v, w, _, _, h => by
    have hw := h
    rw [plain] at hw
    split at hw
    · cases hw
      exact h
    · cases hw
  | .scalar kind, v, w, _, _, h => by
    have hkind : kind.admits w = true := admits_of_plainScalar h
    unfold plain plainScalar
    rw [if_pos hkind]
  | .union members, v, w, hd, hv, h => plainFirst_of_plainFirst hn members hd hv h
  | .list element, v, w, hd, hv, h => by
    obtain ⟨items, hl, h⟩ := Option.bind_eq_some_iff.mp h
    obtain ⟨results, hr, rfl⟩ := Option.map_eq_some_iff.mp h
    have hfree := Value.frameFree_of_listed hv hl
    have hagain : results.mapM element.plain = some results := by
      refine mapM_eq_some_iff.mpr (List.forall₂_same.mpr fun result hresult => ?_)
      obtain ⟨item, hi, hp⟩ := exists_of_mem_right (mapM_eq_some_iff.mp hr) hresult
      exact plain_of_plain hn element hd (hfree item hi) hp
    show (results.mapM element.plain).map Value.list = _
    rw [hagain]
    rfl
  | .dict _ element, v, w, hd, hv, h => by
    cases v with
    | map given =>
      obtain ⟨results, hr, rfl⟩ := Option.map_eq_some_iff.mp h
      obtain ⟨-, hvalues⟩ := mapM_values_eq_some_iff.mp hr
      have hfree : ∀ value ∈ given.map Prod.snd, value.frameFree = true :=
        List.forall_mem_map.mpr (Value.entriesFrameFree_iff.mp hv)
      have hagain : (results.mapM fun e => (element.plain e.2).map (e.1, ·)) = some results := by
        refine mapM_values_eq_some_iff.mpr ⟨rfl, List.forall₂_same.mpr fun result hresult => ?_⟩
        obtain ⟨value, hx, hp⟩ := exists_of_mem_right hvalues hresult
        exact plain_of_plain hn element hd (hfree value hx) hp
      show (results.mapM fun e => (element.plain e.2).map (e.1, ·)).map Value.map = _
      rw [hagain]
      rfl
    | frame f => cases hv
    | _ => cases h
  | .record ⟨name, fields⟩, v, w, _, hv, h => by
    have hinstance (r : Record) (hr : r.name = name) :
        (TypeHint.record ⟨name, fields⟩).plain (.record r) = some (.record r) := by
      rw [plain, if_pos hr]
    cases v with
    | record r =>
      rw [plain] at h
      split at h
      · cases h
        exact hinstance r ‹_›
      · cases h
    | map given =>
      obtain ⟨values, -, rfl⟩ := Option.map_eq_some_iff.mp h
      exact hinstance ⟨name, values⟩ rfl
    | frame f => cases hv
    | _ => cases h

/-- What a union makes of a value is claimed by the same member again. -/
theorem plainFirst_of_plainFirst (hn : NamesDefine ds) : ∀ (members : List TypeHint)
    {v w : Value}, memberDefinitions members ⊆ ds → v.frameFree = true →
    plainFirst members v = some w → plainFirst members w = some w
  | member :: rest, v, w, hd, hv, h => by
    obtain ⟨hmember, hrest⟩ := List.append_subset.mp hd
    rw [plainFirst] at h
    cases hm : member.plain v with
    | some x =>
      rw [hm] at h
      cases h
      rw [plainFirst, plain_of_plain hn member hmember hv hm]
    | none =>
      rw [hm] at h
      have hrejects : member.plain w = Option.none :=
        plain_eq_none_of_plain (h := .union rest) hn hmember hrest hv h hm
      rw [plainFirst, hrejects]
      exact plainFirst_of_plainFirst hn rest hrest hv h

end

/-- Coercion fails where there is no plain result. -/
theorem exists_coerce_eq_error_iff {h : TypeHint} {v : Value} :
    (∃ e, h.coerce v = .error e) ↔ h.plain v = Option.none := by
  rw [← toOption_coerce]
  cases h.coerce v <;> simp [Except.toOption]

/-- The result of a union is that of the member in front of which all others fail. -/
theorem plainFirst_of_split {before after : List TypeHint} {member : TypeHint} {v w : Value}
    (hbefore : ∀ g ∈ before, g.plain v = Option.none) (hw : member.plain v = some w) :
    plainFirst (before ++ member :: after) v = some w := by
  induction before with
  | nil => rw [List.nil_append, plainFirst, hw]
  | cons g before ih =>
    have hg := hbefore g List.mem_cons_self
    rw [List.cons_append, plainFirst, hg]
    exact ih fun g hg => hbefore g (List.mem_cons_of_mem _ hg)

/-- Coercion is idempotent: where names tell the record definitions of a hint apart and no frame can
be reached, a coerced value is coerced to itself. A union leaves its result to the member that gave
it, since the members that rejected the given value reject the result as well. -/
theorem coercion_idempotent (h : TypeHint) (v w : Value) (hn : NamesDefine h.definitions)
    (hv : v.frameFree = true) (hc : h.coerce v = .ok w) :
    h.coerce w = .ok w ∧
      ∀ before member after x, h = .union (before ++ member :: after) →
        (∀ g ∈ before, ∃ e, g.coerce v = .error e) → member.coerce v = .ok x →
        x = w ∧ member.coerce w = .ok w ∧ ∀ g ∈ before, ∃ e, g.coerce w = .error e := by
  have hw := coerce_eq_ok_iff.mp hc
  constructor
  · exact coerce_eq_ok_iff.mpr (plain_of_plain hn h (List.Subset.refl _) hv hw)
  · rintro before member after x rfl hbefore hx
    have hrejected : ∀ g ∈ before, g.plain v = Option.none := fun g hg =>
      exists_coerce_eq_error_iff.mp (hbefore g hg)
    have hmember := coerce_eq_ok_iff.mp hx
    have hresult : x = w := by
      have hfirst : (TypeHint.union (before ++ member :: after)).plain v = some x :=
        plainFirst_of_split hrejected hmember
      rw [hfirst] at hw
      exact Option.some.inj hw
    subst hresult
    have hsub : ∀ g ∈ before ++ member :: after,
        g.definitions ⊆ (TypeHint.union (before ++ member :: after)).definitions := fun g hg =>
      definitions_subset_of_mem hg
    have hlast := hsub member (by simp)
    refine ⟨rfl, coerce_eq_ok_iff.mpr (plain_of_plain hn member hlast hv hmember), ?_⟩
    intro g hg
    have hmem : g ∈ before ++ member :: after := List.mem_append_left _ hg
    exact exists_coerce_eq_error_iff.mpr
      (plain_eq_none_of_plain hn (hsub g hmem) hlast hv hmember (hrejected g hg))

/-- A map that a dict of integers rejects, so that it becomes a point, beside a list that only the
last member takes. -/
theorem coercion_idempotent_points :
    let point : RecordDef := ⟨"Point", [⟨"x", .scalar .float, Option.none⟩]⟩
    let h := TypeHint.list
      (.union [.dict (.scalar .str) (.scalar .int), .record point, .list (.scalar .float)])
    let given := Value.list [.map [("x", .double (.ofInt 1))], .map [("x", .long 1)], .list [.long 1]]
    let result := Value.list [.record ⟨"Point", [("x", .double (.ofInt 1))]⟩, .map [("x", .long 1)],
      .list [.double (.ofInt 1)]]
    NamesDefine h.definitions ∧ given.frameFree = true ∧ h.coerce given = .ok result ∧
      h.coerce result = .ok result := by
  intro point h given result
  have hn : NamesDefine h.definitions := by
    have hdefinitions : h.definitions = [point] := rfl
    intro d hd e he _
    rw [hdefinitions, List.mem_singleton] at hd he
    rw [hd, he]
  have hc : h.coerce given = .ok result := rfl
  exact ⟨hn, rfl, hc, (coercion_idempotent h given result hn rfl hc).1⟩

end TypeHint

end TypedModel
