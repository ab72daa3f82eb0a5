import TypedModel.Proofs.Coercion.Plain
import TypedModel.Proofs.Entries

/-!
# What a visit rejects

Which values a hint accepts does not depend on where they lie. A value is rejected as such, or one
of its parts is: an item, a row, an entry or a field, and then the parts that are visited before it
are accepted. Each kind of visit has one statement, true in both directions.
-/

namespace TypedModel

/-- Maps, and frames as the maps of their rows. -/
def Value.isMapping : Value → Bool
  | .map _ | .frame _ => true
  | _ => false

namespace TypeHint

/-- Whether a hint accepts a value. -/
def Accepts (h : TypeHint) (v : Value) : Prop := h.validate v = .ok ()

/-- Whether the value as such does not suit the hint. An optional hint is no place for a clash, and
at another union no member accepts the value. -/
def Clashes : TypeHint → Value → Prop
  | .any, _ | .frame, _ | .foreign _, _ => False
  | .none, v => v ≠ .null
  | .scalar kind, v => kind.admits v = false ∧ ¬ (kind = .float ∧ ∃ n, v = .long n)
  | .union members, v => optionalMember? members = Option.none ∧ ∀ m ∈ members, ¬ m.Accepts v
  | .list _, v => v.listed? = Option.none
  | .dict _ _, v => v.isMapping = false
  | .record d, v => v.isMapping = false ∧ ∀ r, v = .record r → r.name ≠ d.name

/-- Hints under which a frame is read row by row. -/
def readsRows : TypeHint → Bool
  | .dict _ _ | .record _ => true
  | _ => false

end TypeHint

/-- Whether a field can be built from entries: its value is accepted, or it is not given and has a
default. -/
def FieldSpec.AcceptedIn (f : FieldSpec) (entries : Entries Value) : Prop :=
  match entries.get? f.name with
  | some given => f.hint.Accepts given
  | none => f.default?.isSome = true

namespace Coercion

open Sequence TypeHint

/-- A hint accepts what its visits accept, wherever the value lies. -/
theorem exists_visit_iff {h : TypeHint} {path : Path} {v : Value} :
    (∃ c, visit h path v = .ok c) ↔ h.Accepts v := by
  rw [Accepts, validate_eq_ok_iff, ← outcome_visit h path v]
  cases visit h path v <;> simp [outcome, Except.map, Except.toOption]

/-! ## Scalars and unions -/

/-- A scalar hint rejects what is of another kind. -/
theorem visitScalar_eq_error_iff {kind : ScalarKind} {path : Path} {v : Value} {r : Rejection} :
    visitScalar kind path v = .error r ↔
      r = .clash path (.scalar kind) v ∧ (TypeHint.scalar kind).Clashes v := by
  cases kind <;> cases v <;> simp [visitScalar, Clashes, ScalarKind.admits, eq_comm]

/-- No outcome is accepted where none of them is. -/
theorem firstAccepted?_eq_none_iff {outcomes : List (Except Rejection Coercion)} :
    firstAccepted? outcomes = Option.none ↔ ∀ x ∈ outcomes, ¬ ∃ c, x = .ok c := by
  induction outcomes with
  | nil => simp [firstAccepted?]
  | cons x rest ih => cases x <;> simp [firstAccepted?, ih]

/-- Under an optional hint null passes, and any other value is left to the hint that is made
optional. -/
theorem visitUnion_of_optional {members : List TypeHint} {inner : TypeHint}
    (hinner : optionalMember? members = some inner) (path : Path) (v : Value) :
    visitUnion members (members.map fun m => visit m path v) path v =
      if v.isNull then .ok .passThrough else visit inner path v := by
  have hmissing : TypeHint.none.isNone = true := rfl
  have hinnerNone : inner.isNone = false := by
    cases hn : inner.isNone with
    | false => rfl
    | true => rcases eq_pair_of_optionalMember hinner with rfl | rfl <;> simp_all [optionalMember?]
  rcases eq_pair_of_optionalMember hinner with rfl | rfl <;>
    simp [visitUnion, hmissing, hinnerNone]

/-- Under another union the first member that accepts decides. -/
theorem visitUnion_of_not_optional {members : List TypeHint}
    (hunion : optionalMember? members = Option.none) (path : Path) (v : Value) :
    visitUnion members (members.map fun m => visit m path v) path v =
      (firstAccepted? (members.map fun m => visit m path v)).elim
        (.error (.clash path (.union members) v)) .ok := by
  match members with
  | [] | [_] | _ :: _ :: _ :: _ =>
    unfold visitUnion
    dsimp only
    cases firstAccepted? _ <;> rfl
  | [a, b] =>
    unfold visitUnion
    cases ha : a.isNone <;> cases hb : b.isNone <;>
      cases firstAccepted? ([a, b].map fun m => visit m path v) <;> simp_all [optionalMember?]

/-- A union that is not optional rejects a value that no member accepts. -/
theorem visitUnion_eq_error_iff {members : List TypeHint} {path : Path} {v : Value} {r : Rejection}
    (hunion : optionalMember? members = Option.none) :
    visitUnion members (members.map fun m => visit m path v) path v = .error r ↔
      r = .clash path (.union members) v ∧ (TypeHint.union members).Clashes v := by
  have hnone : firstAccepted? (members.map fun m => visit m path v) = Option.none ↔
      ∀ m ∈ members, ¬ m.Accepts v := by
    simp only [firstAccepted?_eq_none_iff, List.forall_mem_map, exists_visit_iff]
  rw [visitUnion_of_not_optional hunion, Clashes, ← hnone]
  cases firstAccepted? (members.map fun m => visit m path v) <;> simp [hunion, eq_comm]

/-! ## Parts -/

/-- Items of a list, or of a frame read as one, are rejected as the first one that is. -/
theorem visit_list_eq_error_iff {element : TypeHint} {path : Path} {v : Value} {items : List Value}
    {r : Rejection} (hitems : v.listed? = some items) :
    visit (.list element) path v = .error r ↔
      ∃ before item after, items = before ++ item :: after ∧ (∀ x ∈ before, element.Accepts x) ∧
        visit element (path ++ [.index before.length]) item = .error r := by
  have hrun : visit (.list element) path v = .error r ↔
      visitItems (visit element) path items = .error r := by
    cases v with
    | list _ | frame _ =>
      cases hitems
      first | exact Iff.rfl | exact bind_ok_eq_error_iff
    | _ => cases hitems
  rw [hrun, visitItems_eq_ofParts, map_eq_error_iff, mapM_zipIdx_eq_error_iff]
  simp only [exists_visit_iff, forall_mem_zipIdx_iff]

/-- Entries are rejected as that of the smallest name whose value is. -/
theorem visitEntries_eq_error_iff {element : TypeHint} {path : Path} {entries : Entries Value}
    {r : Rejection} (hsorted : Entries.IsSorted entries) :
    visitEntries (visit element) path entries = .error r ↔
      ∃ name value, (name, value) ∈ entries ∧
        (∀ e ∈ entries, e.1 < name → element.Accepts e.2) ∧
        visit element (path ++ [.name name]) value = .error r := by
  rw [visitEntries, bind_ok_eq_error_iff, mapM_eq_error_iff]
  simp only [exists_visit_iff]
  constructor
  · rintro ⟨before, ⟨name, value⟩, after, rfl, hbefore, hvalue⟩
    refine ⟨name, value, by simp, fun e he hless => ?_, hvalue⟩
    exact hbefore e (Entries.mem_of_lt hsorted he hless)
  · rintro ⟨name, value, hmem, hbefore, hvalue⟩
    obtain ⟨before, after, rfl⟩ := List.append_of_mem hmem
    refine ⟨before, (name, value), after, rfl, fun e he => ?_, hvalue⟩
    have hless : e.1 < name := (List.pairwise_append.mp hsorted).2.2 e he _ List.mem_cons_self
    exact hbefore e (List.mem_append_left _ he) hless

/-- Rows of a frame are rejected as the first one whose map is. -/
theorem visit_frame_eq_error_iff {h : TypeHint} {path : Path} {f : Frame} {r : Rejection}
    (hreads : h.readsRows = true) :
    visit h path (.frame f) = .error r ↔
      ∃ before row after, f.rows = before ++ row :: after ∧
        (∀ x ∈ before, h.Accepts (.map (f.rowEntries x))) ∧
        visit h (path ++ [.index before.length]) (.map (f.rowEntries row)) = .error r := by
  have hrun : visit h path (.frame f) =
      visitRows (fun path entries => visit h path (.map entries)) path f := by
    cases h with
    | dict _ _ => rfl
    | record d =>
      cases d
      rfl
    | _ => cases hreads
  have haccepted (path : Path) (v : Value) :
      (∃ w, (visit h path v >>= fun c => .ok (c.apply v)) = .ok w) ↔ h.Accepts v := by
    rw [← @exists_visit_iff h path v]
    simp [bind_eq_ok_iff]
  have hrows (rows : List (List Value)) :
      (∀ p ∈ rows.zipIdx, h.Accepts (.map (f.rowEntries p.1))) ↔
        ∀ row ∈ rows, h.Accepts (.map (f.rowEntries row)) :=
    @forall_mem_zipIdx_iff _ (fun row => h.Accepts (.map (f.rowEntries row))) rows 0
  rw [hrun, visitRows, bind_ok_eq_error_iff, mapM_zipIdx_eq_error_iff]
  simp only [pure, Except.pure, haccepted, bind_ok_eq_error_iff, hrows]

/-- A field of a record built from a map. -/
def visitField (path : Path) (entries : Entries Value) (f : FieldSpec) :
    Except Rejection (String × Value) :=
  match entries.get? f.name, f.default? with
  | some given, _ =>
    (visit f.hint (path ++ [.name f.name]) given).map fun c => (f.name, c.apply given)
  | Option.none, some default => .ok (f.name, default)
  | Option.none, Option.none => .error (.missing (path ++ [.name f.name]))

/-- The fields of a record are built one by one. -/
theorem visitFields_eq_mapM (fields : List FieldSpec) (path : Path) (entries : Entries Value) :
    visitFields fields path entries = fields.mapM (visitField path entries) := by
  induction fields with
  | nil => rfl
  | cons f rest ih =>
    obtain ⟨name, hint, default?⟩ := f
    rw [List.mapM_cons, ← ih]
    cases hg : entries.get? name with
    | some given =>
      simp only [visitFields, visitField, hg]
      cases visit hint (path ++ [.name name]) given <;> rfl
    | none =>
      simp only [visitFields, visitField, hg]
      cases default? <;> rfl

/-- A field can be built where its value is accepted or has a default. -/
theorem exists_visitField_iff {path : Path} {entries : Entries Value} {f : FieldSpec} :
    (∃ value, visitField path entries f = .ok value) ↔ f.AcceptedIn entries := by
  unfold visitField FieldSpec.AcceptedIn
  cases entries.get? f.name with
  | some given =>
    dsimp only
    rw [← @exists_visit_iff f.hint (path ++ [.name f.name]) given]
    simp [map_eq_ok_iff]
  | none => cases f.default? <;> simp

/-- A field cannot be built where its value is rejected, or it is required and not given. -/
theorem visitField_eq_error_iff {path : Path} {entries : Entries Value} {f : FieldSpec}
    {r : Rejection} :
    visitField path entries f = .error r ↔
      (∃ given, entries.get? f.name = some given ∧
          visit f.hint (path ++ [.name f.name]) given = .error r) ∨
        entries.get? f.name = Option.none ∧ f.default? = Option.none ∧
           r = .missing (path ++ [.name f.name]) := by
  unfold visitField
  cases entries.get? f.name with
  | some given => simp [map_eq_error_iff]
  | none => cases f.default? <;> simp [eq_comm]

/-- Fields are rejected as the first one that cannot be built. -/
theorem visitFields_eq_error_iff {fields : List FieldSpec} {path : Path} {entries : Entries Value}
    {r : Rejection} :
    visitFields fields path entries = .error r ↔
      ∃ before f after, fields = before ++ f :: after ∧ (∀ x ∈ before, x.AcceptedIn entries) ∧
        ((∃ given, entries.get? f.name = some given ∧
            visit f.hint (path ++ [.name f.name]) given = .error r) ∨
          entries.get? f.name = Option.none ∧ f.default? = Option.none ∧
            r = .missing (path ++ [.name f.name])) := by
  simp only [visitFields_eq_mapM, mapM_eq_error_iff, exists_visitField_iff, visitField_eq_error_iff]

end Coercion
end TypedModel
