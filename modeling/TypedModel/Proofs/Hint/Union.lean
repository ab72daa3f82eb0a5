import TypedModel.Hint.Union
import TypedModel.Proofs.Coercion.Idempotent

/-!
# Unions without repetition

Hints that compare as the same accept the same values, though a default may differ in the sign of a
zero. So a member that is left out, since the same one stands in front of it, is never missed: a
union that is built from hints coerces as these hints do one after another.
-/

namespace TypedModel.TypeHint

open Sequence

/-! ## The same hints accept the same values -/

/-- Runs over a list succeed alike where they do so at every item. -/
theorem isSome_mapM_congr {α β : Type} {f g : α → Option β}
    (h : ∀ x, (f x).isSome = (g x).isSome) (xs : List α) :
    (xs.mapM f).isSome = (xs.mapM g).isSome := by
  rw [Bool.eq_iff_iff, isSome_mapM_iff, isSome_mapM_iff]
  simp only [h]

/-- Rows are taken alike where maps are. -/
theorem isSome_plainRows_congr {f g : Entries Value → Option Value}
    (h : ∀ entries, (f entries).isSome = (g entries).isSome) (v : Value) :
    (plainRows f v).isSome = (plainRows g v).isSome := by
  cases v with
  | map entries => exact h entries
  | frame frame =>
    rw [plainRows, plainRows, Option.isSome_map, Option.isSome_map]
    exact isSome_mapM_congr (fun row => h (frame.rowEntries row)) frame.rows
  | _ => rfl

/-- Of two defaults that compare as the same both are given, or none is. -/
theorem isSome_of_sameDefault {a b : Option Value} (h : sameDefault a b = true) :
    a.isSome = b.isSome := by
  cases a <;> cases b <;> first | rfl | cases h

mutual

/-- Hints that compare as the same accept the same values. -/
theorem isSome_plain_of_sameAs : ∀ (a b : TypeHint), a.sameAs b = true →
    ∀ v, (a.plain v).isSome = (b.plain v).isSome
  | .none, b, h, v | .any, b, h, v | .frame, b, h, v | .foreign _, b, h, v => by
    cases b <;> first | rfl | cases h
  | .scalar a, b, h, v => by
    cases b with
    | scalar b => rw [of_decide_eq_true h]
    | _ => cases h
  | .list a, b, h, v => by
    cases b with
    | list b =>
      rw [plain, plain]
      cases v.listed? with
      | none => rfl
      | some items =>
        show ((items.mapM a.plain).map Value.list).isSome =
          ((items.mapM b.plain).map Value.list).isSome
        rw [Option.isSome_map, Option.isSome_map]
        exact isSome_mapM_congr (isSome_plain_of_sameAs a b h) items
    | _ => cases h
  | .dict k a, b, h, v => by
    cases b with
    | dict l b =>
      rw [sameAs, Bool.and_eq_true] at h
      refine isSome_plainRows_congr (fun entries => ?_) v
      rw [Option.isSome_map, Option.isSome_map]
      refine isSome_mapM_congr (fun e => ?_) entries
      rw [Option.isSome_map, Option.isSome_map]
      exact isSome_plain_of_sameAs a b h.2 e.2
    | _ => cases h
  | .union as, b, h, v => by
    cases b with
    | union bs => exact isSome_plainFirst_of_sameAs as bs h v
    | _ => cases h
  | .record ⟨m, as⟩, b, h, v => by
    cases b with
    | record d =>
      obtain ⟨n, bs⟩ := d
      rw [sameAs, Bool.and_eq_true, beq_iff_eq] at h
      obtain ⟨rfl, hfields⟩ := h
      have hmap (entries : Entries Value) :
          ((plainFields as entries).map (Value.record ⟨m, ·⟩)).isSome =
            ((plainFields bs entries).map (Value.record ⟨m, ·⟩)).isSome := by
        rw [Option.isSome_map, Option.isSome_map, isSome_plainFields_of_sameAs as bs hfields]
      have hrows := isSome_plainRows_congr hmap v
      cases v with
      | record r => rfl
      | _ => exact hrows
    | _ => cases h

/-- Members that compare as the same accept the same values. -/
theorem isSome_plainFirst_of_sameAs : ∀ (as bs : List TypeHint), membersSameAs as bs = true →
    ∀ v, (plainFirst as v).isSome = (plainFirst bs v).isSome
  | [], [], _, _ => rfl
  | a :: as, b :: bs, h, v => by
    rw [membersSameAs, Bool.and_eq_true] at h
    rw [isSome_plainFirst_cons, isSome_plainFirst_cons, isSome_plain_of_sameAs a b h.1 v,
      isSome_plainFirst_of_sameAs as bs h.2 v]

/-- Fields that compare as the same can be built from the same entries. -/
theorem isSome_plainFields_of_sameAs : ∀ (as bs : List FieldSpec), fieldsSameAs as bs = true →
    ∀ entries, (plainFields as entries).isSome = (plainFields bs entries).isSome
  | [], [], _, _ => rfl
  | ⟨m, a, d⟩ :: as, ⟨n, b, e⟩ :: bs, h, entries => by
    simp only [fieldsSameAs, Bool.and_eq_true, beq_iff_eq] at h
    obtain ⟨⟨⟨rfl, hhint⟩, hdefault⟩, hrest⟩ := h
    rw [isSome_plainFields_cons, isSome_plainFields_cons,
      isSome_plainFields_of_sameAs as bs hrest entries]
    cases entries.get? m with
    | none => simp only [isSome_of_sameDefault hdefault]
    | some given => simp only [isSome_plain_of_sameAs a b hhint given]

end

/-! ## Unions coerce as their hints -/

/-- Of members in two lists the first one that accepts decides. -/
theorem plainFirst_append (as bs : List TypeHint) (v : Value) :
    plainFirst (as ++ bs) v = (plainFirst as v).or (plainFirst bs v) := by
  induction as with
  | nil => rfl
  | cons a as ih =>
    rw [List.cons_append, plainFirst, plainFirst]
    cases a.plain v with
    | some w => rfl
    | none => exact ih

/-- A single member decides alone. -/
theorem plainFirst_singleton (h : TypeHint) (v : Value) : plainFirst [h] v = h.plain v := by
  rw [plainFirst, plainFirst]
  cases h.plain v <;> rfl

/-- A union accepts what a hint among its members accepts. -/
theorem isSome_plainFirst_of_mem {members : List TypeHint} {h : TypeHint} (hmem : h ∈ members)
    {v : Value} (hv : (h.plain v).isSome = true) : (plainFirst members v).isSome = true := by
  induction members with
  | nil => cases hmem
  | cons first rest ih =>
    rw [isSome_plainFirst_cons, Bool.or_eq_true]
    rcases List.mem_cons.mp hmem with rfl | hmem
    · exact .inl hv
    · exact .inr (ih hmem)

/-- A member that is left out, since the same one stands in front of it, is not missed. -/
theorem plainFirst_addMember (members : List TypeHint) (h : TypeHint) (v : Value) :
    plainFirst (addMember members h) v = plainFirst (members ++ [h]) v := by
  unfold addMember
  split
  next hany =>
    obtain ⟨m, hm, hsame⟩ := List.any_eq_true.mp hany
    rw [plainFirst_append, plainFirst_singleton]
    cases hp : h.plain v with
    | none => rw [Option.or_none]
    | some w =>
      have hmSome : (m.plain v).isSome = true := by
        rw [isSome_plain_of_sameAs m h hsame v, hp]
        rfl
      rw [Option.or_of_isSome (isSome_plainFirst_of_mem hm hmSome)]
  next => rfl

/-- Members added one by one decide as all of them in order. -/
theorem plainFirst_foldl_addMember (hints members : List TypeHint) (v : Value) :
    plainFirst (hints.foldl addMember members) v = plainFirst (members ++ hints) v := by
  induction hints generalizing members with
  | nil => rw [List.foldl_nil, List.append_nil]
  | cons h rest ih =>
    rw [List.foldl_cons, ih, plainFirst_append, plainFirst_addMember, ← plainFirst_append,
      List.append_assoc, List.singleton_append]

/-- What hints contribute to a union decides as the hints do. -/
theorem plainFirst_flatMap_asMembers (hints : List TypeHint) (v : Value) :
    plainFirst (hints.flatMap asMembers) v = plainFirst hints v := by
  induction hints with
  | nil => rfl
  | cons h rest ih =>
    have hfirst : plainFirst h.asMembers v = h.plain v := by
      cases h with
      | union members => rfl
      | _ => exact plainFirst_singleton _ v
    rw [List.flatMap_cons, plainFirst_append, hfirst, ih, ← plainFirst_singleton h,
      ← plainFirst_append, List.singleton_append]

/-- A union that is built from hints coerces as these hints do one after another. -/
theorem plain_unionOf (hints : List TypeHint) (v : Value) :
    (unionOf hints).plain v = plainFirst hints v := by
  have hmembers : plainFirst ((hints.flatMap asMembers).foldl addMember []) v =
      plainFirst hints v := by
    rw [plainFirst_foldl_addMember, List.nil_append, plainFirst_flatMap_asMembers]
  unfold unionOf
  split
  next h heq => rw [← hmembers, heq, plainFirst_singleton]
  next => exact hmembers

/-- The result of a union is that of a member in front of which all others fail. -/
theorem plainFirst_eq_some_iff {members : List TypeHint} {v w : Value} :
    plainFirst members v = some w ↔ ∃ before member after, members = before ++ member :: after ∧
      (∀ g ∈ before, g.plain v = Option.none) ∧ member.plain v = some w := by
  constructor
  · intro h
    induction members with
    | nil => cases h
    | cons first rest ih =>
      rw [plainFirst] at h
      cases hfirst : first.plain v with
      | some x =>
        rw [hfirst] at h
        cases h
        exact ⟨[], first, rest, rfl, List.forall_mem_nil _, hfirst⟩
      | none =>
        rw [hfirst] at h
        obtain ⟨before, member, after, rfl, hbefore, hmember⟩ := ih h
        exact ⟨first :: before, member, after, rfl, List.forall_mem_cons.mpr ⟨hfirst, hbefore⟩,
          hmember⟩
  · rintro ⟨before, member, after, rfl, hbefore, hmember⟩
    exact plainFirst_of_split hbefore hmember

/-- Normalisation keeps the meaning of a union. Hints that are joined to a union without nesting and
without equal members coerce every value as the union of just these hints does: both fail, or both
succeed with the same result, and this is what the first of the hints that accepts the value makes
of it. -/
theorem normalised_union_coerces_alike (hints : List TypeHint) (v : Value) :
    (((∃ e, (unionOf hints).coerce v = .error e) ∧
        ∃ e, (TypeHint.union hints).coerce v = .error e) ∨
      ∃ w, (unionOf hints).coerce v = .ok w ∧ (TypeHint.union hints).coerce v = .ok w) ∧
      ∀ w, (unionOf hints).coerce v = .ok w ↔
        ∃ before member after, hints = before ++ member :: after ∧
          (∀ g ∈ before, ∃ e, g.coerce v = .error e) ∧ member.coerce v = .ok w := by
  have hplain : (unionOf hints).plain v = (TypeHint.union hints).plain v := plain_unionOf hints v
  constructor
  · simp only [exists_coerce_eq_error_iff, coerce_eq_ok_iff, hplain]
    cases (TypeHint.union hints).plain v with
    | none => exact .inl ⟨rfl, rfl⟩
    | some w => exact .inr ⟨w, rfl, rfl⟩
  · intro w
    simp only [exists_coerce_eq_error_iff, coerce_eq_ok_iff, plain_unionOf, plainFirst_eq_some_iff]

/-- A nested none and a member that is repeated: an optional hint is left, which coerces in its own
way. -/
example :
    let members := [TypeHint.union [.none], .scalar .float, .scalar .float]
    unionOf members = .union [.none, .scalar .float] ∧
      (unionOf members).coerce (.long 1) = .ok (.double (.ofInt 1)) ∧
      (TypeHint.union members).coerce (.long 1) = .ok (.double (.ofInt 1)) := ⟨rfl, rfl, rfl⟩

/-- Whether two hints coerce every value alike. -/
def CoercesAlike (g h : TypeHint) : Prop := ∀ v, g.plain v = h.plain v

/-- Hints that coerce alike one by one coerce alike as members. -/
theorem plainFirst_congr {gs hs : List TypeHint} (h : List.Forall₂ CoercesAlike gs hs) (v : Value) :
    plainFirst gs v = plainFirst hs v := by
  induction h with
  | nil => rfl
  | cons hfirst _ ih => rw [plainFirst, plainFirst, hfirst v, ih]

/-- It does not matter on which side of a hint none stands: what takes null leaves it as it is. -/
theorem plainFirst_none_comm (h : TypeHint) (v : Value) :
    plainFirst [.none, h] v = plainFirst [h, .none] v := by
  rw [plainFirst_pair, plainFirst_pair, plain]
  split
  next hnull =>
    obtain rfl := Value.eq_null_of_isNull hnull
    cases hp : h.plain .null with
    | none => rfl
    | some w => rw [plain_null hp]
  next => rw [Option.none_or, Option.or_none]

/-! ## Members -/

/-- An added member is one of those before it or itself. -/
theorem mem_of_mem_addMember {members : List TypeHint} {h m : TypeHint}
    (hm : m ∈ addMember members h) : m ∈ members ∨ m = h := by
  unfold addMember at hm
  split at hm
  · exact .inl hm
  · simpa using hm

/-- Members added one by one are some of them. -/
theorem mem_of_mem_foldl_addMember {hints members : List TypeHint} {m : TypeHint}
    (hm : m ∈ hints.foldl addMember members) : m ∈ members ∨ m ∈ hints := by
  induction hints generalizing members with
  | nil => exact .inl hm
  | cons h rest ih =>
    rcases ih hm with hm | hm
    · rcases mem_of_mem_addMember hm with hm | rfl
      · exact .inl hm
      · exact .inr List.mem_cons_self
    · exact .inr (List.mem_cons_of_mem _ hm)

/-- Where one member is added to none, there is one. -/
theorem foldl_addMember_ne_nil {hints members : List TypeHint} (h : members ++ hints ≠ []) :
    hints.foldl addMember members ≠ [] := by
  induction hints generalizing members with
  | nil => rwa [List.append_nil] at h
  | cons first rest ih =>
    refine ih (List.append_ne_nil_of_left_ne_nil ?_ rest)
    unfold addMember
    split
    next hany =>
      rintro rfl
      cases hany
    next => exact List.append_ne_nil_of_right_ne_nil members (List.cons_ne_nil first [])

end TypedModel.TypeHint
