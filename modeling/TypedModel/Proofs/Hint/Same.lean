import TypedModel.Hint.Basic
import TypedModel.Proofs.Value.Same

/-!
# Hints that compare as the same

Comparison of hints is symmetric and transitive. A record with a default of NaN is not the same as
itself, and neither is any hint with such a record in it.
-/

namespace TypedModel.TypeHint

/-- Comparison of defaults is symmetric. -/
theorem sameDefault_symm : ∀ {a b : Option Value}, sameDefault a b = true → sameDefault b a = true
  | some _, some _, h => Value.sameAs_symm h
  | Option.none, Option.none, h => h

/-- Comparison of defaults is transitive. -/
theorem sameDefault_trans : ∀ {a b : Option Value}, sameDefault a b = true →
    ∀ {c}, sameDefault b c = true → sameDefault a c = true
  | some _, some _, h, some _, h' => Value.sameAs_trans h h'
  | Option.none, Option.none, _, _, h => h

mutual

/-- Comparison is symmetric. -/
theorem sameAs_symm : ∀ {a b : TypeHint}, a.sameAs b = true → b.sameAs a = true
  | .scalar _, .scalar _, h => decide_eq_true (of_decide_eq_true h).symm
  | .none, .none, h | .any, .any, h | .frame, .frame, h => h
  | .list a, .list b, h => @sameAs_symm a b h
  | .dict k a, .dict l b, h => by
    rw [sameAs, Bool.and_eq_true] at h ⊢
    exact ⟨sameAs_symm h.1, sameAs_symm h.2⟩
  | .union as, .union bs, h => @membersSameAs_symm as bs h
  | .record ⟨m, as⟩, .record ⟨n, bs⟩, h => by
    rw [sameAs, Bool.and_eq_true] at h ⊢
    exact ⟨BEq.symm h.1, fieldsSameAs_symm h.2⟩
  | .foreign _, .foreign _, h => BEq.symm h

/-- Comparison of members is symmetric. -/
theorem membersSameAs_symm : ∀ {as bs : List TypeHint}, membersSameAs as bs = true →
    membersSameAs bs as = true
  | [], [], h => h
  | a :: as, b :: bs, h => by
    rw [membersSameAs, Bool.and_eq_true] at h ⊢
    exact ⟨sameAs_symm h.1, membersSameAs_symm h.2⟩

/-- Comparison of fields is symmetric. -/
theorem fieldsSameAs_symm : ∀ {as bs : List FieldSpec}, fieldsSameAs as bs = true →
    fieldsSameAs bs as = true
  | [], [], h => h
  | ⟨m, a, d⟩ :: as, ⟨n, b, e⟩ :: bs, h => by
    simp only [fieldsSameAs, Bool.and_eq_true] at h ⊢
    obtain ⟨⟨⟨hname, hhint⟩, hdefault⟩, hrest⟩ := h
    exact ⟨⟨⟨BEq.symm hname, sameAs_symm hhint⟩, sameDefault_symm hdefault⟩,
      fieldsSameAs_symm hrest⟩

end

mutual

/-- Comparison is transitive. -/
theorem sameAs_trans : ∀ {a b : TypeHint}, a.sameAs b = true → ∀ {c}, b.sameAs c = true →
    a.sameAs c = true
  | .scalar _, .scalar _, h, .scalar _, h' =>
    decide_eq_true ((of_decide_eq_true h).trans (of_decide_eq_true h'))
  | .none, .none, _, _, h | .any, .any, _, _, h | .frame, .frame, _, _, h => h
  | .list a, .list b, h, .list c, h' => @sameAs_trans a b h c h'
  | .dict k a, .dict l b, h, .dict m c, h' => by
    rw [sameAs, Bool.and_eq_true] at h h' ⊢
    exact ⟨sameAs_trans h.1 h'.1, sameAs_trans h.2 h'.2⟩
  | .union as, .union bs, h, .union cs, h' => @membersSameAs_trans as bs h cs h'
  | .record ⟨m, as⟩, .record ⟨n, bs⟩, h, .record ⟨o, cs⟩, h' => by
    rw [sameAs, Bool.and_eq_true] at h h' ⊢
    exact ⟨BEq.trans h.1 h'.1, fieldsSameAs_trans h.2 h'.2⟩
  | .foreign _, .foreign _, h, .foreign _, h' => BEq.trans h h'

/-- Comparison of members is transitive. -/
theorem membersSameAs_trans : ∀ {as bs : List TypeHint}, membersSameAs as bs = true →
    ∀ {cs}, membersSameAs bs cs = true → membersSameAs as cs = true
  | [], [], _, _, h => h
  | a :: as, b :: bs, h, c :: cs, h' => by
    rw [membersSameAs, Bool.and_eq_true] at h h' ⊢
    exact ⟨sameAs_trans h.1 h'.1, membersSameAs_trans h.2 h'.2⟩

/-- Comparison of fields is transitive. -/
theorem fieldsSameAs_trans : ∀ {as bs : List FieldSpec}, fieldsSameAs as bs = true →
    ∀ {cs}, fieldsSameAs bs cs = true → fieldsSameAs as cs = true
  | [], [], _, _, h => h
  | ⟨m, a, d⟩ :: as, ⟨n, b, e⟩ :: bs, h, ⟨o, c, f⟩ :: cs, h' => by
    simp only [fieldsSameAs, Bool.and_eq_true] at h h' ⊢
    obtain ⟨⟨⟨hname, hhint⟩, hdefault⟩, hrest⟩ := h
    obtain ⟨⟨⟨hname', hhint'⟩, hdefault'⟩, hrest'⟩ := h'
    exact ⟨⟨⟨BEq.trans hname hname', sameAs_trans hhint hhint'⟩,
      sameDefault_trans hdefault hdefault'⟩, fieldsSameAs_trans hrest hrest'⟩

end

end TypedModel.TypeHint
