import TypedModel.Value.Basic

/-!
# Values that compare as the same

Comparison of values is symmetric and transitive. It is not reflexive, since NaN differs from
itself, and it is coarser than equality, since the two zeros agree.
-/

namespace TypedModel

/-- Numeric comparison is transitive: NaN is never compared, and zeros differ in their sign only. -/
theorem Double.ieeeEq_trans : ∀ {x y z : Double}, x.ieeeEq y = true → y.ieeeEq z = true →
    x.ieeeEq z = true
  | .infinite _, .infinite _, .infinite _, h, h' => BEq.trans h h'
  | .finite s a, .finite t b, .finite u c, h, h' => by
    simp only [ieeeEq, Bool.and_eq_true, Bool.or_eq_true, beq_iff_eq] at h h' ⊢
    obtain ⟨rfl, hst⟩ := h
    obtain ⟨rfl, htu⟩ := h'
    refine ⟨rfl, ?_⟩
    rcases hst with rfl | hzero
    · exact htu
    · exact .inr hzero

namespace Value

mutual

/-- Comparison is symmetric. -/
theorem sameAs_symm : ∀ {a b : Value}, a.sameAs b = true → b.sameAs a = true
  | .null, .null, h => h
  | .bool _, .bool _, h | .long _, .long _, h | .str _, .str _, h | .bytes _, .bytes _, h =>
    BEq.symm h
  | .datetime _, .datetime _, h => decide_eq_true (of_decide_eq_true h).symm
  | .double x, .double y, h => (Double.ieeeEq_comm y x).trans h
  | .list as, .list bs, h => @itemsSameAs_symm as bs h
  | .map as, .map bs, h => @entriesSameAs_symm as bs h
  | .record ⟨m, as⟩, .record ⟨n, bs⟩, h => by
    rw [sameAs, Bool.and_eq_true] at h ⊢
    exact ⟨BEq.symm h.1, entriesSameAs_symm h.2⟩
  | .frame ⟨m, as⟩, .frame ⟨n, bs⟩, h => by
    rw [sameAs, Bool.and_eq_true] at h ⊢
    exact ⟨BEq.symm h.1, rowsSameAs_symm h.2⟩

/-- Comparison of lists is symmetric. -/
theorem itemsSameAs_symm : ∀ {as bs : List Value}, itemsSameAs as bs = true →
    itemsSameAs bs as = true
  | [], [], h => h
  | a :: as, b :: bs, h => by
    rw [itemsSameAs, Bool.and_eq_true] at h ⊢
    exact ⟨sameAs_symm h.1, itemsSameAs_symm h.2⟩

/-- Comparison of named values is symmetric. -/
theorem entriesSameAs_symm : ∀ {as bs : List (String × Value)}, entriesSameAs as bs = true →
    entriesSameAs bs as = true
  | [], [], h => h
  | (m, a) :: as, (n, b) :: bs, h => by
    rw [entriesSameAs, Bool.and_eq_true, Bool.and_eq_true] at h ⊢
    exact ⟨⟨BEq.symm h.1.1, sameAs_symm h.1.2⟩, entriesSameAs_symm h.2⟩

/-- Comparison of rows is symmetric. -/
theorem rowsSameAs_symm : ∀ {as bs : List (List Value)}, rowsSameAs as bs = true →
    rowsSameAs bs as = true
  | [], [], h => h
  | a :: as, b :: bs, h => by
    rw [rowsSameAs, Bool.and_eq_true] at h ⊢
    exact ⟨itemsSameAs_symm h.1, rowsSameAs_symm h.2⟩

end

mutual

/-- Comparison is transitive. -/
theorem sameAs_trans : ∀ {a b : Value}, a.sameAs b = true → ∀ {c}, b.sameAs c = true →
    a.sameAs c = true
  | .null, .null, _, _, h => h
  | .bool _, .bool _, h, .bool _, h' | .long _, .long _, h, .long _, h' |
    .str _, .str _, h, .str _, h' | .bytes _, .bytes _, h, .bytes _, h' => BEq.trans h h'
  | .datetime _, .datetime _, h, .datetime _, h' =>
    decide_eq_true ((of_decide_eq_true h).trans (of_decide_eq_true h'))
  | .double _, .double _, h, .double _, h' => Double.ieeeEq_trans h h'
  | .list as, .list bs, h, .list cs, h' => @itemsSameAs_trans as bs h cs h'
  | .map as, .map bs, h, .map cs, h' => @entriesSameAs_trans as bs h cs h'
  | .record ⟨m, as⟩, .record ⟨n, bs⟩, h, .record ⟨o, cs⟩, h' => by
    rw [sameAs, Bool.and_eq_true] at h h' ⊢
    exact ⟨BEq.trans h.1 h'.1, entriesSameAs_trans h.2 h'.2⟩
  | .frame ⟨m, as⟩, .frame ⟨n, bs⟩, h, .frame ⟨o, cs⟩, h' => by
    rw [sameAs, Bool.and_eq_true] at h h' ⊢
    exact ⟨BEq.trans h.1 h'.1, rowsSameAs_trans h.2 h'.2⟩

/-- Comparison of lists is transitive. -/
theorem itemsSameAs_trans : ∀ {as bs : List Value}, itemsSameAs as bs = true →
    ∀ {cs}, itemsSameAs bs cs = true → itemsSameAs as cs = true
  | [], [], _, _, h => h
  | a :: as, b :: bs, h, c :: cs, h' => by
    rw [itemsSameAs, Bool.and_eq_true] at h h' ⊢
    exact ⟨sameAs_trans h.1 h'.1, itemsSameAs_trans h.2 h'.2⟩

/-- Comparison of named values is transitive. -/
theorem entriesSameAs_trans : ∀ {as bs : List (String × Value)}, entriesSameAs as bs = true →
    ∀ {cs}, entriesSameAs bs cs = true → entriesSameAs as cs = true
  | [], [], _, _, h => h
  | (m, a) :: as, (n, b) :: bs, h, (o, c) :: cs, h' => by
    rw [entriesSameAs, Bool.and_eq_true, Bool.and_eq_true] at h h' ⊢
    exact ⟨⟨BEq.trans h.1.1 h'.1.1, sameAs_trans h.1.2 h'.1.2⟩, entriesSameAs_trans h.2 h'.2⟩

/-- Comparison of rows is transitive. -/
theorem rowsSameAs_trans : ∀ {as bs : List (List Value)}, rowsSameAs as bs = true →
    ∀ {cs}, rowsSameAs bs cs = true → rowsSameAs as cs = true
  | [], [], _, _, h => h
  | a :: as, b :: bs, h, c :: cs, h' => by
    rw [rowsSameAs, Bool.and_eq_true] at h h' ⊢
    exact ⟨itemsSameAs_trans h.1 h'.1, rowsSameAs_trans h.2 h'.2⟩

end

end Value

end TypedModel
