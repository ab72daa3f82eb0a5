import TypedModel.ModelId
import TypedModel.Proofs.Text.Hex

/-!
# Identifiers read back

The written form of an identifier and its address both lead back to it.
-/

namespace TypedModel

namespace ModelId

/-- Groups take a hyphen between any two of them. -/
theorem length_group {n : Nat} {rest : List Nat} {digits : List Char}
    (h : (n :: rest).sum = digits.length) :
    (group (n :: rest) digits).length = digits.length + rest.length := by
  induction rest generalizing n digits with
  | nil => rfl
  | cons m rest ih =>
    rw [List.sum_cons] at h
    have htail := @ih m (digits.drop n) (by rw [List.length_drop]; omega)
    rw [List.length_drop] at htail
    rw [group, List.length_append, List.length_cons, htail, List.length_take, List.length_cons]
    · omega
    · simp

/-- Groups of digits are read back. -/
theorem ungroup?_group {n : Nat} {rest : List Nat} {digits : List Char}
    (h : (n :: rest).sum = digits.length) :
    ungroup? (n :: rest) (group (n :: rest) digits) = some digits := by
  induction rest generalizing n digits with
  | nil =>
    rw [List.sum_cons, List.sum_nil, Nat.add_zero] at h
    rw [group, ungroup?, if_pos h.symm]
  | cons m rest ih =>
    rw [List.sum_cons] at h
    have htail := @ih m (digits.drop n) (by rw [List.length_drop]; omega)
    have hlength : (digits.take n).length = n := by
      rw [List.length_take]
      omega
    have hdrop : (digits.take n ++ '-' :: group (m :: rest) (digits.drop n)).drop n =
        '-' :: group (m :: rest) (digits.drop n) := List.drop_left' hlength
    have htake : (digits.take n ++ '-' :: group (m :: rest) (digits.drop n)).take n =
        digits.take n := List.take_left' hlength
    rw [group, ungroup?, hdrop, htake]
    · simp only [htail, Option.map_some, List.take_append_drop]
    · simp
    · simp

/-- The digits of an identifier are read back. -/
theorem ofDigits?_digits (id : ModelId) : ofDigits? id.digits = some id := by
  have hlt := id.code.isLt
  have hvalue : id.code.val % 16 ^ 32 = id.code.val := Nat.mod_eq_of_lt (by omega)
  rw [ofDigits?, digits, if_pos (Text.hexDigits_length 32 _), Text.hexNumber?_hexDigits, hvalue]
  simp only [Option.bind_some, dif_pos hlt]

/-- The written form of an identifier has 36 characters. -/
theorem length_group_digits (id : ModelId) : (group groups id.digits).length = 36 := by
  have hdigits : id.digits.length = 32 := Text.hexDigits_length 32 _
  have hgroups : groups.sum = id.digits.length := hdigits.symm
  rw [groups, length_group hgroups, hdigits]
  rfl

/-- The written form of an identifier is read back. -/
theorem parse?_render (id : ModelId) : parse? id.render = some id := by
  have hgroups : groups.sum = id.digits.length := (Text.hexDigits_length 32 _).symm
  have hread : ofGroups? (group groups id.digits) = some id := by
    rw [ofGroups?, groups, ungroup?_group hgroups, Option.bind_some, ofDigits?_digits]
  unfold parse? render
  rw [String.toList_ofList]
  simp only [length_group_digits]
  rw [if_neg (by decide), if_pos trivial, hread]

/-- Identifiers are told apart by their written forms. -/
theorem render_inj {a b : ModelId} : a.render = b.render ↔ a = b := by
  constructor
  · intro h
    have hread := parse?_render a
    rw [h, parse?_render, Option.some.injEq] at hread
    exact hread.symm
  · exact congrArg render

/-- Grouped characters are hyphens and digits. -/
theorem mem_of_mem_group {gs : List Nat} {digits : List Char} {c : Char}
    (h : c ∈ group gs digits) : c = '-' ∨ c ∈ digits := by
  induction gs, digits using group.induct with
  | case1 => cases h
  | case2 digits n => exact Or.inr h
  | case3 digits n rest hne ih =>
    rw [group, List.mem_append, List.mem_cons] at h
    · rcases h with h | h | h
      · exact Or.inr (List.mem_of_mem_take h)
      · exact Or.inl h
      · exact (ih h).imp_right List.mem_of_mem_drop
    · exact hne

/-- Nothing but hyphens and digits stands in the written form of an identifier. -/
theorem notMem_render (id : ModelId) {c : Char} (hhyphen : c ≠ '-')
    (hdigit : Text.hexValue? c = none) : c ∉ group groups id.digits := by
  intro h
  rcases mem_of_mem_group h with h | h
  · exact hhyphen h
  · exact Text.notMem_hexDigits hdigit 32 _ h

/-- A text without slashes keeps all its characters. -/
theorem dropSlashes_of_notMem {cs : List Char} (h : '/' ∉ cs) : dropSlashes cs = cs := by
  have hkeep : cs.reverse.dropWhile (· == '/') = cs.reverse := by
    cases hr : cs.reverse with
    | nil => rfl
    | cons c rest =>
      have hmem : c ∈ cs := List.mem_reverse.mp (by rw [hr]; exact List.mem_cons_self)
      have hne : (c == '/') = false := beq_eq_false_iff_ne.mpr fun he => h (he ▸ hmem)
      rw [List.dropWhile_cons, hne]
      rfl
  rw [dropSlashes, hkeep, List.reverse_reverse]

/-- Characters of an address. -/
theorem toList_uri (id : ModelId) : id.uri.toList = scheme ++ group groups id.digits :=
  String.toList_append.trans (congrArg (scheme ++ ·) String.toList_ofList)

/-- The address of an identifier leads back to it. -/
theorem ofUri?_uri (id : ModelId) : ofUri? id.uri = some id := by
  have hscheme : scheme.isPrefixOf (scheme ++ group groups id.digits) = true :=
    List.isPrefixOf_iff_prefix.mpr (List.prefix_append _ _)
  have hread := parse?_render id
  rw [render] at hread
  unfold ofUri?
  rw [toList_uri]
  simp only [hscheme, if_true, List.drop_left]
  rw [dropSlashes_of_notMem (id.notMem_render (by decide) (by decide)), hread]

end ModelId

end TypedModel
