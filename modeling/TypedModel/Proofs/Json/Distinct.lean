import TypedModel.Proofs.Json.Scan

/-!
# Distinct documents are written differently

The tokens of a tree end where the tree ends, so tokens have one reading as a tree and one rest
behind it, however deep the tree is. As a written document has the tokens of its tree, distinct
trees have distinct texts.
-/

namespace TypedModel.Json

/-- The tokens of a tree do not begin with the end of an array. -/
theorem exists_cons_of_toTokens (j : Json) :
    ∃ t rest, j.toTokens = t :: rest ∧ t ≠ .closeArray := by
  cases j <;> exact ⟨_, _, rfl, nofun⟩

/-- A tree is read from the front of tokens in one way. -/
def HasOneReading (j : Json) : Prop :=
  ∀ (k : Json) (r s : List Token), j.toTokens ++ r = k.toTokens ++ s → j = k ∧ r = s

/-! ## Entries of a container -/

section Entries

variable {α : Type} {f : α → List Token} {close : Token}

/-- The first entry, and what is behind it: nothing, or a comma and the others. -/
theorem joinTokens_cons (entry : List Token) (rest : List (List Token)) :
    joinTokens (entry :: rest) =
      entry ++ if rest.isEmpty then [] else .comma :: joinTokens rest := by
  cases rest with
  | nil => exact (List.append_nil entry).symm
  | cons next rest => rfl

/-- Entries up to the end of their container are read in one way if each of them is, and none
begins like the end. -/
theorem joinTokens_inj (hclose : close ≠ .comma)
    (hbegins : ∀ a, ∃ t rest, f a = t :: rest ∧ t ≠ close) {as bs : List α} {r s : List Token}
    (has : ∀ a ∈ as, ∀ b r s, f a ++ r = f b ++ s → a = b ∧ r = s)
    (h : joinTokens (as.map f) ++ close :: r = joinTokens (bs.map f) ++ close :: s) :
    as = bs ∧ r = s := by
  have hempty (a : α) (later r s : List Token) : f a ++ later ++ r ≠ close :: s := by
    obtain ⟨t, rest, hf, ht⟩ := hbegins a
    rw [hf]
    exact fun h => ht (List.cons.inj h).1
  induction as generalizing bs with
  | nil =>
    cases bs with
    | nil => exact ⟨rfl, (List.cons.inj h).2⟩
    | cons b bs =>
      rw [List.map_cons, joinTokens_cons] at h
      exact absurd h.symm (hempty b _ _ _)
  | cons a as ih =>
    cases bs with
    | nil =>
      rw [List.map_cons, joinTokens_cons] at h
      exact absurd h (hempty a _ _ _)
    | cons b bs =>
      rw [List.map_cons, List.map_cons, joinTokens_cons, joinTokens_cons, List.append_assoc,
        List.append_assoc] at h
      obtain ⟨rfl, hrest⟩ := has a List.mem_cons_self b _ _ h
      -- behind the first entry both lists end, or both go on behind a comma
      cases as with
      | nil =>
        cases bs with
        | nil => exact ⟨rfl, (List.cons.inj hrest).2⟩
        | cons b' bs => exact absurd (List.cons.inj hrest).1 hclose
      | cons a' as =>
        cases bs with
        | nil => exact absurd (List.cons.inj hrest).1 hclose.symm
        | cons b' bs =>
          obtain ⟨he, hr⟩ :=
            ih (fun a ha => has a (List.mem_cons_of_mem _ ha)) (List.cons.inj hrest).2
          exact ⟨congrArg _ he, hr⟩

end Entries

/-- The tokens of items, one by one. -/
theorem itemsToTokens_eq_map (items : List Json) : itemsToTokens items = items.map toTokens := by
  induction items with
  | nil => rfl
  | cons item rest ih => rw [itemsToTokens, ih, List.map_cons]

/-- The tokens of a field: its name, a colon and its value. -/
def fieldTokens (f : String × Json) : List Token := .text (some f.1) :: .colon :: f.2.toTokens

/-- The tokens of fields, one by one. -/
theorem fieldsToTokens_eq_map (fields : List (String × Json)) :
    fieldsToTokens fields = fields.map fieldTokens := by
  induction fields with
  | nil => rfl
  | cons f rest ih => rw [fieldsToTokens, ih, List.map_cons]; rfl

/-- The items of an array are read in one way if each of them is. -/
theorem hasOneReading_array {items : List Json} (h : ∀ item ∈ items, item.HasOneReading) :
    (Json.array items).HasOneReading := by
  intro k r s hk
  cases k with
  | array others =>
    simp only [toTokens, itemsToTokens_eq_map, List.cons_append, List.append_assoc,
      List.nil_append, List.cons.injEq, true_and] at hk
    have hclose : Token.closeArray ≠ .comma := nofun
    obtain ⟨rfl, rfl⟩ := joinTokens_inj hclose exists_cons_of_toTokens h hk
    exact ⟨rfl, rfl⟩
  | _ => simp [toTokens] at hk

/-- The fields of an object are read in one way if each of their values is. -/
theorem hasOneReading_object {fields : List (String × Json)}
    (h : ∀ f ∈ fields, f.2.HasOneReading) : (Json.object fields).HasOneReading := by
  intro k r s hk
  cases k with
  | object others =>
    simp only [toTokens, fieldsToTokens_eq_map, List.cons_append, List.append_assoc,
      List.nil_append, List.cons.injEq, true_and] at hk
    have hclose : Token.closeObject ≠ .comma := nofun
    have hbegins (f : String × Json) :
        ∃ t rest, fieldTokens f = t :: rest ∧ t ≠ .closeObject := ⟨_, _, rfl, nofun⟩
    have hfield : ∀ f ∈ fields, ∀ g r s, fieldTokens f ++ r = fieldTokens g ++ s →
        f = g ∧ r = s := by
      intro f hf g r s hg
      simp only [fieldTokens, List.cons_append, List.cons.injEq, Token.text.injEq,
        Option.some.injEq, true_and] at hg
      obtain ⟨hvalue, hrest⟩ := h f hf g.2 r s hg.2
      exact ⟨Prod.ext hg.1 hvalue, hrest⟩
    obtain ⟨rfl, rfl⟩ := joinTokens_inj hclose hbegins hfield hk
    exact ⟨rfl, rfl⟩
  | _ => simp [toTokens] at hk

mutual

/-- Tokens have one reading as a tree. -/
theorem hasOneReading : ∀ j : Json, j.HasOneReading
  | .null | .bool _ | .number _ | .string _ | .flawed _ => by
    intro k r s h
    cases k <;> simp_all [toTokens]
  | .array items => hasOneReading_array (itemsHaveOneReading items)
  | .object fields => hasOneReading_object (fieldsHaveOneReading fields)

/-- Tokens have one reading as an item. -/
theorem itemsHaveOneReading : ∀ items : List Json, ∀ item ∈ items, item.HasOneReading
  | first :: rest, item, hitem => by
    rcases List.mem_cons.mp hitem with he | hrest
    · rw [he]
      exact hasOneReading first
    · exact itemsHaveOneReading rest item hrest

/-- Tokens have one reading as the value of a field. -/
theorem fieldsHaveOneReading : ∀ fields : List (String × Json), ∀ f ∈ fields, f.2.HasOneReading
  | (name, value) :: rest, f, hf => by
    rcases List.mem_cons.mp hf with he | hrest
    · rw [he]
      exact hasOneReading value
    · exact fieldsHaveOneReading rest f hrest

end

/-- Distinct writable documents have distinct texts, at any depth. -/
theorem toText_inj {j k : Json} (hj : j.isWritable = true) (hk : k.isWritable = true) :
    j.toText = k.toText ↔ j = k := by
  constructor
  · intro h
    have htokens : j.toTokens = k.toTokens := by rw [← tokens_toText hj, ← tokens_toText hk, h]
    exact (hasOneReading j k [] [] (congrArg (· ++ []) htokens)).1
  · exact congrArg toText

end TypedModel.Json
