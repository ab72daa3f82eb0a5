import TypedModel.Json.Decoder
import TypedModel.Proofs.Json.Scan

/-!
# Reading written documents

The tree that a written document reads as is the tree that was written, except that containers
beyond the nesting limit are out of range. So a document comes back as it is exactly when its
containers do not lie deeper in each other than the limit allows.
-/

namespace TypedModel.Json

mutual

/-- How many containers lie in each other. -/
def depth : Json → Nat
  | .array items => itemsDepth items + 1
  | .object fields => fieldsDepth fields + 1
  | _ => 0
termination_by structural j => j

/-- Greatest depth of items. -/
def itemsDepth : List Json → Nat
  | [] => 0
  | item :: rest => max (depth item) (itemsDepth rest)
termination_by structural items => items

/-- Greatest depth of field values. -/
def fieldsDepth : List (String × Json) → Nat
  | [] => 0
  | (_, value) :: rest => max (depth value) (fieldsDepth rest)
termination_by structural fields => fields

end

mutual

/-- The tree as it is read within a number of containers: those beyond the nesting limit are out
of range. -/
def cut (outer : Nat) : Json → Json
  | .array items =>
    if outer < nestingLimit then .array (cutItems (outer + 1) items) else .flawed .outOfRange
  | .object fields =>
    if outer < nestingLimit then .object (cutFields (outer + 1) fields) else .flawed .outOfRange
  | j => j
termination_by structural j => j

/-- Items as they are read within a number of containers. -/
def cutItems (outer : Nat) : List Json → List Json
  | [] => []
  | item :: rest => cut outer item :: cutItems outer rest
termination_by structural items => items

/-- Fields as they are read within a number of containers. -/
def cutFields (outer : Nat) : List (String × Json) → List (String × Json)
  | [] => []
  | (name, value) :: rest => (name, cut outer value) :: cutFields outer rest
termination_by structural fields => fields

end

/-- Fields of two lists are cut by themselves. -/
theorem cutFields_append (outer : Nat) (fields later : List (String × Json)) :
    cutFields outer (fields ++ later) = cutFields outer fields ++ cutFields outer later := by
  induction fields with
  | nil => rfl
  | cons f rest ih => rw [List.cons_append, cutFields, cutFields, ih, List.cons_append]

/-- The depth of two lists of fields is the greater one. -/
theorem fieldsDepth_append (fields later : List (String × Json)) :
    fieldsDepth (fields ++ later) = max (fieldsDepth fields) (fieldsDepth later) := by
  induction fields with
  | nil => rw [List.nil_append, fieldsDepth, Nat.zero_max]
  | cons f rest ih => rw [List.cons_append, fieldsDepth, fieldsDepth, ih, Nat.max_assoc]

/-! ## Running the reader -/

/-- How many containers are open. -/
def stackDepth : List Container → Nat
  | [] => 0
  | c :: _ => c.depth

/-- An opened container lies one level deeper. -/
theorem openContainer_eq (contents : Contents) (stack : List Container) :
    openContainer contents stack = ⟨stackDepth stack + 1, contents⟩ :: stack := by
  cases stack <;> rfl

/-- Places where a value may begin. -/
def Expected.beginsValue : Expected → Prop
  | .value | .firstItem => True
  | _ => False

/-- Places where the name of a field may stand. -/
def Expected.beginsName : Expected → Prop
  | .name | .firstName => True
  | _ => False

/-- A closed array, out of range beyond the limit. -/
theorem close_items (outer : Nat) (items : List Json) :
    Container.close ⟨outer + 1, .items (cutItems (outer + 1) items).reverse⟩ =
      cut outer (.array items) := by
  simp only [Container.close, Contents.close, List.reverse_reverse, cut, Nat.succ_le_iff]

/-- A closed object, out of range beyond the limit. -/
theorem close_fields (outer : Nat) (fields : List (String × Json)) (name : Option String) :
    Container.close ⟨outer + 1, .fields (cutFields (outer + 1) fields).reverse name⟩ =
      cut outer (.object fields) := by
  simp only [Container.close, Contents.close, List.reverse_reverse, cut, Nat.succ_le_iff]

mutual

/-- The tokens of a tree are read as its value. -/
theorem run_toTokens : ∀ (j : Json) (stack : List Container) (expected : Expected)
    (rest : List Token), expected.beginsValue →
    run (.reading stack expected) (j.toTokens ++ rest) =
      run (.afterValue (j.cut (stackDepth stack)) stack) rest
  | .null, stack, expected, rest, h => by cases expected <;> first | rfl | cases h
  | .bool _, stack, expected, rest, h => by cases expected <;> first | rfl | cases h
  | .number _, stack, expected, rest, h => by cases expected <;> first | rfl | cases h
  | .string _, stack, expected, rest, h => by cases expected <;> first | rfl | cases h
  | .flawed _, stack, expected, rest, h => by cases expected <;> first | rfl | cases h
  | .array items, stack, expected, rest, h => by
    have hopen : run (.reading stack expected) ((Json.array items).toTokens ++ rest) =
        run (.reading (openContainer (.items []) stack) .firstItem)
          (joinTokens (itemsToTokens items) ++ .closeArray :: rest) := by
      rw [toTokens, List.cons_append, List.append_assoc, List.singleton_append]
      cases expected <;> first | rfl | cases h
    rw [hopen, openContainer_eq, ← close_items]
    cases items with
    | nil => rfl
    | cons item items =>
      have hitems := run_items (item :: items) stack (stackDepth stack + 1) [] .firstItem rest
        (List.cons_ne_nil _ _) trivial
      rwa [List.append_nil] at hitems
  | .object fields, stack, expected, rest, h => by
    have hopen : run (.reading stack expected) ((Json.object fields).toTokens ++ rest) =
        run (.reading (openContainer (.fields [] none) stack) .firstName)
          (joinTokens (fieldsToTokens fields) ++ .closeObject :: rest) := by
      rw [toTokens, List.cons_append, List.append_assoc, List.singleton_append]
      cases expected <;> first | rfl | cases h
    rw [hopen, openContainer_eq]
    cases fields with
    | nil =>
      rw [← close_fields (stackDepth stack) [] none]
      rfl
    | cons f fields =>
      obtain ⟨last, hfields⟩ := run_fields (f :: fields) stack (stackDepth stack + 1) [] none
        .firstName rest (List.cons_ne_nil _ _) trivial
      rw [List.append_nil] at hfields
      rw [hfields, close_fields]

/-- The tokens of items are read into the array that is open. -/
theorem run_items : ∀ (items : List Json) (stack : List Container) (depth : Nat)
    (done : List Json) (expected : Expected) (rest : List Token), items ≠ [] →
    expected.beginsValue →
    run (.reading (⟨depth, .items done⟩ :: stack) expected)
        (joinTokens (itemsToTokens items) ++ .closeArray :: rest) =
      run (.afterValue
        (Container.close ⟨depth, .items ((cutItems depth items).reverse ++ done)⟩) stack) rest
  | [], _, _, _, _, _, hne, _ => absurd rfl hne
  | [item], stack, depth, done, expected, rest, _, h =>
    run_toTokens item (⟨depth, .items done⟩ :: stack) expected (.closeArray :: rest) h
  | item :: next :: items, stack, depth, done, expected, rest, _, h => by
    have hitem := run_toTokens item (⟨depth, .items done⟩ :: stack) expected
      (.comma :: (joinTokens (itemsToTokens (next :: items)) ++ .closeArray :: rest)) h
    have hnext := run_items (next :: items) stack depth (item.cut depth :: done) .value rest
      (List.cons_ne_nil _ _) trivial
    have hjoin : joinTokens (itemsToTokens (item :: next :: items)) ++ .closeArray :: rest =
        item.toTokens ++
          .comma :: (joinTokens (itemsToTokens (next :: items)) ++ .closeArray :: rest) := by
      simp only [itemsToTokens, joinTokens, List.append_assoc, List.cons_append]
    have hcut : (cutItems depth (item :: next :: items)).reverse ++ done =
        (cutItems depth (next :: items)).reverse ++ item.cut depth :: done := by
      rw [cutItems, List.reverse_cons, List.append_assoc, List.singleton_append]
    rw [hjoin, hitem, hcut, ← hnext]
    rfl

/-- The tokens of fields are read into the object that is open. -/
theorem run_fields : ∀ (fields : List (String × Json)) (stack : List Container) (depth : Nat)
    (done : List (String × Json)) (before : Option String) (expected : Expected)
    (rest : List Token), fields ≠ [] → expected.beginsName →
    ∃ last, run (.reading (⟨depth, .fields done before⟩ :: stack) expected)
        (joinTokens (fieldsToTokens fields) ++ .closeObject :: rest) =
      run (.afterValue
        (Container.close ⟨depth, .fields ((cutFields depth fields).reverse ++ done) last⟩) stack)
        rest
  | [], _, _, _, _, _, _, hne, _ => absurd rfl hne
  | [(name, value)], stack, depth, done, before, expected, rest, _, h => by
    have hvalue := run_toTokens value (⟨depth, .fields done (some name)⟩ :: stack) .value
      (.closeObject :: rest) trivial
    refine ⟨some name, Eq.trans ?_ hvalue⟩
    cases expected <;> first | rfl | cases h
  | (name, value) :: (next, inner) :: fields, stack, depth, done, before, expected, rest, _, h => by
    have hvalue := run_toTokens value (⟨depth, .fields done (some name)⟩ :: stack) .value
      (.comma :: (joinTokens (fieldsToTokens ((next, inner) :: fields)) ++ .closeObject :: rest))
      trivial
    obtain ⟨last, hnext⟩ := run_fields ((next, inner) :: fields) stack depth
      ((name, value.cut depth) :: done) (some name) .name rest (List.cons_ne_nil _ _) trivial
    have hjoin : joinTokens (fieldsToTokens ((name, value) :: (next, inner) :: fields)) ++
          .closeObject :: rest =
        .text (some name) :: .colon :: (value.toTokens ++ .comma ::
          (joinTokens (fieldsToTokens ((next, inner) :: fields)) ++ .closeObject :: rest)) := by
      simp only [fieldsToTokens, joinTokens, List.append_assoc, List.cons_append]
    have hcut : (cutFields depth ((name, value) :: (next, inner) :: fields)).reverse ++ done =
        (cutFields depth ((next, inner) :: fields)).reverse ++ (name, value.cut depth) :: done := by
      rw [cutFields, List.reverse_cons, List.append_assoc, List.singleton_append]
    refine ⟨last, ?_⟩
    rw [hjoin, hcut, ← hnext]
    refine Eq.trans ?_ hvalue
    cases expected <;> first | rfl | cases h

end

/-- A text with the tokens of a tree reads as that tree cut at the nesting limit, and nothing
follows it. -/
theorem read_of_tokens {text : String} {j : Json} (h : tokens text = j.toTokens) :
    read text = ⟨j.cut 0, true⟩ := by
  have hrun := run_toTokens j [] .value [] trivial
  rw [List.append_nil] at hrun
  rw [read, h, hrun]
  rfl

/-! ## Trees within the limit -/

mutual

/-- A tree that fits within the limit is kept. -/
theorem cut_of_fits : ∀ (j : Json) (outer : Nat), outer + j.depth ≤ nestingLimit → j.cut outer = j
  | .null, _, _ | .bool _, _, _ | .number _, _, _ | .string _, _, _ | .flawed _, _, _ => rfl
  | .array items, outer, h => by
    rw [depth, ← Nat.add_assoc] at h
    have hitems := cutItems_of_fits items (outer + 1) (by omega)
    rw [cut, if_pos (by omega), hitems]
  | .object fields, outer, h => by
    rw [depth, ← Nat.add_assoc] at h
    have hfields := cutFields_of_fits fields (outer + 1) (by omega)
    rw [cut, if_pos (by omega), hfields]

/-- Items that fit within the limit are kept. -/
theorem cutItems_of_fits : ∀ (items : List Json) (outer : Nat),
    outer + itemsDepth items ≤ nestingLimit → cutItems outer items = items
  | [], _, _ => rfl
  | item :: rest, outer, h => by
    rw [itemsDepth] at h
    rw [cutItems, cut_of_fits item outer (by omega), cutItems_of_fits rest outer (by omega)]

/-- Fields that fit within the limit are kept. -/
theorem cutFields_of_fits : ∀ (fields : List (String × Json)) (outer : Nat),
    outer + fieldsDepth fields ≤ nestingLimit → cutFields outer fields = fields
  | [], _, _ => rfl
  | (name, value) :: rest, outer, h => by
    rw [fieldsDepth] at h
    rw [cutFields, cut_of_fits value outer (by omega), cutFields_of_fits rest outer (by omega)]

end

mutual

/-- Within the limit a tree stays free of flaws exactly if it fits. -/
theorem isSound_cut : ∀ (j : Json) (outer : Nat), j.isWritable = true → outer ≤ nestingLimit →
    (j.cut outer).isSound = decide (outer + j.depth ≤ nestingLimit)
  | .null, outer, _, ho | .bool _, outer, _, ho | .number _, outer, _, ho
  | .string _, outer, _, ho => (decide_eq_true ho).symm
  | .array items, outer, h, ho => by
    rw [depth, cut]
    split
    next hlimit =>
      have hitems := itemsSound_cut items (outer + 1) h hlimit
      exact hitems.trans (decide_eq_decide.mpr (by omega))
    next hlimit => exact (decide_eq_false (by omega)).symm
  | .object fields, outer, h, ho => by
    rw [depth, cut]
    split
    next hlimit =>
      have hfields := fieldsSound_cut fields (outer + 1) h hlimit
      exact hfields.trans (decide_eq_decide.mpr (by omega))
    next hlimit => exact (decide_eq_false (by omega)).symm

/-- Within the limit items stay free of flaws exactly if they fit. -/
theorem itemsSound_cut : ∀ (items : List Json) (outer : Nat), itemsWritable items = true →
    outer ≤ nestingLimit → itemsFlawsAll (fun _ => false) (cutItems outer items) =
      decide (outer + itemsDepth items ≤ nestingLimit)
  | [], outer, _, ho => (decide_eq_true ho).symm
  | item :: rest, outer, h, ho => by
    rw [itemsWritable, Bool.and_eq_true] at h
    have hitem : flawsAll (fun _ => false) (item.cut outer) = _ := isSound_cut item outer h.1 ho
    rw [cutItems, itemsFlawsAll, hitem, itemsSound_cut rest outer h.2 ho, itemsDepth,
      ← Bool.decide_and]
    exact decide_eq_decide.mpr (by omega)

/-- Within the limit fields stay free of flaws exactly if they fit. -/
theorem fieldsSound_cut : ∀ (fields : List (String × Json)) (outer : Nat),
    fieldsWritable fields = true → outer ≤ nestingLimit →
    fieldsFlawsAll (fun _ => false) (cutFields outer fields) =
      decide (outer + fieldsDepth fields ≤ nestingLimit)
  | [], outer, _, ho => (decide_eq_true ho).symm
  | (name, value) :: rest, outer, h, ho => by
    rw [fieldsWritable, Bool.and_eq_true] at h
    have hvalue : flawsAll (fun _ => false) (value.cut outer) = _ := isSound_cut value outer h.1 ho
    rw [cutFields, fieldsFlawsAll, hvalue, fieldsSound_cut rest outer h.2 ho, fieldsDepth,
      ← Bool.decide_and]
    exact decide_eq_decide.mpr (by omega)

end

/-- A text with the tokens of a writable tree is the document of that tree if the tree fits within
the limit, and none if it does not. -/
theorem parse?_of_tokens {text : String} {j : Json} (h : tokens text = j.toTokens)
    (hw : j.isWritable = true) :
    parse? text = if j.depth ≤ nestingLimit then some j else none := by
  have hread := read_of_tokens h
  have hsound := isSound_cut j 0 hw (Nat.zero_le _)
  rw [Nat.zero_add] at hsound
  rw [parse?, hread]
  simp only [hsound, Bool.true_and, decide_eq_true_eq]
  split
  next hfits => rw [cut_of_fits j 0 (by omega)]
  next => rfl

end TypedModel.Json
