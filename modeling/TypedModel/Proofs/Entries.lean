import TypedModel.Entries
import TypedModel.Proofs.Sequence
import Mathlib.Data.List.Induction
import Mathlib.Data.List.Nodup

/-!
# Order of entries

Setting a value keeps the names of entries strictly ascending, so named values in any order become
sorted entries, and no others than the values that were named. A name is found with the last value
that was named by it, so values that are named apart all become entries. Among sorted entries the
smaller names stand in front.
-/

namespace TypedModel.Entries

variable {α : Type}

/-- The value of a name is that of one of the entries. -/
theorem mem_of_get? {name : String} {entries : Entries α} {v : α}
    (h : entries.get? name = some v) : (name, v) ∈ entries := Sequence.mem_of_lookup h

/-- Setting a value adds no other entry. -/
theorem mem_of_mem_insert {name : String} {value : α} {entries : Entries α} {e : String × α}
    (h : e ∈ insert name value entries) : e = (name, value) ∨ e ∈ entries := by
  induction entries with
  | nil => exact .inl (List.mem_singleton.mp h)
  | cons first rest ih =>
    obtain ⟨other, old⟩ := first
    rw [insert] at h
    split at h
    · exact List.mem_cons.mp h
    · split at h
      · exact (List.mem_cons.mp h).imp_right (List.mem_cons_of_mem _)
      · rcases List.mem_cons.mp h with rfl | h
        · exact .inr List.mem_cons_self
        · exact (ih h).imp_right (List.mem_cons_of_mem _)

/-- Setting a value keeps the names in order. -/
theorem isSorted_insert (name : String) (value : α) {entries : Entries α}
    (h : IsSorted entries) : IsSorted (insert name value entries) := by
  induction entries with
  | nil => exact List.pairwise_singleton _ _
  | cons first rest ih =>
    obtain ⟨other, old⟩ := first
    obtain ⟨hfirst, hrest⟩ := List.pairwise_cons.mp h
    rw [insert]
    split
    · rename_i hless
      refine List.pairwise_cons.mpr ⟨fun e he => ?_, h⟩
      rcases List.mem_cons.mp he with rfl | he
      · exact hless
      · exact String.lt_trans hless (hfirst e he)
    · rename_i hless
      split
      · rename_i hsame
        exact List.pairwise_cons.mpr ⟨fun e he => hsame ▸ hfirst e he, hrest⟩
      · rename_i hsame
        have hgreater : other < name :=
          Std.lt_of_le_of_ne (String.not_lt.mp hless) (Ne.symm hsame)
        refine List.pairwise_cons.mpr ⟨fun e he => ?_, ih hrest⟩
        rcases mem_of_mem_insert he with rfl | he
        · exact hgreater
        · exact hfirst e he

/-- Named values become entries in order, each of them one of those values. -/
theorem ofList_spec (pairs : List (String × α)) :
    IsSorted (ofList pairs) ∧ ∀ e ∈ ofList pairs, e ∈ pairs := by
  have hfold : ∀ entries : Entries α, IsSorted entries →
      IsSorted (pairs.foldl (fun entries p => insert p.1 p.2 entries) entries) ∧
        ∀ e ∈ pairs.foldl (fun entries p => insert p.1 p.2 entries) entries,
          e ∈ entries ∨ e ∈ pairs := by
    induction pairs with
    | nil => exact fun entries h => ⟨h, fun e he => .inl he⟩
    | cons p pairs ih =>
      intro entries h
      obtain ⟨hsorted, hmem⟩ := ih (insert p.1 p.2 entries) (isSorted_insert p.1 p.2 h)
      refine ⟨hsorted, fun e he => ?_⟩
      rcases hmem e he with he | he
      · rcases mem_of_mem_insert he with rfl | he
        · exact .inr List.mem_cons_self
        · exact .inl he
      · exact .inr (List.mem_cons_of_mem _ he)
  obtain ⟨hsorted, hmem⟩ := hfold [] List.Pairwise.nil
  exact ⟨hsorted, fun e he => (hmem e he).resolve_left List.not_mem_nil⟩

/-- One more named value is set behind the others. -/
theorem ofList_concat (pairs : List (String × α)) (name : String) (value : α) :
    ofList (pairs ++ [(name, value)]) = insert name value (ofList pairs) := by
  rw [ofList, List.foldl_append]
  rfl

section

variable {β : Type} (f : α → β)

/-- A changed value is set among changed ones as the value is. -/
theorem insert_map (name : String) (value : α) (entries : Entries α) :
    insert name (f value) (entries.map fun e => (e.1, f e.2)) =
      (insert name value entries).map fun e => (e.1, f e.2) := by
  induction entries with
  | nil => rfl
  | cons first rest ih =>
    obtain ⟨other, old⟩ := first
    rw [List.map_cons, insert, insert, ih]
    split
    · rfl
    · split <;> rfl

/-- Named values are changed before or after they become entries. -/
theorem ofList_map (pairs : List (String × α)) :
    ofList (pairs.map fun e => (e.1, f e.2)) = (ofList pairs).map fun e => (e.1, f e.2) := by
  -- the last pair is set last, so the induction takes pairs away at the end
  induction pairs using List.reverseRecOn with
  | nil => rfl
  | append_singleton pairs p ih =>
    rw [List.map_append, List.map_singleton, ofList_concat, ofList_concat, ih, insert_map]

end

/-- A name is that of the first entry, or looked for behind it. -/
theorem get?_cons (name : String) (e : String × α) (rest : Entries α) :
    get? name (e :: rest) = if name = e.1 then some e.2 else get? name rest := by
  rw [get?, List.lookup_cons]
  split
  · rename_i hsame
    rw [if_pos (beq_iff_eq.mp hsame)]
  · rename_i hdiffers
    rw [if_neg (beq_eq_false_iff_ne.mp hdiffers)]
    rfl

/-- A value that is set is found under its name; under all other names the values stay. -/
theorem get?_insert (name other : String) (value : α) (entries : Entries α) :
    (insert name value entries).get? other =
      if other = name then some value else entries.get? other := by
  induction entries with
  | nil => exact get?_cons other (name, value) []
  | cons first rest ih =>
    rw [insert]
    split
    · exact get?_cons other (name, value) (first :: rest)
    · split
      · rename_i hsame
        rw [get?_cons, get?_cons, ← hsame]
        split <;> rfl
      · rename_i hdiffers
        rw [get?_cons, get?_cons, ih]
        by_cases hname : other = name
        · rw [hname, if_neg hdiffers, if_pos rfl, if_pos rfl]
        · rw [if_neg hname, if_neg hname]

/-- A name is found with the last of the values that were named by it. -/
theorem get?_ofList (pairs : List (String × α)) (name : String) :
    (ofList pairs).get? name = get? name pairs.reverse := by
  have hfold (entries : Entries α) :
      (pairs.foldl (fun entries p => insert p.1 p.2 entries) entries).get? name =
        (get? name pairs.reverse).or (entries.get? name) := by
    induction pairs generalizing entries with
    | nil => rfl
    | cons p pairs ih =>
      have hlast : get? name (pairs.reverse ++ [p]) =
          (get? name pairs.reverse).or (get? name [p]) := List.lookup_append
      rw [List.foldl_cons, ih, get?_insert, List.reverse_cons, hlast, get?_cons, Option.or_assoc]
      split <;> rfl
  rw [ofList, hfold]
  exact Option.or_none

/-- Every named value leaves its name among those that are found. -/
theorem exists_get?_ofList {pairs : List (String × α)} {e : String × α} (h : e ∈ pairs) :
    ∃ value, (ofList pairs).get? e.1 = some value ∧ (e.1, value) ∈ pairs := by
  have hsome : (get? e.1 pairs.reverse).isSome = true :=
    List.lookup_isSome_iff.mpr ⟨e, List.mem_reverse.mpr h, beq_self_eq_true e.1⟩
  obtain ⟨value, hvalue⟩ := Option.isSome_iff_exists.mp hsome
  have hmem := List.mem_reverse.mp (mem_of_get? hvalue)
  rw [get?_ofList]
  exact ⟨value, hvalue, hmem⟩

section

variable {pairs : List (String × α)}

/-- Of values that are named apart each is found. -/
theorem get?_ofList_of_mem (hapart : (pairs.map Prod.fst).Nodup) {e : String × α}
    (h : e ∈ pairs) : (ofList pairs).get? e.1 = some e.2 := by
  obtain ⟨value, hvalue, hmem⟩ := exists_get?_ofList h
  have hsame : (e.1, value) = e := List.inj_on_of_nodup_map hapart hmem h rfl
  rw [hvalue, ← hsame]

/-- Values that are named apart become entries, one for each. -/
theorem perm_ofList (hapart : (pairs.map Prod.fst).Nodup) : (ofList pairs).Perm pairs := by
  obtain ⟨hsorted, hmem⟩ := ofList_spec pairs
  have hnodup : (ofList pairs).Nodup := by
    refine hsorted.imp fun {a b} hless hsame => ?_
    rw [hsame] at hless
    exact String.lt_irrefl b.1 hless
  refine (List.perm_ext_iff_of_nodup hnodup (List.Nodup.of_map Prod.fst hapart)).mpr fun e => ?_
  constructor
  · exact hmem e
  · exact fun he => mem_of_get? (get?_ofList_of_mem hapart he)

end

/-- Entries in order are told by what they hold. -/
theorem eq_of_perm {entries others : Entries α} (h : IsSorted entries) (hothers : IsSorted others)
    (hperm : List.Perm entries others) : entries = others :=
  hperm.eq_of_pairwise (fun _ _ _ _ hless hgreater => absurd hgreater (String.lt_asymm hless)) h
    hothers

/-- An entry of a smaller name stands in front. -/
theorem mem_of_lt {before after : Entries α} {e other : String × α}
    (h : IsSorted (before ++ e :: after)) (hmem : other ∈ before ++ e :: after)
    (hless : other.1 < e.1) : other ∈ before := by
  have hafter := (List.pairwise_cons.mp (List.pairwise_append.mp h).2.1).1
  rcases List.mem_append.mp hmem with hmem | hmem
  · exact hmem
  · rcases List.mem_cons.mp hmem with rfl | hmem
    · exact absurd hless (String.lt_irrefl _)
    · exact absurd (hafter other hmem) (String.lt_asymm hless)

end TypedModel.Entries
