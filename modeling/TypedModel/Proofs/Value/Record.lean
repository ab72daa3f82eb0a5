import TypedModel.Proofs.Value.Normal

/-!
# Fields of record instances

A record instance is looked into in two ways: by the name of a field, and as the map of its fields.
The main statement is that the first selects the first field of a name and the second the last one,
so that the two agree where the fields are named apart.
-/

namespace TypedModel.Record

/-- Pushes fields one after the other. -/
def pushAll (r : Record) (fields : List (String × Value)) : Record :=
  fields.foldl (fun r f => r.push f.1 f.2) r

theorem pushAll_eq (r : Record) (fields : List (String × Value)) :
    r.pushAll fields = ⟨r.name, r.fields ++ fields⟩ := by
  induction fields generalizing r with
  | nil =>
    obtain ⟨name, fields⟩ := r
    rw [List.append_nil]
    rfl
  | cons f rest ih =>
    have hrest := ih (r.push f.1 f.2)
    rw [push, List.append_assoc, List.singleton_append] at hrest
    exact hrest

/-- Every record instance is built by pushing its fields. -/
theorem pushAll_empty (r : Record) : (empty r.name).pushAll r.fields = r := by
  rw [pushAll_eq]
  cases r
  rfl

/-- What holds without fields and is kept by pushing one holds of every record instance. -/
@[elab_as_elim]
theorem pushInduction {motive : Record → Prop} (empty : ∀ name, motive (empty name))
    (push : ∀ r name value, motive r → motive (r.push name value)) (r : Record) : motive r := by
  have hpushed (fields : List (String × Value)) : ∀ r, motive r → motive (r.pushAll fields) := by
    induction fields with
    | nil => exact fun r hr => hr
    | cons f rest ih => exact fun r hr => ih _ (push r f.1 f.2 hr)
  rw [← pushAll_empty r]
  exact hpushed r.fields _ (empty r.name)

/-! ## One more field -/

/-- The values of the fields of a name, in their order. -/
def named (r : Record) (name : String) : List Value :=
  (r.fields.filter fun f => f.1 == name).map Prod.snd

/-- The entries of the map of the fields. -/
def entries (r : Record) : Entries Value :=
  (Entries.ofList r.fields).map fun f => (f.1, f.2.normalized)

theorem toMap_eq (r : Record) : r.toMap = .map r.entries := by
  rw [toMap, Value.normalized_record, Value.normalized_map]
  rfl

theorem isSorted_entries (r : Record) : Entries.IsSorted r.entries := by
  rw [entries, ← Entries.ofList_map]
  exact (Entries.ofList_spec _).1

section

variable (r : Record) (name other : String) (value : Value)

theorem named_push :
    (r.push name value).named other = r.named other ++ if name = other then [value] else [] := by
  have hlast : ([(name, value)].filter fun f => f.1 == other).map Prod.snd =
      if name = other then [value] else [] := by
    by_cases hname : name = other <;> simp [hname]
  rw [named, push, List.filter_append, List.map_append, hlast]
  rfl

/-- Under its name the value of a pushed field is found if none was before. -/
theorem get?_push :
    (r.push name value).get? other =
      (r.get? other).or (if name = other then some value else none) := by
  have hlast : [(name, value)].lookup other = if name = other then some value else none := by
    by_cases hname : name = other
    · simp [hname]
    · simp [hname, List.lookup_cons, beq_false_of_ne (Ne.symm hname)]
  rw [get?, push, List.lookup_append, hlast]
  rfl

/-- In the map the value of a pushed field takes the place of one before. -/
theorem get?_entries_push :
    (r.push name value).entries.get? other =
      if name = other then some value.normalized else r.entries.get? other := by
  have hset : (r.push name value).entries = Entries.insert name value.normalized r.entries := by
    rw [entries, push, Entries.ofList_concat, ← Entries.insert_map]
    rfl
  rw [hset, Entries.get?_insert]
  simp only [eq_comm]

end

/-! ## All fields -/

/-- A name is found with the first field of the name. -/
theorem get?_eq_head?_named (r : Record) (name : String) : r.get? name = (r.named name).head? := by
  induction r using pushInduction with
  | empty => rfl
  | push r other value ih =>
    rw [get?_push, named_push, List.head?_append, ih]
    split <;> rfl

/-- A name has the last field of the name in the map. -/
theorem get?_entries_eq_getLast?_named (r : Record) (name : String) :
    r.entries.get? name = (r.named name).getLast?.map Value.normalized := by
  induction r using pushInduction with
  | empty => rfl
  | push r other value ih =>
    rw [get?_entries_push, named_push, ih]
    split <;> simp

theorem get?_eq_none_iff (r : Record) (name : String) :
    r.get? name = none ↔ r.entries.get? name = none := by
  rw [get?_eq_head?_named, get?_entries_eq_getLast?_named]
  simp

/-- Where the fields are named apart, a name has one value in both ways. -/
theorem get?_entries_of_nodup {r : Record} (h : (r.fields.map Prod.fst).Nodup) (name : String) :
    r.entries.get? name = (r.get? name).map Value.normalized := by
  cases hget : r.get? name with
  | none => exact (get?_eq_none_iff r name).mp hget
  | some value =>
    have hmem : (name, value) ∈ r.fields := Sequence.mem_of_lookup hget
    have hnames : ((r.fields.map fun f => (f.1, f.2.normalized)).map Prod.fst).Nodup := by
      rwa [List.map_map]
    rw [entries, ← Entries.ofList_map]
    exact Entries.get?_ofList_of_mem hnames
      (List.mem_map_of_mem (f := fun f => (f.1, f.2.normalized)) hmem)

/-- Every record instance is built by pushing its fields. Looked up by name it gives the first field
of the name, and its map holds the last one in its normal form; both give nothing for the same
names. So the two agree on a name exactly if its first and its last field have one normal form, and
on all names if the fields are named apart. -/
theorem lookup_takes_first_and_map_last (r : Record) :
    (empty r.name).pushAll r.fields = r ∧
    ∃ entries : Entries Value, r.toMap = .map entries ∧ Entries.IsSorted entries ∧
      (∀ name, r.get? name = none ↔ entries.get? name = none) ∧
      (∀ name, r.get? name = (r.named name).head? ∧
        entries.get? name = (r.named name).getLast?.map Value.normalized) ∧
      (∀ name, entries.get? name = (r.get? name).map Value.normalized ↔
        ∀ first ∈ (r.named name).head?, ∀ last ∈ (r.named name).getLast?,
          first.normalized = last.normalized) ∧
      ((r.fields.map Prod.fst).Nodup →
        ∀ name, entries.get? name = (r.get? name).map Value.normalized) := by
  have hfirst := get?_eq_head?_named r
  have hlast := get?_entries_eq_getLast?_named r
  refine ⟨pushAll_empty r, r.entries, toMap_eq r, isSorted_entries r, get?_eq_none_iff r,
    fun name => ⟨hfirst name, hlast name⟩, fun name => ?_, get?_entries_of_nodup⟩
  rw [hfirst, hlast]
  cases hnamed : r.named name with
  | nil => simp
  | cons value rest =>
    rw [List.head?_cons, List.getLast?_cons]
    simp [eq_comm]

/-- A record instance within another one, which the map holds in its normal form. -/
theorem lookup_takes_first_and_map_last_nested :
    let inner : Value := .record ⟨"Inner", [("x", .long 1)]⟩
    let r : Record := ⟨"Outer", [("b", inner), ("a", .null)]⟩
    (r.fields.map Prod.fst).Nodup ∧ r.get? "b" = some inner ∧
      ∃ entries : Entries Value, r.toMap = .map entries ∧
        entries.get? "b" = some (.map [("x", .long 1)]) := by
  intro inner r
  have hapart : (r.fields.map Prod.fst).Nodup := by decide
  obtain ⟨-, entries, hmap, -, -, -, -, hagree⟩ := lookup_takes_first_and_map_last r
  exact ⟨hapart, rfl, entries, hmap, hagree hapart "b"⟩

/-- Of two fields of one name the first is found and the last is in the map. -/
example :
    let r := ((empty "R").push "a" (.long 1)).push "a" (.long 2)
    r.get? "a" = some (.long 1) ∧ r.toMap = .map [("a", .long 2)] := ⟨rfl, rfl⟩

end TypedModel.Record
