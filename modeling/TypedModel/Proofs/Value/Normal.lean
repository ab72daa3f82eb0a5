import TypedModel.Proofs.Entries
import TypedModel.Proofs.Value.Parts

/-!
# Normal forms

Normalizing reads record instances as the maps of their fields, wherever they lie outside of frames.
The main statement is that this reaches a normal form: two values have the same one exactly if
reading records as maps leads from one to the other, and the only record instances left are those
that lie in the cells of frames.
-/

namespace TypedModel.Value

open Relation

/-! ## Outside of frames -/

/-- What normalizing goes into: items, values of maps, and the values of the fields of a record
instance, of the fields of one name the last. Cells of frames are not gone into. -/
inductive HasOuterPart : Value → Value → Prop
  /-- An item of a list. -/
  | item {items : List Value} {x : Value} (h : x ∈ items) : HasOuterPart (.list items) x
  /-- A value of a map. -/
  | entry {entries : Entries Value} {e : String × Value} (h : e ∈ entries) :
    HasOuterPart (.map entries) e.2
  /-- The value of the last field of its name. -/
  | field {r : Record} {f : String × Value} (h : f ∈ Entries.ofList r.fields) :
    HasOuterPart (.record r) f.2

/-- Whether the second value is the first one or lies in it outside of frames. -/
def HoldsOutside : Value → Value → Prop := ReflTransGen HasOuterPart

theorem hasOuterPart_list_iff {items : List Value} {x : Value} :
    (Value.list items).HasOuterPart x ↔ x ∈ items :=
  ⟨fun | .item h => h, .item⟩

theorem hasOuterPart_map_iff {entries : Entries Value} {x : Value} :
    (Value.map entries).HasOuterPart x ↔ ∃ e ∈ entries, e.2 = x := by
  constructor
  · intro h
    cases h with
    | @entry _ e he => exact ⟨e, he, rfl⟩
  · rintro ⟨e, he, rfl⟩
    exact .entry he

/-- A record instance has the outer parts of the map of its fields. -/
theorem hasOuterPart_record_iff {r : Record} {x : Value} :
    (Value.record r).HasOuterPart x ↔ (Value.map (Entries.ofList r.fields)).HasOuterPart x := by
  rw [hasOuterPart_map_iff]
  constructor
  · intro h
    cases h with
    | @field _ f hf => exact ⟨f, hf, rfl⟩
  · rintro ⟨f, hf, rfl⟩
    exact .field hf

theorem HasOuterPart.hasPart {v x : Value} (h : v.HasOuterPart x) : v.HasPart x := by
  cases h with
  | item h => exact .item h
  | entry h => exact .entry h
  | @field r f h => exact .field ((Entries.ofList_spec r.fields).2 f h)

theorem HoldsOutside.holds {v x : Value} (h : v.HoldsOutside x) : v.Holds x :=
  ReflTransGen.mono (fun _ _ => HasOuterPart.hasPart) v x h

/-! ## What is left of a value -/

theorem normalizedItems_eq_map (items : List Value) :
    normalizedItems items = items.map normalized := by
  induction items with
  | nil => rfl
  | cons item rest ih => rw [normalizedItems, ih, List.map_cons]

theorem normalizedEntries_eq_map (entries : List (String × Value)) :
    normalizedEntries entries = entries.map fun e => (e.1, e.2.normalized) := by
  induction entries with
  | nil => rfl
  | cons e rest ih => rw [normalizedEntries, ih, List.map_cons]

theorem normalized_list (items : List Value) :
    (Value.list items).normalized = .list (items.map normalized) := by
  rw [normalized, normalizedItems_eq_map]

theorem normalized_map (entries : Entries Value) :
    (Value.map entries).normalized = .map (entries.map fun e => (e.1, e.2.normalized)) := by
  rw [normalized, normalizedEntries_eq_map]

/-- A record instance is normalized as the map of its fields. -/
theorem normalized_record (r : Record) :
    (Value.record r).normalized = (Value.map (Entries.ofList r.fields)).normalized := by
  obtain ⟨name, fields⟩ := r
  rw [normalized_map, ← Entries.ofList_map, normalized, normalizedEntries_eq_map]
  rfl

theorem normalized_ne_record (v : Value) (r : Record) : v.normalized ≠ .record r := by
  cases v with
  | record s =>
    rw [normalized_record, normalized_map]
    exact Value.noConfusion
  | list items =>
    rw [normalized_list]
    exact Value.noConfusion
  | map entries =>
    rw [normalized_map]
    exact Value.noConfusion
  | _ => exact Value.noConfusion

/-- Frames stay as they are, and no other value becomes one. -/
theorem normalized_eq_frame_iff {v : Value} {f : Frame} :
    v.normalized = .frame f ↔ v = .frame f := by
  cases v with
  | record r =>
    rw [normalized_record, normalized_map]
    exact iff_of_false Value.noConfusion Value.noConfusion
  | list items =>
    rw [normalized_list]
    exact iff_of_false Value.noConfusion Value.noConfusion
  | map entries =>
    rw [normalized_map]
    exact iff_of_false Value.noConfusion Value.noConfusion
  | _ => exact Iff.rfl

/-- The parts of a normal form outside of frames are the normal forms of such parts. -/
theorem hasOuterPart_normalized_iff {v y : Value} :
    v.normalized.HasOuterPart y ↔ ∃ x, v.HasOuterPart x ∧ x.normalized = y := by
  have hmap (entries : Entries Value) : (Value.map entries).normalized.HasOuterPart y ↔
      ∃ x, (Value.map entries).HasOuterPart x ∧ x.normalized = y := by
    simp only [normalized_map, hasOuterPart_map_iff, List.mem_map, exists_exists_and_eq_and]
  cases v with
  | list items => simp only [normalized_list, hasOuterPart_list_iff, List.mem_map]
  | map entries => exact hmap entries
  | record r => simp only [normalized_record, hmap, hasOuterPart_record_iff]
  | _ =>
    constructor
    · intro h
      cases h
    · rintro ⟨x, hx, -⟩
      cases hx

/-- What lies in a normal form outside of frames are the normal forms of what lies so in the value.
-/
theorem holdsOutside_normalized_iff {v y : Value} :
    v.normalized.HoldsOutside y ↔ ∃ x, v.HoldsOutside x ∧ x.normalized = y := by
  constructor
  · intro h
    induction h with
    | refl => exact ⟨v, .refl, rfl⟩
    | tail _ hpart ih =>
      obtain ⟨x, hx, rfl⟩ := ih
      obtain ⟨z, hz, rfl⟩ := hasOuterPart_normalized_iff.mp hpart
      exact ⟨z, hx.tail hz, rfl⟩
  · rintro ⟨x, hx, rfl⟩
    induction hx with
    | refl => exact .refl
    | tail _ hpart ih => exact ih.tail (hasOuterPart_normalized_iff.mpr ⟨_, hpart, rfl⟩)

theorem not_holdsOutside_record_normalized (v : Value) (r : Record) :
    ¬ v.normalized.HoldsOutside (.record r) := by
  intro h
  obtain ⟨x, -, hx⟩ := holdsOutside_normalized_iff.mp h
  exact normalized_ne_record x r hx

theorem holdsOutside_frame_normalized_iff {v : Value} {f : Frame} :
    v.normalized.HoldsOutside (.frame f) ↔ v.HoldsOutside (.frame f) := by
  simp only [holdsOutside_normalized_iff, normalized_eq_frame_iff, exists_eq_right]

/-- A record instance lies within one outside of frames, or in a frame. -/
theorem exists_of_holds_record {v : Value} {r : Record} (h : v.Holds (.record r)) :
    (∃ s, v.HoldsOutside (.record s)) ∨
      ∃ f, v.HoldsOutside (.frame f) ∧ (Value.frame f).Holds (.record r) := by
  induction h using ReflTransGen.head_induction_on with
  | refl => exact .inl ⟨r, .refl⟩
  | head hpart hrest ih =>
    cases hpart with
    | @field s f hf => exact .inl ⟨s, .refl⟩
    | @cell f row x hrow hx => exact .inr ⟨f, .refl, .head (.cell hrow hx) hrest⟩
    | item hx =>
      exact ih.imp (fun ⟨s, hs⟩ => ⟨s, .head (.item hx) hs⟩)
        fun ⟨f, hf, hr⟩ => ⟨f, .head (.item hx) hf, hr⟩
    | entry he =>
      exact ih.imp (fun ⟨s, hs⟩ => ⟨s, .head (.entry he) hs⟩)
        fun ⟨f, hf, hr⟩ => ⟨f, .head (.entry he) hf, hr⟩

/-- The record instances in a normal form are those in the frames that the value holds outside of
other frames. -/
theorem holds_record_normalized_iff {v : Value} {r : Record} :
    v.normalized.Holds (.record r) ↔
      ∃ f, v.HoldsOutside (.frame f) ∧ (Value.frame f).Holds (.record r) := by
  constructor
  · intro h
    rcases exists_of_holds_record h with ⟨s, hs⟩ | ⟨f, hf, hr⟩
    · exact absurd hs (not_holdsOutside_record_normalized v s)
    · exact ⟨f, holdsOutside_frame_normalized_iff.mp hf, hr⟩
  · rintro ⟨f, hf, hr⟩
    have hframe := (holdsOutside_frame_normalized_iff.mpr hf).holds
    exact hframe.trans hr

/-! ## Reading records as maps -/

/-- One record instance outside of frames is read as the map of its fields. -/
inductive ReadsRecord : Value → Value → Prop
  /-- The value is the record instance. -/
  | here (r : Record) : ReadsRecord (.record r) (.map (Entries.ofList r.fields))
  /-- It lies in an item of a list. -/
  | item {before after : List Value} {x y : Value} (h : ReadsRecord x y) :
    ReadsRecord (.list (before ++ x :: after)) (.list (before ++ y :: after))
  /-- It lies in a value of a map. -/
  | entry {before after : Entries Value} {name : String} {x y : Value} (h : ReadsRecord x y) :
    ReadsRecord (.map (before ++ (name, x) :: after)) (.map (before ++ (name, y) :: after))
  /-- It lies in a field of another record instance. -/
  | field {type : String} {before after : List (String × Value)} {name : String} {x y : Value}
    (h : ReadsRecord x y) :
    ReadsRecord (.record ⟨type, before ++ (name, x) :: after⟩)
      (.record ⟨type, before ++ (name, y) :: after⟩)

/-- Reading a record as a map keeps the normal form. -/
theorem ReadsRecord.normalized_eq {v w : Value} (h : v.ReadsRecord w) :
    v.normalized = w.normalized := by
  induction h with
  | here r => exact normalized_record r
  | item _ ih => simp only [normalized_list, List.map_append, List.map_cons, ih]
  | entry _ ih => simp only [normalized_map, List.map_append, List.map_cons, ih]
  | field _ ih =>
    simp only [normalized_record, normalized_map, ← Entries.ofList_map, List.map_append,
      List.map_cons, ih]

theorem ReadsRecord.exists_holdsOutside {v w : Value} (h : v.ReadsRecord w) :
    ∃ r, v.HoldsOutside (.record r) := by
  induction h with
  | here r => exact ⟨r, .refl⟩
  | field => exact ⟨_, .refl⟩
  | item _ ih =>
    obtain ⟨r, hr⟩ := ih
    exact ⟨r, .head (.item (by simp)) hr⟩
  | @entry before after name x y _ ih =>
    obtain ⟨r, hr⟩ := ih
    have he : (name, x) ∈ before ++ (name, x) :: after := by simp
    exact ⟨r, .head (.entry he) hr⟩

theorem not_readsRecord_normalized (v w : Value) : ¬ v.normalized.ReadsRecord w := by
  intro h
  obtain ⟨r, hr⟩ := h.exists_holdsOutside
  exact not_holdsOutside_record_normalized v r hr

/-- What is changed place by place is changed in all places. -/
theorem reflTransGen_map {α β : Type} {R : β → β → Prop} {C : List α → β} {f : α → α}
    {xs : List α}
    (h : ∀ x ∈ xs, ∀ before after,
      ReflTransGen R (C (before ++ x :: after)) (C (before ++ f x :: after))) :
    ReflTransGen R (C xs) (C (xs.map f)) := by
  -- the places in front are changed already
  suffices hfront : ∀ before, ReflTransGen R (C (before ++ xs)) (C (before ++ xs.map f)) from
    hfront []
  induction xs with
  | nil => exact fun before => .refl
  | cons x rest ih =>
    intro before
    obtain ⟨hfirst, hrest⟩ := List.forall_mem_cons.mp h
    have hbehind := ih hrest (before ++ [f x])
    rw [List.append_assoc, List.append_assoc] at hbehind
    exact (hfirst before rest).trans hbehind

/-- Reading the records of its values as maps leads from a map to its normal form. -/
theorem reflTransGen_normalized_map {entries : Entries Value}
    (h : ∀ e ∈ entries, ReflTransGen ReadsRecord e.2 e.2.normalized) :
    ReflTransGen ReadsRecord (.map entries) (Value.map entries).normalized := by
  rw [normalized_map]
  refine reflTransGen_map (C := Value.map) fun e he before after => ?_
  exact ReflTransGen.lift (fun x => Value.map (before ++ (e.1, x) :: after))
    (fun _ _ => ReadsRecord.entry) _ _ (h e he)

/-- Reading records as maps leads to the normal form. -/
theorem reflTransGen_normalized (v : Value) : ReflTransGen ReadsRecord v v.normalized := by
  induction v using partInduction with
  | step v ih =>
    cases v with
    | list items =>
      rw [normalized_list]
      refine reflTransGen_map (C := Value.list) fun x hx before after => ?_
      exact ReflTransGen.lift (fun x => Value.list (before ++ x :: after))
        (fun _ _ => ReadsRecord.item) _ _ (ih x (.item hx))
    | map entries => exact reflTransGen_normalized_map fun e he => ih e.2 (.entry he)
    | record r =>
      rw [normalized_record]
      have hfields := reflTransGen_normalized_map fun f hf =>
        ih f.2 (.field ((Entries.ofList_spec r.fields).2 f hf))
      exact .head (.here r) hfields
    | _ => exact .refl

theorem normalized_normalized (v : Value) : v.normalized.normalized = v.normalized := by
  rcases (reflTransGen_normalized v.normalized).cases_head with heq | ⟨w, hstep, -⟩
  · exact heq.symm
  · exact absurd hstep (not_readsRecord_normalized v w)

/-- Values have one normal form exactly if reading records as maps, back and forth, leads from one
to the other. -/
theorem normalized_eq_iff {v w : Value} :
    v.normalized = w.normalized ↔ EqvGen ReadsRecord v w := by
  constructor
  · intro heq
    have hv := EqvGen.reflTransGen_le_eqvGen ReadsRecord _ _ (reflTransGen_normalized v)
    have hw := EqvGen.reflTransGen_le_eqvGen ReadsRecord _ _ (reflTransGen_normalized w)
    rw [← heq] at hw
    exact .trans _ _ _ hv (.symm _ _ hw)
  · intro h
    induction h with
    | rel _ _ hstep => exact hstep.normalized_eq
    | refl _ => rfl
    | symm _ _ _ ih => exact ih.symm
    | trans _ _ _ _ _ ih₁ ih₂ => exact ih₁.trans ih₂

/-- Reading records as maps leads to the normalized value, in which there is none left to read, and
which normalizing leaves as it is. Two values have the same normalized form exactly if reading
records as maps leads from one to the other, frames being the same. The record instances left are
those in the cells of frames. -/
theorem normalized_is_normal_form (v : Value) :
    ReflTransGen ReadsRecord v v.normalized ∧
    (∀ w, ¬ v.normalized.ReadsRecord w) ∧
    v.normalized.normalized = v.normalized ∧
    (∀ w : Value, v.normalized = w.normalized ↔ EqvGen ReadsRecord v w) ∧
    ∀ r, v.normalized.Holds (.record r) ↔
      ∃ f, v.HoldsOutside (.frame f) ∧ (Value.frame f).Holds (.record r) :=
  ⟨reflTransGen_normalized v, not_readsRecord_normalized v, normalized_normalized v,
    fun _ => normalized_eq_iff, fun _ => holds_record_normalized_iff⟩

/-- A record instance in a cell is left. -/
example : (Value.frame ⟨["a"], [[.record ⟨"R", [("x", .null)]⟩]]⟩).normalized =
    .frame ⟨["a"], [[.record ⟨"R", [("x", .null)]⟩]]⟩ := rfl

end TypedModel.Value
