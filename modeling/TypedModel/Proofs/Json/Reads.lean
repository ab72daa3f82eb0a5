import TypedModel.Proofs.Json.Nesting
import TypedModel.Proofs.Sequence

/-!
# Decoders of written trees

What a decoder makes of a tree that was written and read back depends on the nesting limit alone:
it gives the value that the tree was written for where the tree fits within the limit, and fails
as malformed where it does not. Each form of tree has one lemma, so a decoder is followed along the
tree it reads.
-/

namespace TypedModel.Decoder

open Json Sequence

variable {α β : Type}

/-! ## Conditional results -/

/-- A result that is given where a condition holds. -/
def within (fits : Prop) [Decidable fits] (a : α) : Except DecodeError α :=
  if fits then .ok a else .error .malformed

section

variable {p q r : Prop} [Decidable p] [Decidable q] [Decidable r]

/-- A condition that holds gives the result. -/
theorem within_of_fits (h : p) (a : α) : within p a = .ok a := if_pos h

/-- A condition that fails gives the error. -/
theorem within_of_not (h : ¬ p) (a : α) : within p a = .error .malformed := if_neg h

/-- Equivalent conditions give the same. -/
theorem within_congr (h : p ↔ q) (a : α) : within p a = within q a := by
  unfold within
  split
  next hp => rw [if_pos (h.mp hp)]
  next hp => rw [if_neg (fun hq => hp (h.mpr hq))]

/-- A result is changed under its condition. -/
theorem map_within (f : α → β) (a : α) : (within p a).map f = within p (f a) := by
  unfold within
  split <;> rfl

/-- A continuation that keeps the error keeps the condition. -/
theorem apply_within {a : α} {b : β} {f : Except DecodeError α → Except DecodeError β}
    (hok : f (.ok a) = .ok b) (herror : f (.error .malformed) = .error .malformed) (h : p ↔ r) :
    f (within p a) = within r b := by
  by_cases hp : p
  · rw [within_of_fits hp, hok, within_of_fits (h.mp hp)]
  · rw [within_of_not hp, herror, within_of_not fun hr => hp (h.mpr hr)]

/-- Two conditional results in a row have both conditions. -/
theorem within_bind {a : α} {b : β} {f : α → Except DecodeError β} (hf : p → f a = within q b)
    (h : p ∧ q ↔ r) : (within p a >>= f) = within r b := by
  by_cases hp : p
  · rw [within_of_fits hp, ← within_congr h, within_congr (and_iff_right hp), ← hf hp]
    rfl
  · rw [within_of_not hp, within_of_not fun hr => hp (h.mpr hr).1]
    rfl

/-- A conditional result that is used without a further condition. -/
theorem within_bind_ok {a : α} {b : β} {f : α → Except DecodeError β} (hf : p → f a = .ok b) :
    (within p a >>= f) = within p b :=
  within_bind (fun hp => (hf hp).trans (within_of_fits trivial b).symm) (and_iff_left trivial)

end

/-! ## Reading back -/

/-- A decoder reads a written tree within a number of containers as a value, where it fits. -/
def Reads (d : Decoder α) (outer : Nat) (j : Json) (a : α) : Prop :=
  d (j.cut outer) = within (outer + j.depth ≤ nestingLimit) a

/-- A tree that fits is read as it is. -/
theorem reads_of_fits {d : Decoder α} {outer : Nat} {j : Json} {a : α}
    (hfits : outer + j.depth ≤ nestingLimit) (h : d j = .ok a) : Reads d outer j a := by
  rw [Reads, cut_of_fits j outer hfits, h, within_of_fits hfits]

/-- A tree that is no container always fits. -/
theorem reads_leaf {d : Decoder α} {outer : Nat} {j : Json} {a : α} (ho : outer ≤ nestingLimit)
    (hdepth : j.depth = 0) (h : d j = .ok a) : Reads d outer j a :=
  reads_of_fits (by omega) h

/-- An array is read from its items. -/
theorem reads_array {d : Decoder α} {outer : Nat} {items : List Json} {a : α}
    (hflawed : d (.flawed .outOfRange) = .error .malformed)
    (h : outer < nestingLimit →
      d (.array (cutItems (outer + 1) items)) =
        within (outer + 1 + itemsDepth items ≤ nestingLimit) a) :
    Reads d outer (.array items) a := by
  rw [Reads, cut, depth]
  split
  next hlimit => exact (h hlimit).trans (within_congr (by omega) a)
  next hlimit => rw [hflawed, within_of_not (by omega)]

/-- An object is read from its fields. -/
theorem reads_object {d : Decoder α} {outer : Nat} {fields : List (String × Json)} {a : α}
    (hflawed : d (.flawed .outOfRange) = .error .malformed)
    (h : outer < nestingLimit →
      d (.object (cutFields (outer + 1) fields)) =
        within (outer + 1 + fieldsDepth fields ≤ nestingLimit) a) :
    Reads d outer (.object fields) a := by
  rw [Reads, cut, depth]
  split
  next hlimit => exact (h hlimit).trans (within_congr (by omega) a)
  next hlimit => rw [hflawed, within_of_not (by omega)]

/-- A value is changed behind its decoder. -/
theorem Reads.map {d : Decoder α} {outer : Nat} {j : Json} {a : α} (h : Reads d outer j a)
    (f : α → β) : Reads (fun j => (d j).map f) outer j (f a) := by
  rw [Reads] at h ⊢
  simp only [h, map_within]

/-- Items are read one after the other. -/
theorem mapM_cutItems {item : Decoder α} {outer : Nat} {items : List Json} {as : List α}
    (ho : outer ≤ nestingLimit) (h : List.Forall₂ (Reads item outer) items as) :
    (cutItems outer items).mapM item =
      within (outer + itemsDepth items ≤ nestingLimit) as := by
  induction h with
  | nil => exact (within_of_fits ho []).symm
  | @cons j a items as hfirst hrest ih =>
    rw [Reads] at hfirst
    rw [cutItems, List.mapM_cons, hfirst, ih, itemsDepth]
    exact within_bind (q := outer + itemsDepth items ≤ nestingLimit)
      (fun _ => within_bind_ok fun _ => rfl) (by omega)

/-- A list is read from its items. -/
theorem reads_list {item : Decoder α} {outer : Nat} {items : List Json} {as : List α}
    (h : outer < nestingLimit → List.Forall₂ (Reads item (outer + 1)) items as) :
    Reads (list item) outer (.array items) as :=
  reads_array rfl fun hlimit => mapM_cutItems hlimit (h hlimit)

/-- A pair is read from its parts. -/
theorem reads_pair {first : Decoder α} {second : Decoder β} {outer : Nat} {j k : Json} {a : α}
    {b : β} (hfirst : outer < nestingLimit → Reads first (outer + 1) j a)
    (hsecond : outer < nestingLimit → Reads second (outer + 1) k b) :
    Reads (pair first second) outer (.array [j, k]) (a, b) := by
  refine reads_array rfl fun hlimit => ?_
  have ha : first (j.cut (outer + 1)) = _ := hfirst hlimit
  have hb : second (k.cut (outer + 1)) = _ := hsecond hlimit
  simp only [cutItems, pair, ha, hb, itemsDepth]
  exact within_bind (q := outer + 1 + k.depth ≤ nestingLimit)
    (fun _ => within_bind_ok fun _ => rfl) (by omega)

/-- A tree that is read whole is kept. -/
theorem reads_whole {outer : Nat} {j : Json} (hj : j.isWritable = true)
    (ho : outer ≤ nestingLimit) : Reads whole outer j j := by
  rw [Reads, whole, isSound_cut j outer hj ho]
  by_cases hfits : outer + j.depth ≤ nestingLimit
  · rw [if_pos (decide_eq_true hfits), within_of_fits hfits, cut_of_fits j outer hfits]
  · rw [if_neg (by simpa using hfits), within_of_not hfits]

/-- Fields that a decoder keeps for later, one behind the other, are all read whole. -/
theorem foldlM_whole {step : α → String × Json → Except DecodeError α}
    (keep : α → List (String × Json) → α) (hnil : ∀ a, keep a [] = a)
    (happend : ∀ a fields later, keep (keep a fields) later = keep a (fields ++ later))
    {outer : Nat} {fields : List (String × Json)} (ho : outer ≤ nestingLimit)
    (hw : fieldsWritable fields = true)
    (hstep : ∀ a j, ∀ f ∈ fields, step a (f.1, j) = (whole j).map fun w => keep a [(f.1, w)])
    (a : α) :
    (cutFields outer fields).foldlM step a =
      within (outer + fieldsDepth fields ≤ nestingLimit) (keep a fields) := by
  induction fields generalizing a with
  | nil =>
    rw [hnil]
    exact (within_of_fits ho a).symm
  | cons f rest ih =>
    obtain ⟨name, j⟩ := f
    rw [fieldsWritable, Bool.and_eq_true] at hw
    have hfirst := hstep a (j.cut outer) (name, j) List.mem_cons_self
    have hread : whole (j.cut outer) = _ := reads_whole hw.1 ho
    have hrest := ih hw.2 (fun a k f hf => hstep a k f (List.mem_cons_of_mem _ hf))
      (keep a [(name, j)])
    rw [happend, List.singleton_append] at hrest
    rw [cutFields, List.foldlM_cons, hfirst, hread, map_within, fieldsDepth]
    exact within_bind (q := outer + fieldsDepth rest ≤ nestingLimit) (fun _ => hrest) (by omega)

/-- A value that may be null is read from an object, which is never null. -/
theorem reads_nullable {value : Decoder α} {outer : Nat} {fields : List (String × Json)} {a : α}
    (h : Reads value outer (.object fields) a) :
    Reads (nullable value) outer (.object fields) (some a) := by
  have hnull : (Json.object fields).cut outer ≠ .null := by
    rw [cut]
    split <;> exact Json.noConfusion
  rw [Reads] at h ⊢
  rw [nullable]
  · rw [h, map_within]
  · exact hnull

/-- A field that was not given before is read. -/
theorem once_reads {value : Decoder α} {outer : Nat} {j : Json} {a : α}
    (h : Reads value outer j a) :
    once none value (j.cut outer) = within (outer + j.depth ≤ nestingLimit) (some a) := by
  rw [Reads] at h
  rw [once, h, map_within]

/-- A text with the tokens of a tree is decoded as what the tree is read as. -/
theorem ofText_of_tokens {d : Decoder α} {text : String} {j : Json} {a : α}
    (htext : tokens text = j.toTokens) (h : Reads d 0 j a) :
    ofText d text = within (j.depth ≤ nestingLimit) a := by
  rw [Reads, Nat.zero_add] at h
  rw [ofText, read_of_tokens htext]
  simp only [h]
  exact within_bind_ok fun _ => rfl

/-- A document written compactly is read back. -/
theorem ofText_toText {d : Decoder α} {j : Json} {a : α} (hj : j.isWritable = true)
    (h : Reads d 0 j a) : ofText d j.toText = within (j.depth ≤ nestingLimit) a :=
  ofText_of_tokens (tokens_toText hj) h

/-- A document written on lines of their own is read back. -/
theorem ofText_toIndentedText {d : Decoder α} {j : Json} {a : α} (hj : j.isWritable = true)
    (h : Reads d 0 j a) : ofText d j.toIndentedText = within (j.depth ≤ nestingLimit) a :=
  ofText_of_tokens (tokens_toIndentedText hj) h

/-- The texts of a document, on one line and on lines of their own, are decoded as a value if the
containers of the document lie at most as deep in each other as the nesting limit allows. If they lie
deeper the texts are decoded as nothing. -/
def ReadsBack (d : Decoder α) (j : Json) (a : α) : Prop :=
  (j.depth ≤ nestingLimit → ofText d j.toText = .ok a ∧ ofText d j.toIndentedText = .ok a) ∧
    (nestingLimit < j.depth →
      ofText d j.toText = .error .malformed ∧ ofText d j.toIndentedText = .error .malformed)

/-- What is read from a document is read back from its texts. -/
theorem Reads.readsBack {d : Decoder α} {j : Json} {a : α} (h : Reads d 0 j a)
    (hj : j.isWritable = true) : ReadsBack d j a := by
  have hline := ofText_toText hj h
  have hlines := ofText_toIndentedText hj h
  constructor
  · intro hfits
    rw [hline, hlines, within_of_fits hfits]
    exact ⟨rfl, rfl⟩
  · intro hdeep
    rw [hline, hlines, within_of_not (Nat.not_le.mpr hdeep)]
    exact ⟨rfl, rfl⟩

end TypedModel.Decoder
