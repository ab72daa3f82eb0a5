import TypedModel.Value.Basic
import Mathlib.Logic.Relation

/-!
# Parts of values

What lies in a value: the items of a list, the values of a map, the values of the fields of a record
instance and the cells of a frame, and what lies in those, at any depth.
-/

namespace TypedModel.Value

/-- What lies immediately in a value. -/
inductive HasPart : Value → Value → Prop
  /-- An item of a list. -/
  | item {items : List Value} {x : Value} (h : x ∈ items) : HasPart (.list items) x
  /-- A value of a map. -/
  | entry {entries : Entries Value} {e : String × Value} (h : e ∈ entries) :
    HasPart (.map entries) e.2
  /-- The value of a field of a record instance. -/
  | field {r : Record} {f : String × Value} (h : f ∈ r.fields) : HasPart (.record r) f.2
  /-- A cell of a frame. -/
  | cell {f : Frame} {row : List Value} {x : Value} (hrow : row ∈ f.rows) (h : x ∈ row) :
    HasPart (.frame f) x

/-- Whether the second value is the first one or lies in it at some depth. -/
def Holds : Value → Value → Prop := Relation.ReflTransGen HasPart

theorem sizeOf_lt_of_mem_entries {entries : List (String × Value)} {e : String × Value}
    (he : e ∈ entries) : sizeOf e.2 < sizeOf entries := by
  have hentry := List.sizeOf_lt_of_mem he
  have hvalue : sizeOf e = 1 + sizeOf e.1 + sizeOf e.2 := rfl
  omega

/-- A part is smaller than the value it lies in. -/
theorem HasPart.sizeOf_lt {v x : Value} (h : v.HasPart x) : sizeOf x < sizeOf v := by
  cases h with
  | item h =>
    have hitem := List.sizeOf_lt_of_mem h
    simp only [list.sizeOf_spec]
    omega
  | entry h =>
    have hentry := sizeOf_lt_of_mem_entries h
    simp only [map.sizeOf_spec]
    omega
  | @field r f h =>
    obtain ⟨name, fields⟩ := r
    have hfield : sizeOf f.2 < sizeOf fields := sizeOf_lt_of_mem_entries h
    simp only [record.sizeOf_spec, Record.mk.sizeOf_spec]
    omega
  | @cell f row x hrow h =>
    obtain ⟨columns, rows⟩ := f
    have hcell := List.sizeOf_lt_of_mem h
    have hline : sizeOf row < sizeOf rows := List.sizeOf_lt_of_mem hrow
    simp only [frame.sizeOf_spec, Frame.mk.sizeOf_spec]
    omega

/-- What holds of a value if it holds of all that lies immediately in it holds of every value. -/
@[elab_as_elim]
theorem partInduction {motive : Value → Prop}
    (step : ∀ v : Value, (∀ x, v.HasPart x → motive x) → motive v) (v : Value) : motive v :=
  step v fun x hx =>
    have := hx.sizeOf_lt
    partInduction step x
termination_by sizeOf v

end TypedModel.Value
