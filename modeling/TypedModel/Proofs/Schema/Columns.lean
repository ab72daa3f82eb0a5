import TypedModel.Schema.Columns

/-!
# The first missing column

A frame or a map is refused for the first column of a schema, in the order of the schema, that is
required, has a name, and is not among the columns of the frame or the names of the map.
-/

namespace TypedModel.Schema

/-- Among some columns, one is required and absent, and those required before it are present. -/
def FirstAbsent (columns : List ColSpec) (present : List String) (column : String) : Prop :=
  ∃ before c after, columns = before ++ c :: after ∧
    c.required = true ∧ c.name = some column ∧ column ∉ present ∧
    ∀ b ∈ before, b.required = true → ∀ name, b.name = some name → name ∈ present

/-- A frame or a map lacks a required named column, and has all required named columns before it. -/
def FirstMissing (s : Schema) (v : Value) (column : String) : Prop :=
  ∃ present, v.columnNames? = some present ∧ FirstAbsent s.columns present column

variable {columns : List ColSpec} {present : List String} {column : String}

/-- The name of a column that has to be present. -/
theorem requiredName?_eq_some_iff {c : ColSpec} {name : String} :
    requiredName? c = some name ↔ c.required = true ∧ c.name = some name := by
  unfold requiredName?
  split
  next h => simp [h]
  next h => simp [h]

/-- A column in front that is present, or need not be, does not matter. -/
theorem FirstAbsent.cons {first : ColSpec}
    (hfirst : ∀ name, requiredName? first = some name → name ∈ present)
    (h : FirstAbsent columns present column) : FirstAbsent (first :: columns) present column := by
  obtain ⟨before, c, after, hcolumns, hrequired, hname, hmissing, hbefore⟩ := h
  refine ⟨first :: before, c, after, by rw [hcolumns]; rfl, hrequired, hname, hmissing, ?_⟩
  intro b hb hb' name hbname
  rcases List.mem_cons.mp hb with rfl | hb
  · exact hfirst name (requiredName?_eq_some_iff.mpr ⟨hb', hbname⟩)
  · exact hbefore b hb hb' name hbname

/-- A name that the search finds is that of the first absent column. -/
theorem firstAbsent_of_find?
    (h : (columns.filterMap requiredName?).find? (fun name => !present.contains name) =
      some column) : FirstAbsent columns present column := by
  induction columns with
  | nil => cases h
  | cons first rest ih =>
    cases hfirst : requiredName? first with
    | none =>
      rw [List.filterMap_cons_none hfirst] at h
      exact .cons (by simp [hfirst]) (ih h)
    | some name =>
      rw [List.filterMap_cons_some hfirst] at h
      by_cases hpresent : name ∈ present
      · rw [List.find?_cons_of_neg (by simpa using hpresent)] at h
        exact .cons (by simpa [hfirst] using hpresent) (ih h)
      · rw [List.find?_cons_of_pos (by simpa using hpresent)] at h
        cases h
        obtain ⟨hrequired, hname⟩ := requiredName?_eq_some_iff.mp hfirst
        exact ⟨[], first, rest, rfl, hrequired, hname, hpresent, nofun⟩

/-- The search finds the first absent column. -/
theorem find?_of_firstAbsent (h : FirstAbsent columns present column) :
    (columns.filterMap requiredName?).find? (fun name => !present.contains name) =
      some column := by
  obtain ⟨before, c, after, rfl, hrequired, hname, hmissing, hbefore⟩ := h
  induction before with
  | nil =>
    rw [List.nil_append,
      List.filterMap_cons_some (requiredName?_eq_some_iff.mpr ⟨hrequired, hname⟩)]
    exact List.find?_cons_of_pos (by simpa using hmissing)
  | cons first rest ih =>
    have hrest := ih fun b hb => hbefore b (List.mem_cons_of_mem first hb)
    cases hfirst : requiredName? first with
    | none => rwa [List.cons_append, List.filterMap_cons_none hfirst]
    | some name =>
      obtain ⟨hfirst', hname'⟩ := requiredName?_eq_some_iff.mp hfirst
      have hpresent := hbefore first List.mem_cons_self hfirst' name hname'
      rw [List.cons_append, List.filterMap_cons_some hfirst,
        List.find?_cons_of_neg (by simpa using hpresent)]
      exact hrest

/-- A value that lacks a required column is refused for the first such column. -/
theorem enforce_of_firstMissing {s : Schema} {v : Value} (h : s.FirstMissing v column) :
    s.enforce v = .error (.invalidInput (.missingField column)) := by
  obtain ⟨present, hpresent, hfirst⟩ := h
  have hmissing : s.missingColumn? present = some column := find?_of_firstAbsent hfirst
  simp only [enforce, hpresent, hmissing]

/-- A value that lacks no required column is taken. -/
theorem enforce_of_forall_not {s : Schema} {v : Value} (h : ∀ column, ¬ s.FirstMissing v column) :
    s.enforce v = .ok () := by
  unfold enforce
  split
  next => rfl
  next present hpresent =>
    split
    next column hmissing =>
      exact absurd ⟨present, hpresent, firstAbsent_of_find? hmissing⟩ (h column)
    next => rfl

end TypedModel.Schema
