import TypedModel.Proofs.Coercion.Rejection

/-!
# What a rejection says

The message of a rejection is made of the texts of its details, and there a field that is not given
is told by what was found: the word `missing`. An instance is told by the name of its record, and
that may be any word. So the message tells a field that is not given where there is one, and also
where an instance of a record of that name clashes. All other rejections tell both kinds.
-/

namespace TypedModel

namespace ValidationDetails

variable {d : ValidationDetails}

theorem display_of_missing (h : d.actual = "missing") :
    d.display = s!"Missing required field `{d.field}`" := by
  rw [display, if_pos h]

/-- All other details tell both kinds, behind the place if it has a text. -/
theorem display_of_found (h : d.actual ≠ "missing") :
    d.display = (if d.field = "" then "" else s!"Invalid value for `{d.field}`: ") ++
      s!"Expected {d.expected}, but got {d.actual}" := by
  rw [display, if_neg h]

/-- Details tell that a field is not given just if it was found as `missing`. -/
theorem display_eq_missing_iff {p : String} :
    d.display = s!"Missing required field `{p}`" ↔ d.actual = "missing" ∧ d.field = p := by
  constructor
  · intro h
    by_cases hactual : d.actual = "missing"
    · rw [display_of_missing hactual] at h
      have hfront := (String.append_left_inj _).mp h
      have hfield := (String.append_right_inj _).mp hfront
      exact ⟨hactual, hfield⟩
    · rw [display_of_found hactual] at h
      -- the texts differ in their first letter, behind a place and without one
      have hfirst := congrArg (fun s => s.toList.head?) h
      split at hfirst <;> simp [toString] at hfirst
  · intro h
    rw [display_of_missing h.1, h.2]

end ValidationDetails

/-- Only instances of a record of that name are found as `missing`. -/
theorem Value.kindName_eq_missing_iff {v : Value} :
    v.kindName = "missing" ↔ ∃ fields, v = .record ⟨"missing", fields⟩ := by
  cases v with
  | record r =>
    obtain ⟨name, fields⟩ := r
    simp [kindName]
  | _ => simp [kindName]

namespace TypeHint

theorem coerce_eq_error_iff {h : TypeHint} {v : Value} {e : SchemaError} (hv : v.WellFormed) :
    h.coerce v = .error e ↔ ∃ r, Offence h v r ∧ r.toSchemaError = e := by
  simp only [← coerce?_eq_error_iff hv, coerce]
  cases h.coerce? v <;> simp [Except.mapError]

/-- Every rejection has one cause, and its message tells which, instances of a record named
`missing` apart. The message tells that the field of a path is not given where it is a required
field that is not given, or where such an instance clashes at the path; for any other value that
clashes it tells the kinds of hint and value, behind the path if that has a text. -/
theorem rejection_message_tells_cause (h : TypeHint) (v : Value) (e : SchemaError)
    (hv : v.WellFormed) (he : h.coerce v = .error e) :
    (∃ r, Offence h v r ∧ ∀ other, Offence h v other → other = r) ∧
      (∀ p : String, e.message = s!"Missing required field `{p}`" ↔
        (∃ path, Offence h v (.missing path) ∧ Path.render path = p) ∨
          ∃ path g fields, Offence h v (.clash path g (.record ⟨"missing", fields⟩)) ∧
            Path.render path = p) ∧
      ∀ path g x, Offence h v (.clash path g x) → (∀ fields, x ≠ .record ⟨"missing", fields⟩) →
        e.message =
          (if Path.render path = "" then "" else s!"Invalid value for `{Path.render path}`: ") ++
            s!"Expected {g.kindName}, but got {x.kindName}" := by
  obtain ⟨r, hr, rfl⟩ := (coerce_eq_error_iff hv).mp he
  have hunique : ∀ other, Offence h v other → other = r :=
    fun other hother => Offence.unique hv hother hr
  have hmessage : r.toSchemaError.message = r.details.display := rfl
  refine ⟨⟨r, hr, hunique⟩, fun p => ?_, fun path g x hclash hx => ?_⟩
  · rw [hmessage, ValidationDetails.display_eq_missing_iff]
    constructor
    · intro htold
      cases r with
      | missing path => exact .inl ⟨path, hr, htold.2⟩
      | clash path g x =>
        obtain ⟨fields, rfl⟩ := Value.kindName_eq_missing_iff.mp htold.1
        exact .inr ⟨path, g, fields, hr, htold.2⟩
    · intro hcause
      rcases hcause with ⟨path, hmissing, hp⟩ | ⟨path, g, fields, hclash, hp⟩
      · rw [← hunique _ hmissing]
        exact ⟨rfl, hp⟩
      · rw [← hunique _ hclash]
        exact ⟨rfl, hp⟩
  · have hkind : x.kindName ≠ "missing" := fun hnamed =>
      (Value.kindName_eq_missing_iff.mp hnamed).elim hx
    rw [hmessage, ← hunique _ hclash]
    exact ValidationDetails.display_of_found hkind

/-- A message without its content behind a complete one: the field of the first one that lacks it is
told. -/
theorem rejection_message_tells_cause_messages :
    let h := TypeHint.list (.record ⟨"Message",
      [⟨"role", .scalar .str, Option.none⟩, ⟨"content", .scalar .str, Option.none⟩]⟩)
    let v := Value.list [.map [("content", .str "hi"), ("role", .str "user")],
      .map [("role", .str "user")]]
    let e := SchemaError.invalidInput (.missingField "[1].content")
    v.WellFormed ∧ h.coerce v = .error e ∧
      ∃ path, Offence h v (.missing path) ∧ Path.render path = "[1].content" := by
  intro h v e
  have hv : v.WellFormed := by
    have hcomplete : Entries.IsSorted [("content", Value.str "hi"), ("role", .str "user")] := by
      simp only [Entries.IsSorted, List.pairwise_pair]
      decide
    have hlacking : Entries.IsSorted [("role", Value.str "user")] := List.pairwise_singleton _ _
    simp only [v, Value.WellFormed, Value.ItemsWellFormed, Value.EntriesWellFormed, hcomplete,
      hlacking, and_self]
  have he : h.coerce v = .error e := rfl
  obtain ⟨-, htold, -⟩ := rejection_message_tells_cause h v e hv he
  rcases (htold "[1].content").mp rfl with hmissing | ⟨path, g, fields, hclash, -⟩
  · exact ⟨hv, he, hmissing⟩
  · have hrejected := (coerce?_eq_error_iff hv).mpr hclash
    cases hrejected

/-- Here nothing is missing but the right kind. -/
example : ((TypeHint.scalar .int).coerce (.record ⟨"missing", []⟩)).mapError SchemaError.message =
    .error "Missing required field ``" := rfl

end TypeHint

end TypedModel
