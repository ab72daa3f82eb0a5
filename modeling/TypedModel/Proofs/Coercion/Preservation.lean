import TypedModel.Proofs.Coercion.Idempotent
import TypedModel.Proofs.Double.Nearest
import TypedModel.Proofs.Value.Typing

/-!
# What coercion keeps

Coercion adds nothing to a value and takes nothing from it but names that no field has. What it may
do is said without regard to the hint, of which only the record definitions are left, since a default
has to be declared in one of them. The main statement is that every coerced value came of the given
one by these steps, and that only integers, lists and maps are ever changed.
-/

namespace TypedModel

mutual

/-- Whether a value keeps the data of a given one, all defaults in it being declared by record
definitions. -/
inductive Keeps (definitions : List RecordDef) : Value → Value → Prop
  /-- Any value is left as it is. -/
  | same (v : Value) : Keeps definitions v v
  /-- An integer becomes the double to which it is rounded. -/
  | widened {n : Int64} {x : Double} (h : x.IsNearest n.toInt) : Keeps definitions (.long n) (.double x)
  /-- A list keeps its items in their order. -/
  | items {given results : List Value} (h : List.Forall₂ (Keeps definitions) given results) :
    Keeps definitions (.list given) (.list results)
  /-- A map keeps its names and what is under them. -/
  | entries {given results : Entries Value} (hnames : results.map Prod.fst = given.map Prod.fst)
    (hvalues : List.Forall₂ (Keeps definitions) (given.map Prod.snd) (results.map Prod.snd)) :
    Keeps definitions (.map given) (.map results)
  /-- A map becomes an instance of a record. -/
  | built {d : RecordDef} {given : Entries Value} {values : List (String × Value)}
    (hd : d ∈ definitions) (h : FieldsKeep definitions given d.fields values) :
    Keeps definitions (.map given) (.record ⟨d.name, values⟩)

/-- Whether the fields of an instance keep what a map has under their names. -/
inductive FieldsKeep (definitions : List RecordDef) :
    Entries Value → List FieldSpec → List (String × Value) → Prop
  /-- No field is left. -/
  | done (given : Entries Value) : FieldsKeep definitions given [] []
  /-- A field keeps what is under its name. -/
  | given {given : Entries Value} {f : FieldSpec} {rest : List FieldSpec} {value result : Value}
    {others : List (String × Value)} (hget : given.get? f.name = some value)
    (h : Keeps definitions value result) (later : FieldsKeep definitions given rest others) :
    FieldsKeep definitions given (f :: rest) ((f.name, result) :: others)
  /-- A field whose name is absent carries its default. -/
  | default {given : Entries Value} {f : FieldSpec} {rest : List FieldSpec} {value : Value}
    {others : List (String × Value)} (hget : given.get? f.name = none)
    (hdefault : f.default? = some value) (later : FieldsKeep definitions given rest others) :
    FieldsKeep definitions given (f :: rest) ((f.name, value) :: others)

end

/-- Only integers, lists and maps are ever changed. -/
theorem Keeps.eq {definitions : List RecordDef} {v w : Value} (h : Keeps definitions v w)
    (hlong : v.long? = none) (hitems : v.items? = none) (hentries : v.entries? = none) : w = v := by
  cases h with
  | same => rfl
  | widened _ => cases hlong
  | items _ => cases hitems
  | entries _ _ => cases hentries
  | built _ _ => cases hentries

/-- Integers of 64 bits are rounded to their doubles. -/
theorem isNearest_ofInt_toInt (n : Int64) : (Double.ofInt n.toInt).IsNearest n.toInt := by
  have hlow := n.le_toInt
  have hhigh := n.toInt_lt
  exact Double.isNearest_ofInt (by omega)

namespace TypeHint

open Sequence

/-! ## Record definitions within a hint -/

mutual

/-- The definitions within the fields of a definition that a value may meet under a hint may be met
as well. -/
theorem fieldDefinitions_subset : ∀ (h : TypeHint) {d : RecordDef}, d ∈ h.definitions →
    fieldDefinitions d.fields ⊆ h.definitions
  | .list element, _, hd => fieldDefinitions_subset element hd
  | .dict _ element, _, hd => fieldDefinitions_subset element hd
  | .union members, _, hd => fieldDefinitions_subset_members members hd
  | .record ⟨name, fields⟩, d, hd => by
    rcases List.mem_cons.mp hd with rfl | hd
    · exact List.subset_cons_self _ _
    · exact List.Subset.trans (fieldDefinitions_subset_fields fields hd)
        (List.subset_cons_self _ _)

/-- The same within the members of a union. -/
theorem fieldDefinitions_subset_members : ∀ (members : List TypeHint) {d : RecordDef},
    d ∈ memberDefinitions members → fieldDefinitions d.fields ⊆ memberDefinitions members
  | member :: rest, d, hd => by
    rcases List.mem_append.mp hd with hd | hd
    · exact List.Subset.trans (fieldDefinitions_subset member hd) (List.subset_append_left _ _)
    · exact List.Subset.trans (fieldDefinitions_subset_members rest hd)
        (List.subset_append_right _ _)

/-- The same within the hints of fields. -/
theorem fieldDefinitions_subset_fields : ∀ (fields : List FieldSpec) {d : RecordDef},
    d ∈ fieldDefinitions fields → fieldDefinitions d.fields ⊆ fieldDefinitions fields
  | ⟨_, hint, _⟩ :: rest, d, hd => by
    rcases List.mem_append.mp hd with hd | hd
    · exact List.Subset.trans (fieldDefinitions_subset hint hd) (List.subset_append_left _ _)
    · exact List.Subset.trans (fieldDefinitions_subset_fields rest hd)
        (List.subset_append_right _ _)

end

/-! ## Rewriting keeps data -/

section

variable {ds : List RecordDef}

/-- Fields that are built from a map keep what it has under their names, if all that is rewritten
within the map does. -/
theorem fieldsKeep_of_plainFields {given : Entries Value} (hfree : ∀ e ∈ given, e.2.frameFree = true)
    (hkeeps : ∀ e ∈ given, ∀ w, Rewrites ds e.2 w → Keeps ds e.2 w)
    {fields : List FieldSpec} (hd : fieldDefinitions fields ⊆ ds) {values : List (String × Value)}
    (h : plainFields fields given = some values) : FieldsKeep ds given fields values := by
  induction fields generalizing values with
  | nil =>
    cases h
    exact .done given
  | cons f rest ih =>
    obtain ⟨name, hint, default?⟩ := f
    obtain ⟨hhint, hrest⟩ := List.append_subset.mp hd
    obtain ⟨value, others, rfl, hvalue, hothers⟩ := plainFields_cons_eq_some_iff.mp h
    have hlater := ih hrest hothers
    cases hget : given.get? name with
    | none =>
      rw [hget] at hvalue
      exact .default hget hvalue hlater
    | some found =>
      rw [hget] at hvalue
      have hmem : (name, found) ∈ given := Entries.mem_of_get? hget
      have hrewrites : Rewrites ds found value :=
        rewrites_of_plain hint hhint (hfree _ hmem) hvalue
      exact .given hget (hkeeps _ hmem _ hrewrites) hlater

/-- A value that is rewritten keeps its data. -/
theorem keeps_of_rewrites (hclosed : ∀ d ∈ ds, fieldDefinitions d.fields ⊆ ds) (v : Value) :
    v.frameFree = true → ∀ w, Rewrites ds v w → Keeps ds v w := by
  induction v using Value.inductionOnParts with
  | null =>
    rintro - w ⟨⟩
    exact .same _
  | frame f => exact nofun
  | scalar type v htype =>
    intro _ w h
    cases h with
    | unchanged => exact .same v
    | widened n => exact .widened (isNearest_ofInt_toInt n)
    | items _ | entries _ _ | built _ _ _ => cases type <;> cases htype
  | list items ih =>
    intro hfree w h
    have hfree := Value.itemsFrameFree_iff.mp hfree
    cases h with
    | unchanged => exact .same _
    | items h =>
      have hkeeps : ∀ x ∈ items, ∀ w, Rewrites ds x w → Keeps ds x w :=
        fun x hx => ih x hx (hfree x hx)
      have hitems := (List.forall₂_and_left _ _).mpr ⟨hkeeps, h⟩
      exact .items (hitems.imp fun x result ⟨hkeeps, hstep⟩ => hkeeps result hstep)
  | map entries ih =>
    intro hfree w h
    have hfree := Value.entriesFrameFree_iff.mp hfree
    have hkeeps : ∀ e ∈ entries, ∀ w, Rewrites ds e.2 w → Keeps ds e.2 w :=
      fun e he => ih e he (hfree e he)
    cases h with
    | unchanged => exact .same _
    | entries hnames hvalues =>
      have hbelow : ∀ x ∈ entries.map Prod.snd, ∀ w, Rewrites ds x w → Keeps ds x w :=
        List.forall_mem_map.mpr hkeeps
      have hresults := (List.forall₂_and_left _ _).mpr ⟨hbelow, hvalues⟩
      exact .entries hnames (hresults.imp fun x result ⟨hkeeps, hstep⟩ => hkeeps result hstep)
    | built d hd h => exact .built hd (fieldsKeep_of_plainFields hfree hkeeps (hclosed d hd) h)
  | record name fields _ =>
    rintro - w ⟨⟩
    exact .same _

end

/-- Coercion neither alters nor invents data. Where no frame can be reached, a coerced value came of
the given one by keeping what is there, with integers widened, maps made instances, and defaults that
the hint declares for absent names. So texts, octets, truth values, instants, null and instances, and
all else that is no integer, list or map, are never changed. -/
theorem coercion_keeps_data (h : TypeHint) (v w : Value) (hv : v.frameFree = true)
    (hc : h.coerce v = .ok w) :
    Keeps h.definitions v w ∧
      (v.long? = Option.none → v.items? = Option.none → v.entries? = Option.none → w = v) := by
  have hrewrites := rewrites_of_plain h (List.Subset.refl _) hv (coerce_eq_ok_iff.mp hc)
  have hkeeps := keeps_of_rewrites (fun d hd => fieldDefinitions_subset h hd) v hv w hrewrites
  exact ⟨hkeeps, hkeeps.eq⟩

/-- Orders of two forms: one is an instance already and stays, the other one lacks its note, has a
name that no field has, and a list whose second item alone is wide. -/
theorem coercion_keeps_data_orders :
    let order : RecordDef := ⟨"Order", [⟨"prices", .list (.scalar .float), Option.none⟩,
      ⟨"note", .optional (.scalar .str), some .null⟩]⟩
    let h := TypeHint.dict (.scalar .str) (.union [.scalar .int, .record order])
    let known := Value.record ⟨"Order", [("prices", .list [.long 1])]⟩
    let given := Value.map [("a", known), ("b", .long 3),
      ("c", .map [("extra", .str "x"), ("prices", .list [.double (.zero true), .long 2])])]
    let result := Value.map [("a", known), ("b", .long 3),
      ("c", .record ⟨"Order", [("prices", .list [.double (.zero true), .double (.ofInt 2)]),
        ("note", .null)]⟩)]
    given.frameFree = true ∧ h.coerce given = .ok result ∧ Keeps h.definitions given result := by
  intro order h known given result
  have hc : h.coerce given = .ok result := rfl
  exact ⟨rfl, hc, (coercion_keeps_data h given result rfl hc).1⟩

end TypeHint

end TypedModel
