import TypedModel.Proofs.Log.RoundTrip
import TypedModel.Proofs.Text.Octets

/-!
# The order of fields

A log line writes its fields sorted by name. Fields that are named apart can be sorted in one way
only, so the line is the same in whatever order they are passed. Names are sorted by their octets,
since these are ordered as the characters are.
-/

namespace TypedModel.LogLine

open Text

/-! ## Sorted fields -/

/-- Fields are sorted so that no name stands behind a greater one. -/
theorem pairwise_sortedFields (l : LogLine) :
    l.sortedFields.Pairwise fun f g => ¬ g.1 < f.1 := by
  have htrans (e f g : String × String) (hef : (!decide (f.1 < e.1)) = true)
      (hfg : (!decide (g.1 < f.1)) = true) : (!decide (g.1 < e.1)) = true := by
    simp only [Bool.not_eq_true', decide_eq_false_iff_not, String.not_lt] at hef hfg ⊢
    exact String.le_trans hef hfg
  have htotal (f g : String × String) :
      ((!decide (g.1 < f.1)) || !decide (f.1 < g.1)) = true := by
    simp only [Bool.or_eq_true, Bool.not_eq_true', decide_eq_false_iff_not, String.not_lt]
    exact String.le_total f.1 g.1
  refine (List.pairwise_mergeSort htrans htotal l.fields).imp fun {f g} hfg => ?_
  simpa using hfg

/-- Fields that are named apart are sorted as entries are: their names strictly ascend. -/
theorem isSorted_sortedFields {l : LogLine} (h : (l.fields.map Prod.fst).Nodup) :
    Entries.IsSorted l.sortedFields := by
  have hperm : l.sortedFields.Perm l.fields := List.mergeSort_perm l.fields _
  have hapart : (l.sortedFields.map Prod.fst).Nodup := (hperm.map Prod.fst).nodup_iff.mpr h
  have hne : l.sortedFields.Pairwise fun f g => f.1 ≠ g.1 := List.pairwise_map.mp hapart
  refine (l.pairwise_sortedFields.and hne).imp fun {f g} hfg => ?_
  exact Std.lt_of_le_of_ne (String.not_lt.mp hfg.1) hfg.2

/-- Fields that are named apart are sorted alike in whatever order they are passed. -/
theorem sortedFields_eq_of_perm {l m : LogLine} (h : (l.fields.map Prod.fst).Nodup)
    (hperm : m.fields.Perm l.fields) : m.sortedFields = l.sortedFields := by
  have hm : (m.fields.map Prod.fst).Nodup := (hperm.map Prod.fst).nodup_iff.mpr h
  have hsorted : m.sortedFields.Perm l.sortedFields :=
    (List.mergeSort_perm m.fields _).trans (hperm.trans (List.mergeSort_perm l.fields _).symm)
  exact Entries.eq_of_perm (isSorted_sortedFields hm) (isSorted_sortedFields h) hsorted

/-! ## The line -/

/-- Fields behind the first one are written behind commas. -/
theorem renderFields_cons (f : String × String) (rest : List (String × String)) :
    renderFields (f :: rest) = renderField f ++ rest.flatMap fun g => ',' :: renderField g := by
  induction rest generalizing f with
  | nil => exact (List.append_nil _).symm
  | cons g rest ih =>
    rw [renderFields, ih g, List.flatMap_cons, List.cons_append]
    exact List.cons_ne_nil g rest

/-- The text of a line: the event, the severity, and the sorted fields behind commas. -/
theorem toList_render_eq (l : LogLine) :
    l.render.toList =
      '{' :: (renderField ("event", l.event) ++ ',' :: (renderField ("severity", l.severity.name) ++
        ((l.sortedFields.flatMap fun f => ',' :: renderField f) ++ ['}', '\n']))) := by
  rw [render, String.toList_ofList, writtenFields, renderFields_cons, List.flatMap_cons]
  simp only [List.cons_append, List.append_assoc]

/-- The order in which fields are passed does not show. Lines with the same event and severity whose
fields are named apart and are the same up to their order are one text: the event first, the
severity next, and then the fields with their names ascending octet by octet. It is the document of
these fields in this order. -/
theorem line_independent_of_order (severity : Severity) (event : String)
    (fields : List (String × String)) (hapart : (fields.map Prod.fst).Nodup) :
    (∀ passed : List (String × String), passed.Perm fields →
      render ⟨severity, event, passed⟩ = render ⟨severity, event, fields⟩) ∧
    ∃ sorted : List (String × String), sorted.Perm fields ∧
      (sorted.Pairwise fun f g => f.1.toUTF8.toList < g.1.toUTF8.toList) ∧
      (render ⟨severity, event, fields⟩).toList =
        '{' :: (renderField ("event", event) ++ ',' :: (renderField ("severity", severity.name) ++
          ((sorted.flatMap fun f => ',' :: renderField f) ++ ['}', '\n']))) ∧
      Json.parse? (render ⟨severity, event, fields⟩) =
        some (.object (("event", .string event) :: ("severity", .string severity.name) ::
          sorted.map fun f => (f.1, .string f.2))) := by
  let line : LogLine := ⟨severity, event, fields⟩
  constructor
  · intro passed hperm
    have hsame : sortedFields ⟨severity, event, passed⟩ = line.sortedFields :=
      @sortedFields_eq_of_perm line _ hapart hperm
    rw [render, render, writtenFields, writtenFields, hsame]
  · have hascending : line.sortedFields.Pairwise fun f g =>
        f.1.toUTF8.toList < g.1.toUTF8.toList :=
      (@isSorted_sortedFields line hapart).imp octets_lt_iff.mpr
    exact ⟨line.sortedFields, List.mergeSort_perm fields _, hascending, line.toList_render_eq,
      line.parse?_render⟩

/-- Capitals stand in front of small letters, and a character of three octets in front of one of
four. -/
theorem line_independent_of_order_letters :
    let line := render ⟨.warn, "TEST", [("𐀀", "3"), ("\uffee", "2"), ("a", "1"), ("Z", "0")]⟩
    render ⟨.warn, "TEST", [("Z", "0"), ("𐀀", "3"), ("a", "1"), ("\uffee", "2")]⟩ = line ∧
      Json.parse? line = some (.object [("event", .string "TEST"), ("severity", .string "WARN"),
        ("Z", .string "0"), ("a", .string "1"), ("\uffee", .string "2"), ("𐀀", .string "3")]) := by
  intro line
  obtain ⟨hsame, sorted, hperm, hascending, -, hdocument⟩ := line_independent_of_order .warn "TEST"
    [("𐀀", "3"), ("\uffee", "2"), ("a", "1"), ("Z", "0")] (by decide)
  have hnames : Entries.IsSorted [("Z", "0"), ("a", "1"), ("\uffee", "2"), ("𐀀", "3")] := by
    unfold Entries.IsSorted
    decide
  rw [Entries.eq_of_perm (hascending.imp octets_lt_iff.mp) hnames (hperm.trans (by decide))]
    at hdocument
  exact ⟨hsame _ (by decide), hdocument⟩

end TypedModel.LogLine
