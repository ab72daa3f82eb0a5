import TypedModel.Log.Line
import TypedModel.Proofs.Entries
import TypedModel.Proofs.Json.Reads
import TypedModel.Proofs.Text.Hex

/-!
# Log lines read back

The text of a log line is a document of its own on one line, whatever its event, names and values
hold: each of them is escaped so that the scanner finds its end and none of them breaks the line.
So every line is read back from its text, and where the fields are named apart from each other and
from the event and the severity, it is read back as what was logged.
-/

namespace TypedModel

open Json Text Sequence Decoder

/-! ## One line -/

/-- No line break stands in a quoted string of a log line. -/
theorem Text.newline_notMem_quote (s : String) : '\n' ∉ quote .log s := by
  have hletters : ∀ p ∈ Escapes.log.letters, '\n' ≠ p.2 := by decide
  have hescaped (c : Char) : '\n' ∉ escapeChar .log c := by
    rw [escapeChar]
    cases hletter : Escapes.log.letters.lookup c with
    | some letter =>
      have hmem : (c, letter) ∈ Escapes.log.letters := mem_of_lookup hletter
      simpa using hletters (c, letter) hmem
    | none =>
      have hdigits := notMem_hexDigits (by decide : hexValue? '\n' = none) 4 c.toNat
      have hother : '\n' ≠ c := by
        rintro rfl
        cases hletter
      simp only
      split
      · simpa using hdigits
      · simpa using hother
  simpa [quote] using fun c _ => hescaped c

namespace LogLine

variable (l : LogLine)

/-- Written fields stand with commas between them. -/
theorem renderFields_eq (fields : List (String × String)) :
    renderFields fields = joinComma (fields.map renderField) := by
  induction fields using renderFields.induct with
  | case1 => rfl
  | case2 f => rfl
  | case3 f rest hne ih =>
    have hrest : rest.map renderField ≠ [] := by simpa using hne
    rw [renderFields, ih, List.map_cons, joinComma]
    · exact hrest
    · exact hne

/-- The text of a line in front of its line break. -/
def front : List Char := '{' :: (renderFields l.writtenFields ++ ['}'])

/-- A line is its text and one line break. -/
theorem toList_render : l.render.toList = l.front ++ ['\n'] := by
  rw [render, String.toList_ofList, front, List.cons_append, List.append_assoc]
  rfl

/-- No line break stands in front of the end of a line. -/
theorem newline_notMem_front : '\n' ∉ l.front := by
  have hfield (f : String × String) : '\n' ∉ renderField f := by
    have hname := newline_notMem_quote f.1
    have hvalue := newline_notMem_quote f.2
    simp [renderField, hname, hvalue]
  have hfields (fields : List (String × String)) : '\n' ∉ renderFields fields := by
    induction fields using renderFields.induct with
    | case1 => exact List.not_mem_nil
    | case2 f => exact hfield f
    | case3 f rest hne ih =>
      rw [renderFields]
      · simp [hfield, ih]
      · exact hne
  simp [front, hfields]

/-- Blanks at the end of a line are its line break alone. -/
theorem trimEnd_render : trimEnd l.render = String.ofList l.front := by
  have hbreak : isBlank '\n' = true := by decide
  have hend : isBlank '}' = false := by decide
  have hreverse : (l.front ++ ['\n']).reverse =
      '\n' :: '}' :: ('{' :: renderFields l.writtenFields).reverse := by
    simp [front]
  rw [trimEnd, toList_render, hreverse, List.dropWhile_cons_of_pos hbreak,
    List.dropWhile_cons_of_neg (by rw [hend]; exact Bool.false_ne_true)]
  simp [front]

/-! ## A document -/

/-- The document that the text of a line is: its fields as strings, in the order of the text. -/
def document : Json := .object (l.writtenFields.map fun f => (f.1, .string f.2))

/-- Tokens of fields that hold strings. -/
theorem fieldsToTokens_strings (fields : List (String × String)) :
    fieldsToTokens (fields.map fun f => (f.1, .string f.2)) =
      fields.map fun f => [.text (some f.1), .colon, .text (some f.2)] := by
  induction fields with
  | nil => rfl
  | cons f rest ih => rw [List.map_cons, fieldsToTokens, ih]; rfl

/-- The text of a line is scanned to the tokens of its document. -/
theorem scans_front : Scans l.front l.document.toTokens := by
  have hfields : List.Forall₂ Scans (l.writtenFields.map renderField)
      (l.writtenFields.map fun f => [.text (some f.1), .colon, .text (some f.2)]) := by
    rw [List.forall₂_map_left_iff, List.forall₂_map_right_iff, List.forall₂_same]
    exact fun f _ => scans_compactField undone_log f.1 (scans_quote undone_log f.2)
  have hjoined := scans_joinComma hfields
  rw [← renderFields_eq, ← fieldsToTokens_strings] at hjoined
  exact scans_enclosed rfl rfl rfl hjoined

/-- The tokens of a line are those of its document. -/
theorem tokens_render : tokens l.render = l.document.toTokens := by
  have hscan := scans_front l ['\n'] rfl
  rw [tokens, toList_render, hscan]
  exact List.append_nil _

/-- Without its line break a line has the same tokens. -/
theorem tokens_trimEnd_render : tokens (trimEnd l.render) = l.document.toTokens := by
  have hscan := scans_front l [] rfl
  rw [List.append_nil] at hscan
  rw [trimEnd_render, tokens, String.toList_ofList, hscan]
  exact List.append_nil _

/-- The document of a line holds strings only, one container deep. -/
theorem document_plain : l.document.isWritable = true ∧ l.document.depth = 1 := by
  have hfields (fields : List (String × String)) :
      fieldsWritable (fields.map fun f => (f.1, .string f.2)) = true ∧
        fieldsDepth (fields.map fun f => (f.1, .string f.2)) = 0 := by
    induction fields with
    | nil => exact ⟨rfl, rfl⟩
    | cons f rest ih =>
      rw [List.map_cons, fieldsWritable, fieldsDepth, ih.1, ih.2]
      exact ⟨rfl, rfl⟩
  obtain ⟨hwritable, hdepth⟩ := hfields l.writtenFields
  constructor
  · exact hwritable
  · rw [document, depth, hdepth]

/-- The text of a line is a document. -/
theorem parse?_render : Json.parse? l.render = some l.document := by
  have hread := parse?_of_tokens l.tokens_render l.document_plain.1
  rw [hread, l.document_plain.2]
  rfl

end LogLine

/-! ## What was logged -/

namespace CapturedLine

/-- Strings are decoded as entries. -/
theorem fieldsDecoder_strings (fields : List (String × String)) :
    fieldsDecoder (.object (fields.map fun f => (f.1, .string f.2))) =
      .ok (Entries.ofList fields) := by
  have hitems : (fields.map fun f => (f.1, Json.string f.2)).mapM
      (fun f => (Decoder.string f.2).map fun value => (f.1, value)) = .ok fields := by
    induction fields with
    | nil => rfl
    | cons f rest ih => rw [List.map_cons, List.mapM_cons, ih]; rfl
  rw [fieldsDecoder, hitems]
  rfl

variable {l : LogLine}

/-- The fields of a line are decoded from its text. -/
theorem ofText_render (l : LogLine) :
    Decoder.ofText fieldsDecoder (trimEnd l.render) = .ok (Entries.ofList l.writtenFields) := by
  have hfits : l.document.depth ≤ nestingLimit := by
    rw [l.document_plain.2]
    decide
  have hreads : Reads fieldsDecoder 0 l.document (Entries.ofList l.writtenFields) :=
    reads_of_fits (by omega) (fieldsDecoder_strings l.writtenFields)
  rw [ofText_of_tokens l.tokens_trimEnd_render hreads, within_of_fits hfits]

/-- The line that is read back from a written one: of fields with one name the last stays. -/
def ofLine (l : LogLine) : CapturedLine :=
  let fields := Entries.ofList l.writtenFields
  { event := (fields.get? "event").getD ""
    severity := (fields.get? "severity").getD ""
    fields := (fields.erase "event").erase "severity" }

/-- The event is among the written fields. -/
theorem event_mem_writtenFields (l : LogLine) : ("event", l.event) ∈ l.writtenFields :=
  List.mem_cons_self

/-- The severity is among the written fields. -/
theorem severity_mem_writtenFields (l : LogLine) :
    ("severity", l.severity.name) ∈ l.writtenFields :=
  List.mem_cons_of_mem _ List.mem_cons_self

/-- Every line is read back from its text. -/
theorem parse?_render (l : LogLine) : parse? l.render = some (ofLine l) := by
  obtain ⟨event, hevent, -⟩ := Entries.exists_get?_ofList (event_mem_writtenFields l)
  obtain ⟨severity, hseverity, -⟩ := Entries.exists_get?_ofList (severity_mem_writtenFields l)
  rw [parse?, ofText_render]
  simp [ofLine, hevent, hseverity, Except.toOption]

/-- A capture leaves out none of its lines. -/
theorem readBack_eq_map (lines : List LogLine) : readBack lines = lines.map ofLine := by
  have hread : (fun l : LogLine => parse? l.render) = some ∘ ofLine := funext parse?_render
  rw [readBack, hread, List.filterMap_eq_map]

end CapturedLine

/-- The fields of a line are named apart from each other and from the event and the severity. -/
structure LogLine.HasOwnNames (l : LogLine) : Prop where
  /-- No two fields have one name. -/
  apart : (l.fields.map Prod.fst).Nodup
  /-- No field is named as the event or the severity is. -/
  own : ∀ f ∈ l.fields, f.1 ≠ "event" ∧ f.1 ≠ "severity"

/-- A line read back is what was logged: the event, the severity, and the fields, sorted by their
names and no more and no fewer than those that were passed. -/
structure CapturedLine.Tells (c : CapturedLine) (l : LogLine) : Prop where
  /-- The event is the one that was logged. -/
  event : c.event = l.event
  /-- The severity is that of the line. -/
  severity : c.severity = l.severity.name
  /-- The fields are in the order of their names. -/
  sorted : c.fields.IsSorted
  /-- The fields are those that were passed. -/
  fields : c.fields.Perm l.fields

namespace CapturedLine

variable {l : LogLine}

/-- The written fields of a line whose fields have names of their own are all named apart. -/
theorem apart_writtenFields (h : l.HasOwnNames) : (l.writtenFields.map Prod.fst).Nodup := by
  have hperm : (l.sortedFields.map Prod.fst).Perm (l.fields.map Prod.fst) :=
    (List.mergeSort_perm l.fields _).map Prod.fst
  have hown (name : String) (hname : name ∈ l.sortedFields.map Prod.fst) :
      name ≠ "event" ∧ name ≠ "severity" := by
    obtain ⟨f, hf, rfl⟩ := List.mem_map.mp (hperm.mem_iff.mp hname)
    exact h.own f hf
  have hapart : (l.sortedFields.map Prod.fst).Nodup := hperm.nodup_iff.mpr h.apart
  rw [LogLine.writtenFields, List.map_cons, List.map_cons, List.nodup_cons, List.nodup_cons]
  refine ⟨fun hevent => ?_, fun hseverity => (hown _ hseverity).2 rfl, hapart⟩
  have hother : "event" ≠ "severity" := by decide
  rcases List.mem_cons.mp hevent with hsame | hevent
  · exact hother hsame
  · exact (hown _ hevent).1 rfl

/-- Without the event and the severity the written fields are those that were passed. -/
theorem erase_writtenFields (h : l.HasOwnNames) :
    (Entries.erase "severity" (Entries.erase "event" l.writtenFields)).Perm l.fields := by
  have hperm : l.sortedFields.Perm l.fields := List.mergeSort_perm l.fields _
  have hkept : l.sortedFields.filter (fun f => f.1 != "severity" && f.1 != "event") =
      l.sortedFields := by
    refine List.filter_eq_self.mpr fun f hf => ?_
    simpa [and_comm] using h.own f (hperm.mem_iff.mp hf)
  have hrest : Entries.erase "severity" (Entries.erase "event" l.writtenFields) =
      l.sortedFields := by
    rw [← hkept]
    simp [Entries.erase, LogLine.writtenFields, List.filter_filter]
  rw [hrest]
  exact hperm

/-- A line whose fields have names of their own is read back as it was logged. -/
theorem tells_ofLine (h : l.HasOwnNames) : (ofLine l).Tells l := by
  have hapart := apart_writtenFields h
  have hevent := Entries.get?_ofList_of_mem hapart (event_mem_writtenFields l)
  have hseverity := Entries.get?_ofList_of_mem hapart (severity_mem_writtenFields l)
  have hentries := (Entries.perm_ofList hapart).filter fun f => f.1 != "event"
  have hfields := hentries.filter fun f => f.1 != "severity"
  exact {
    event := congrArg (Option.getD · "") hevent
    severity := congrArg (Option.getD · "") hseverity
    sorted := ((Entries.ofList_spec l.writtenFields).1.filter _).filter _
    fields := hfields.trans (erase_writtenFields h) }

/-- A log line is read back as it was logged, whatever its event, names and values hold, as long as
its fields have names of their own. Its text has one line break, at its end, and is the document of
its fields. Read back it tells what was logged, in a capture as well, among any other lines. -/
theorem line_reads_back (l : LogLine) (h : l.HasOwnNames) :
    (∃ front, l.render.toList = front ++ ['\n'] ∧ '\n' ∉ front) ∧
      Json.parse? l.render = some l.document ∧
      ∃ c, parse? l.render = some c ∧ c.Tells l ∧ ∀ before after,
        readBack (before ++ l :: after) = readBack before ++ c :: readBack after := by
  have hbreak : ∃ front, l.render.toList = front ++ ['\n'] ∧ '\n' ∉ front :=
    ⟨l.front, l.toList_render, l.newline_notMem_front⟩
  have hcapture (before after : List LogLine) :
      readBack (before ++ l :: after) = readBack before ++ ofLine l :: readBack after := by
    rw [readBack_eq_map, List.map_append, List.map_cons, ← readBack_eq_map, ← readBack_eq_map]
  exact ⟨hbreak, l.parse?_render, ofLine l, parse?_render l, tells_ofLine h, hcapture⟩

/-- A value that looks like the end of its string and an event stays a value. -/
theorem line_reads_back_disguised :
    ∃ c, parse? (LogLine.render ⟨.error, "stop\\\n", [("z\x7f", "\x01\x85"),
        ("a\"b", "x\",\"event\":\"go\"\x7d\n")]⟩) = some c ∧
      c.event = "stop\\\n" ∧ c.severity = "ERROR" ∧
      c.fields.Perm [("z\x7f", "\x01\x85"), ("a\"b", "x\",\"event\":\"go\"\x7d\n")] := by
  obtain ⟨-, -, c, hread, htells, -⟩ := line_reads_back
    ⟨.error, "stop\\\n", [("z\x7f", "\x01\x85"), ("a\"b", "x\",\"event\":\"go\"\x7d\n")]⟩
    ⟨by decide, by decide⟩
  exact ⟨c, hread, htells.event, htells.severity, htells.fields⟩

end CapturedLine

end TypedModel
