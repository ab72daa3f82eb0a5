import TypedModel.Log.Capture
import TypedModel.Proofs.Log.RoundTrip

/-!
# Captures nest

What actions do to the log is told level by level, by rules that know of no sink and of no text: a
capture that completes returns the lines of its own level, each as it is read back, and adds none to
the level around it, and one that is left by a panic adds nothing at all. Running the actions gives
just that from every sink, although a sink has room for the innermost capture only and a capture
reads its lines back from their texts.
-/

namespace TypedModel.Log

open CapturedLine

/-- What actions do at the level at which they stand: the lines they log there, what the captures and
the caught panics among them give, and whether a panic ends them. -/
inductive Occurs : List Action → List LogLine → List Outcome → Bool → Prop where
  /-- Nothing happens. -/
  | done : Occurs [] [] [] false
  /-- A line is one of this level. -/
  | emit {line : LogLine} {rest : List Action} {own : List LogLine} {outcomes : List Outcome}
      {panicking : Bool} (later : Occurs rest own outcomes panicking) :
      Occurs (.emit line :: rest) (line :: own) outcomes panicking
  /-- A capture that completes returns the lines of its level, each read back, and none of them is
  one of this level. -/
  | completed {body rest : List Action} {inner own : List LogLine}
      {innerOutcomes outcomes : List Outcome} {panicking : Bool}
      (within : Occurs body inner innerOutcomes false)
      (later : Occurs rest own outcomes panicking) :
      Occurs (.capture body :: rest) own
        (.captured (inner.map ofLine) innerOutcomes :: outcomes) panicking
  /-- A capture that is left by a panic loses its lines, and the panic goes on. -/
  | abandoned {body rest : List Action} {inner : List LogLine} {innerOutcomes : List Outcome}
      (within : Occurs body inner innerOutcomes true) : Occurs (.capture body :: rest) [] [] true
  /-- What follows a panic does not happen. -/
  | panic {rest : List Action} : Occurs (.panic :: rest) [] [] true
  /-- Without a panic there is nothing to catch. -/
  | unharmed {body rest : List Action} {inner own : List LogLine}
      {innerOutcomes outcomes : List Outcome} {panicking : Bool}
      (within : Occurs body inner innerOutcomes false)
      (later : Occurs rest own outcomes panicking) :
      Occurs (.recover body :: rest) (inner ++ own) (innerOutcomes ++ outcomes) panicking
  /-- A panic that is caught ends where it is caught; what was logged at this level stays. -/
  | caught {body rest : List Action} {inner own : List LogLine}
      {innerOutcomes outcomes : List Outcome} {panicking : Bool}
      (within : Occurs body inner innerOutcomes true)
      (later : Occurs rest own outcomes panicking) :
      Occurs (.recover body :: rest) (inner ++ own) (innerOutcomes ++ [.panicked] ++ outcomes)
        panicking

/-! ## Lines of one level -/

/-- The sink after lines have been logged into it one by one. -/
def Sink.emitAll (s : Sink) (lines : List LogLine) : Sink := lines.foldl Sink.emit s

/-- The first line is logged before the others. -/
theorem Sink.emitAll_cons (s : Sink) (line : LogLine) (lines : List LogLine) :
    s.emitAll (line :: lines) = (s.emit line).emitAll lines := rfl

/-- Lines logged one after another. -/
theorem Sink.emitAll_append (s : Sink) (lines more : List LogLine) :
    s.emitAll (lines ++ more) = (s.emitAll lines).emitAll more := List.foldl_append

/-- Within a capture lines are kept behind those that are there, and none is written. -/
theorem Sink.emitAll_of_buffer {s : Sink} {earlier : List LogLine} (h : s.buffer = some earlier)
    (lines : List LogLine) : s.emitAll lines = { s with buffer := some (earlier ++ lines) } := by
  induction lines generalizing s earlier with
  | nil =>
    rw [List.append_nil, ← h]
    rfl
  | cons line lines ih =>
    have hfirst : s.emit line = { s with buffer := some (earlier ++ [line]) } := by
      rw [Sink.emit, h]
    have hrest := @ih (s.emit line) (earlier ++ [line]) (by rw [hfirst])
    rw [List.append_assoc, List.singleton_append] at hrest
    rw [Sink.emitAll_cons, hrest, hfirst]

/-- Outside every capture a line is written to the stream of its severity. -/
theorem Sink.emit_of_no_buffer {s : Sink} (h : s.buffer = none) (line : LogLine) :
    s.emit line =
      ⟨none, s.output ++ ([line].filter fun l => decide (l.severity ≠ .error)).map LogLine.render,
        s.errors ++ ([line].filter fun l => decide (l.severity = .error)).map LogLine.render⟩ := by
  by_cases herror : line.severity = .error <;> simp [Sink.emit, h, herror]

/-- Outside every capture each line is written once, errors to the error stream and all others to the
output stream. -/
theorem Sink.emitAll_of_no_buffer {s : Sink} (h : s.buffer = none) (lines : List LogLine) :
    s.emitAll lines =
      ⟨none, s.output ++ (lines.filter fun l => decide (l.severity ≠ .error)).map LogLine.render,
        s.errors ++ (lines.filter fun l => decide (l.severity = .error)).map LogLine.render⟩ := by
  induction lines generalizing s with
  | nil =>
    rw [List.filter_nil, List.filter_nil, List.map_nil, List.append_nil, List.append_nil, ← h]
    rfl
  | cons line lines ih =>
    have hfirst := Sink.emit_of_no_buffer h line
    have hrest := @ih (s.emit line) (by rw [hfirst])
    rw [Sink.emitAll_cons, hrest, hfirst]
    simp only [List.append_assoc, ← List.map_append, ← List.filter_append, List.singleton_append]

/-- Logging keeps the sink within the captures in which it is. -/
theorem Sink.emitAll_restore (s : Sink) (lines : List LogLine) :
    { ({ s with buffer := some [] } : Sink).emitAll lines with buffer := s.buffer } = s := by
  rw [Sink.emitAll_of_buffer rfl]

/-! ## Runs -/

/-- Actions that do something at their level do it from every sink. -/
theorem runAll_of_occurs {actions : List Action} {own : List LogLine} {outcomes : List Outcome}
    {panicking : Bool} (h : Occurs actions own outcomes panicking) (s : Sink) :
    runAll s actions = ⟨s.emitAll own, outcomes, panicking⟩ := by
  induction h generalizing s with
  | done => rfl
  | emit _ later => simp [runAll, run, later, Sink.emitAll]
  | completed _ _ within later =>
    have hbuffer := Sink.emitAll_of_buffer (s := { s with buffer := some [] }) rfl
    simp [runAll, run, within, later, hbuffer, readBack_eq_map]
  | abandoned _ within =>
    simp [runAll, run, within, Sink.emitAll_restore]
    rfl
  | panic => rfl
  | unharmed _ _ within later => simp [runAll, run, within, later, Sink.emitAll_append]
  | caught _ _ within later => simp [runAll, run, within, later, Sink.emitAll_append]

/-- Actions always do something. -/
theorem exists_occurs (actions : List Action) :
    ∃ own outcomes panicking, Occurs actions own outcomes panicking := by
  match actions with
  | [] => exact ⟨_, _, _, .done⟩
  | .panic :: rest => exact ⟨_, _, _, .panic⟩
  | .emit line :: rest =>
    obtain ⟨own, outcomes, panicking, later⟩ := exists_occurs rest
    exact ⟨_, _, _, .emit later⟩
  | .capture body :: rest =>
    obtain ⟨inner, innerOutcomes, ended, within⟩ := exists_occurs body
    obtain ⟨own, outcomes, panicking, later⟩ := exists_occurs rest
    cases ended with
    | true => exact ⟨_, _, _, .abandoned within⟩
    | false => exact ⟨_, _, _, .completed within later⟩
  | .recover body :: rest =>
    obtain ⟨inner, innerOutcomes, ended, within⟩ := exists_occurs body
    obtain ⟨own, outcomes, panicking, later⟩ := exists_occurs rest
    cases ended with
    | true => exact ⟨_, _, _, .caught within later⟩
    | false => exact ⟨_, _, _, .unharmed within later⟩
termination_by sizeOf actions

/-- A capture with nothing in it tells what actions do apart. -/
theorem Occurs.unique {actions : List Action} {own own' : List LogLine}
    {outcomes outcomes' : List Outcome} {panicking panicking' : Bool}
    (h : Occurs actions own outcomes panicking) (h' : Occurs actions own' outcomes' panicking') :
    own' = own ∧ outcomes' = outcomes ∧ panicking' = panicking := by
  have hrun := (runAll_of_occurs h' ⟨some [], [], []⟩).symm.trans (runAll_of_occurs h _)
  rw [Sink.emitAll_of_buffer rfl, Sink.emitAll_of_buffer rfl] at hrun
  simpa using hrun

/-- From every sink, within a capture or outside, actions do what the rules say of their level, and
the rules leave no choice. Within a capture its buffer keeps its earlier lines, those of the level
follow, and nothing is written; outside, the text of each line of the level is written once, to the
error stream if it is an error and to the output stream if not. A capture around the actions leaves
the sink as it was, however it ends: it returns the lines of their level in order, each as it is read
back from its text, or, left by a panic, nothing. What is read back of a line whose fields have names
of their own tells what was logged. -/
theorem captures_nest (s : Sink) (actions : List Action) :
    ∃ own outcomes panicking,
      (∀ own' outcomes' panicking', Occurs actions own' outcomes' panicking' ↔
        own' = own ∧ outcomes' = outcomes ∧ panicking' = panicking) ∧
      (runAll s actions).outcomes = outcomes ∧ (runAll s actions).panicking = panicking ∧
      (∀ earlier, s.buffer = some earlier →
        (runAll s actions).sink = { s with buffer := some (earlier ++ own) }) ∧
      (s.buffer = none → (runAll s actions).sink =
        ⟨none, s.output ++ (own.filter fun l => decide (l.severity ≠ .error)).map LogLine.render,
          s.errors ++ (own.filter fun l => decide (l.severity = .error)).map LogLine.render⟩) ∧
      run s (.capture actions) =
        ⟨s, if panicking then [] else [.captured (own.map ofLine) outcomes], panicking⟩ ∧
      ∀ l ∈ own, parse? l.render = some (ofLine l) ∧ (l.HasOwnNames → (ofLine l).Tells l) := by
  obtain ⟨own, outcomes, panicking, hoccurs⟩ := exists_occurs actions
  have hrun := runAll_of_occurs hoccurs
  refine ⟨own, outcomes, panicking, fun own' outcomes' panicking' => ?_, ?_, ?_, ?_, ?_, ?_, ?_⟩
  · constructor
    · exact fun h => hoccurs.unique h
    · rintro ⟨rfl, rfl, rfl⟩
      exact hoccurs
  · rw [hrun]
  · rw [hrun]
  · intro earlier hbuffer
    rw [hrun]
    exact Sink.emitAll_of_buffer hbuffer own
  · intro hbuffer
    rw [hrun]
    exact Sink.emitAll_of_no_buffer hbuffer own
  · have hbuffer := Sink.emitAll_of_buffer (s := { s with buffer := some [] }) rfl own
    cases panicking <;> simp [run, hrun, hbuffer, readBack_eq_map]
  · intro l _
    exact ⟨parse?_render l, tells_ofLine⟩

/-- A panic that leaves two captures and is caught in a third loses the lines of the two. -/
example (a b c d : LogLine) :
    runAll .empty [.capture [.emit a, .recover [.capture [.emit b, .capture [.emit c, .panic]]],
      .emit d]] = ⟨.empty, [.captured (readBack [a, d]) [.panicked]], false⟩ := rfl

end TypedModel.Log
