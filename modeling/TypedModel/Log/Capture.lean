import TypedModel.Log.Line

/-!
# Capturing log lines

A line goes to the innermost capture that is open, or else its text to one of
the two output streams. A program here is what happens to the log: lines,
captures, panics, and places where a panic is caught. Running it gives what every
completed capture returns, which is its lines read back from their texts, and
what reaches the streams.
-/

namespace TypedModel.Log

/-- Something that happens to the log. -/
inductive Action where
  /-- A line is logged. -/
  | emit (line : LogLine)
  /-- The actions run within a capture. -/
  | capture (body : List Action)
  /-- The program panics. -/
  | panic
  /-- The actions run, and a panic among them ends here. -/
  | recover (body : List Action)

/-- Where lines go. -/
structure Sink where
  /-- Lines of the innermost open capture; none outside every capture. -/
  buffer : Option (List LogLine)
  /-- Texts written to the output stream. -/
  output : List String
  /-- Texts written to the error stream. -/
  errors : List String

/-- Nothing logged, outside every capture. -/
def Sink.empty : Sink := ⟨none, [], []⟩

/-- A line goes to the innermost capture; outside every capture, errors are written
to the error stream and other lines to the output stream. -/
def Sink.emit (s : Sink) (line : LogLine) : Sink :=
  match s.buffer with
  | some lines => { s with buffer := some (lines ++ [line]) }
  | none =>
    if line.severity = .error then { s with errors := s.errors ++ [line.render] }
    else { s with output := s.output ++ [line.render] }

/-- What a capture or a caught panic has given. -/
inductive Outcome where
  /-- A capture returned its lines as they are read back; the outcomes within it come first. -/
  | captured (lines : List CapturedLine) (inner : List Outcome)
  /-- A panic was caught. -/
  | panicked

/-- How actions ended. -/
structure RunReport where
  /-- The sink behind them. -/
  sink : Sink
  /-- What they have given, in order. -/
  outcomes : List Outcome
  /-- Whether a panic is under way. -/
  panicking : Bool

mutual

/-- Runs one action. -/
def run (s : Sink) : Action → RunReport
  | .emit line => ⟨s.emit line, [], false⟩
  | .capture body =>
    let report := runAll { s with buffer := some [] } body
    let sink := { report.sink with buffer := s.buffer }
    if report.panicking then ⟨sink, [], true⟩
    else
      let lines := CapturedLine.readBack (report.sink.buffer.getD [])
      ⟨sink, [.captured lines report.outcomes], false⟩
  | .panic => ⟨s, [], true⟩
  | .recover body =>
    let report := runAll s body
    if report.panicking then ⟨report.sink, report.outcomes ++ [.panicked], false⟩
    else report
termination_by structural a => a

/-- Runs actions in order, up to a panic. -/
def runAll (s : Sink) : List Action → RunReport
  | [] => ⟨s, [], false⟩
  | a :: rest =>
    let first := run s a
    if first.panicking then first
    else
      let others := runAll first.sink rest
      ⟨others.sink, first.outcomes ++ others.outcomes, others.panicking⟩
termination_by structural actions => actions

end

end TypedModel.Log
