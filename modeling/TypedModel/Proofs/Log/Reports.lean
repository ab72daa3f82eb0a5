import TypedModel.Log.Logged

/-!
# What a computation reports

Whether an event is among the lines of a computation, how often it is and with which lines, and
whether there is a warning. Of computations run one after the other the lines are joined, so what a
whole operation reports is read off its steps.
-/

namespace TypedModel

/-- Events are told apart by their written names. -/
theorem Event.name_inj {a b : Event} : a.name = b.name ↔ a = b := by
  constructor
  · intro h
    cases a <;> cases b <;> first | rfl | exact absurd h (by decide)
  · exact congrArg name

namespace Logged

variable {α β : Type}

/-- An event is among the lines that are logged. -/
def Reports (x : Logged α) (e : Event) : Prop := ∃ l ∈ x.lines, l.event = e.name

instance (x : Logged α) (e : Event) : Decidable (x.Reports e) :=
  inferInstanceAs (Decidable (∃ l ∈ x.lines, l.event = e.name))

/-- A result alone reports nothing. -/
@[simp] theorem not_reports_pure (a : α) (e : Event) : ¬ (pure a : Logged α).Reports e := by
  simp [Reports]

/-- A line reports its own event only. -/
@[simp] theorem reports_ofEvent (a e : Event) (fields : List (String × String)) :
    (line (.ofEvent a fields)).Reports e ↔ a = e := by
  simp [Reports, line, LogLine.ofEvent, Event.name_inj]

/-- A warning reports its own event only. -/
@[simp] theorem reports_warning (a e : Event) (message : String)
    (fields : List (String × String)) : (line (.warning a message fields)).Reports e ↔ a = e := by
  simp [Reports, line, LogLine.warning, Event.name_inj]

/-- Of two computations one or the other reports an event. -/
@[simp] theorem reports_bind (x : Logged α) (f : α → Logged β) (e : Event) :
    (x >>= f).Reports e ↔ x.Reports e ∨ (f x.value).Reports e := by
  simp only [Reports, lines_bind, List.mem_append, or_and_right, exists_or]

/-! ## Warnings -/

/-- A warning is among the lines that are logged. -/
def Warns (x : Logged α) : Prop := ∃ l ∈ x.lines, l.severity = .warn

/-- A result alone warns of nothing. -/
@[simp] theorem not_warns_pure (a : α) : ¬ (pure a : Logged α).Warns := by simp [Warns]

/-- A warning warns. -/
@[simp] theorem warns_warning (e : Event) (message : String) (fields : List (String × String)) :
    (line (.warning e message fields)).Warns := by
  simp [Warns, line, LogLine.warning]

/-- Of two computations one or the other warns. -/
@[simp] theorem warns_bind (x : Logged α) (f : α → Logged β) :
    (x >>= f).Warns ↔ x.Warns ∨ (f x.value).Warns := by
  simp only [Warns, lines_bind, List.mem_append, or_and_right, exists_or]

/-! ## Numbers of lines -/

/-- How many of the lines are of an event. -/
def count (x : Logged α) (e : Event) : Nat := x.lines.countP fun l => l.event == e.name

/-- A result alone has no line of an event. -/
@[simp] theorem count_pure (a : α) (e : Event) : (pure a : Logged α).count e = 0 := rfl

/-- A line is one of its own event and none of another. -/
@[simp] theorem count_ofEvent (a e : Event) (fields : List (String × String)) :
    (line (.ofEvent a fields)).count e = if a = e then 1 else 0 := by
  simp [count, line, LogLine.ofEvent, Event.name_inj, List.countP_singleton]

/-- A warning is one line of its own event and none of another. -/
@[simp] theorem count_warning (a e : Event) (message : String) (fields : List (String × String)) :
    (line (.warning a message fields)).count e = if a = e then 1 else 0 := by
  simp [count, line, LogLine.warning, Event.name_inj, List.countP_singleton]

/-- Numbers of lines of two computations are added. -/
@[simp] theorem count_bind (x : Logged α) (f : α → Logged β) (e : Event) :
    (x >>= f).count e = x.count e + (f x.value).count e := by
  simp only [count, lines_bind, List.countP_append]

/-- An event is reported where it has a line. -/
theorem count_pos_iff {x : Logged α} {e : Event} : 0 < x.count e ↔ x.Reports e := by
  simp [count, Reports, List.countP_pos_iff]

/-! ## Lines of an event -/

/-- The lines of an event, in order. -/
def linesOf (x : Logged α) (e : Event) : List LogLine := x.lines.filter fun l => l.event == e.name

/-- A result alone has no line of an event. -/
@[simp] theorem linesOf_pure (a : α) (e : Event) : (pure a : Logged α).linesOf e = [] := rfl

/-- A line is the only one of its own event, and another has none. -/
@[simp] theorem linesOf_ofEvent (a e : Event) (fields : List (String × String)) :
    (line (.ofEvent a fields)).linesOf e = if a = e then [.ofEvent a fields] else [] := by
  simp [linesOf, line, LogLine.ofEvent, Event.name_inj, List.filter_cons]

/-- A warning is the only line of its own event, and another has none. -/
@[simp] theorem linesOf_warning (a e : Event) (message : String)
    (fields : List (String × String)) :
    (line (.warning a message fields)).linesOf e =
      if a = e then [.warning a message fields] else [] := by
  simp [linesOf, line, LogLine.warning, Event.name_inj, List.filter_cons]

/-- Lines of an event of two computations are joined. -/
@[simp] theorem linesOf_bind (x : Logged α) (f : α → Logged β) (e : Event) :
    (x >>= f).linesOf e = x.linesOf e ++ (f x.value).linesOf e := by
  simp only [linesOf, lines_bind, List.filter_append]

end Logged

end TypedModel
