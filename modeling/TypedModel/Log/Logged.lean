import TypedModel.Log.Line

/-!
# Results with log lines

A computation that logs returns its result together with the lines it has
logged, in order. Running two of them one after the other joins their lines.
-/

namespace TypedModel

/-- A result and the lines logged on the way to it. -/
structure Logged (α : Type) where
  /-- The result. -/
  value : α
  /-- The lines in order. -/
  lines : List LogLine

namespace Logged

variable {α β : Type}

/-- Logs one line. -/
def line (l : LogLine) : Logged Unit := ⟨(), [l]⟩

/-- A result without a line. -/
protected def pure (a : α) : Logged α := ⟨a, []⟩

/-- One computation after another. -/
protected def bind (x : Logged α) (f : α → Logged β) : Logged β :=
  let y := f x.value
  ⟨y.value, x.lines ++ y.lines⟩

instance : Monad Logged where
  pure := Logged.pure
  bind := Logged.bind

/-- A result alone logs nothing. -/
@[simp] theorem lines_pure (a : α) : (pure a : Logged α).lines = [] := rfl

/-- The result of a result alone. -/
@[simp] theorem value_pure (a : α) : (pure a : Logged α).value = a := rfl

/-- Lines of two computations are joined. -/
@[simp] theorem lines_bind (x : Logged α) (f : α → Logged β) :
    (x >>= f).lines = x.lines ++ (f x.value).lines := rfl

/-- The result of two computations is that of the second. -/
@[simp] theorem value_bind (x : Logged α) (f : α → Logged β) :
    (x >>= f).value = (f x.value).value := rfl

end Logged

end TypedModel
