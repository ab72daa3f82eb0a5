import TypedModel.Predict.Guard
import TypedModel.Proofs.Sequence

/-!
# Results of guarded calls

A guarded call gives what its body makes of the prepared input. Warnings and output checks only log,
so the owner of the guard, its output hint and its history have no part in the result.
-/

namespace TypedModel

open Sequence

/-- The value that the body of a call is given: the input as the hint wants it, or as it is where
there is no hint to coerce it to. -/
def InputCheck.prepare (check : InputCheck) (input : Value) : Except PredictError Value :=
  match check with
  | .validate hint => (hint.coerce input).mapError .invalidInput
  | _ => .ok input

namespace Guard

variable (g : Guard) (input : Value) (body : Value → Except PredictError Value)

/-- Warning keeps how inputs are treated. -/
theorem input_warnOnce : g.warnOnce.value.input = g.input := by
  unfold warnOnce
  split
  · split <;> rfl
  · rfl

/-- Coercing an input gives the prepared input, logged or not. -/
theorem value_coerceInput : (g.coerceInput input).value = g.input.prepare input := by
  unfold coerceInput InputCheck.prepare
  cases hinput : g.input with
  | validate hint => cases hcoerced : hint.coerce input <;> simp only [hcoerced] <;> rfl
  | passThrough => rfl
  | unsupported e => rfl
  | absent => rfl

/-- A call gives what its body makes of the prepared input. -/
theorem result_invoke :
    (g.invoke input body).value.result = g.input.prepare input >>= body := by
  have hprepared := g.warnOnce.value.value_coerceInput input
  rw [input_warnOnce] at hprepared
  simp only [invoke, Logged.value_bind, hprepared]
  cases hinput : g.input.prepare input with
  | error e => rfl
  | ok coerced =>
    rw [ok_bind]
    cases houtput : body coerced with
    | error e =>
      simp only [houtput]
      rfl
    | ok output =>
      simp only [houtput]
      rfl

end Guard

end TypedModel
