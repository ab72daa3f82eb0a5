import TypedModel.Proofs.Predict.Guard
import TypedModel.Proofs.Predict.Warning
import TypedModel.Proofs.Schema.Supported

/-!
# What a result depends on

A guard is made for an input hint, may be quiet, has its output checks switched on and off, and is
asked all sorts of things before a call. None of this reaches the result: the input hint, the input
and the body settle what the body is given and what the call gives. The main statement compares any
two guards of one input hint.
-/

namespace TypedModel

open Sequence

/-! ## Guards of an input hint -/

/-- The guards there can be for an input hint: any owner and any output hint, quiet or not, and
after any switching and any calls. -/
inductive Guard.IsMadeFor (hint : Option TypeHint) : Guard → Prop where
  /-- A new guard. -/
  | new (owner : String) (output : Option TypeHint) :
    IsMadeFor hint (ofHints owner ⟨hint, output⟩)
  /-- A new guard whose warning counts as given. -/
  | quiet (owner : String) (output : Option TypeHint) :
    IsMadeFor hint (silent owner ⟨hint, output⟩)
  /-- A guard whose output checks are switched. -/
  | switched {g : Guard} (h : IsMadeFor hint g) (enabled : Bool) :
    IsMadeFor hint (g.withOutputValidation enabled)
  /-- A guard of which something was asked. -/
  | asked {g : Guard} (h : IsMadeFor hint g) (call : GuardCall) :
    IsMadeFor hint (g.after call).value

namespace Guard

/-- Nothing that is asked of a guard changes how it treats inputs. -/
theorem input_after (g : Guard) (call : GuardCall) : (g.after call).value.input = g.input := by
  rw [(g.after_spec call).2]
  split <;> rfl

/-- A guard treats inputs as the hint says that it was made for, whatever came after. -/
theorem IsMadeFor.input_eq {hint : Option TypeHint} {g : Guard} (h : g.IsMadeFor hint) :
    g.input = .ofHint hint := by
  induction h with
  | new owner output => rfl
  | quiet owner output => rfl
  | switched h enabled ih => exact ih
  | @asked g h call ih => rw [g.input_after call, ih]

/-- The body of a call is given the prepared input, if there is one. -/
theorem bodyInput_invoke (g : Guard) (input : Value) (body : Value → Except PredictError Value) :
    (g.invoke input body).value.bodyInput = (g.input.prepare input).toOption := by
  have hprepared := g.warnOnce.value.value_coerceInput input
  rw [input_warnOnce] at hprepared
  simp only [invoke, Logged.value_bind, hprepared]
  cases g.input.prepare input with
  | error e => rfl
  | ok coerced => cases hbody : body coerced <;> simp only [hbody] <;> rfl

end Guard

/-! ## Prepared inputs -/

namespace InputCheck

/-- Inputs are coerced to a hint that is supported. -/
theorem ofHint_of_supported {hint : TypeHint} (h : ¬ hint.IsUnsupported) :
    ofHint (some hint) = .validate hint := by
  have hpassed : hint.isPassThrough = false := by
    cases hint <;> first | rfl | exact absurd .frame h
  have hchecked : hint.schemaError? = none := by
    refine Option.eq_none_iff_forall_ne_some.mpr fun e he => h ?_
    exact TypeHint.exists_schema_eq_error_iff.mp ⟨e, TypeHint.schemaError?_eq_some_iff.mp he⟩
  simp only [ofHint, hpassed, hchecked, Bool.false_eq_true, if_false]

/-- Inputs are taken as they are where no hint is supported. -/
theorem prepare_of_unsupported {hint : Option TypeHint} (h : ∀ given ∈ hint, given.IsUnsupported)
    (input : Value) : (ofHint hint).prepare input = .ok input := by
  cases hint with
  | none => rfl
  | some given =>
    obtain ⟨e, he⟩ := TypeHint.exists_schema_eq_error_iff.mpr (h given rfl)
    have hchecked := TypeHint.schemaError?_eq_some_iff.mpr he
    by_cases hpassed : given.isPassThrough = true
    · simp only [ofHint, if_pos hpassed]
      rfl
    · simp only [ofHint, if_neg hpassed, hchecked]
      rfl

end InputCheck

/-! ## Results -/

/-- What a call with an input hint comes to: the value its body is given, if the body runs, and the
result. -/
inductive Settles (hint : Option TypeHint) (input : Value)
    (body : Value → Except PredictError Value) : Option Value → Except PredictError Value → Prop
    where
  /-- An input that is accepted: the body is given the coerced input, and what it gives is given. -/
  | accepted {given : TypeHint} {coerced : Value} (hgiven : hint = some given)
      (hsupported : ¬ given.IsUnsupported) (hcoerced : given.coerce input = .ok coerced) :
    Settles hint input body (some coerced) (body coerced)
  /-- An input that is rejected: the error is that of the coercion, and the body does not run. -/
  | rejected {given : TypeHint} {e : SchemaError} (hgiven : hint = some given)
      (hsupported : ¬ given.IsUnsupported) (hrejected : given.coerce input = .error e) :
    Settles hint input body none (.error (.invalidInput e))
  /-- No hint is supported: the body is given the input itself. -/
  | unchecked (hunsupported : ∀ given ∈ hint, given.IsUnsupported) :
    Settles hint input body (some input) (body input)

namespace Guard

variable {hint : Option TypeHint} {g : Guard}

/-- Every guard of an input hint has its calls settled by the hint, the input and the body. -/
theorem IsMadeFor.settles (h : g.IsMadeFor hint) (input : Value)
    (body : Value → Except PredictError Value) :
    Settles hint input body (g.invoke input body).value.bodyInput
      (g.invoke input body).value.result := by
  rw [bodyInput_invoke, result_invoke, h.input_eq]
  by_cases hsupported : ∃ given ∈ hint, ¬ given.IsUnsupported
  · obtain ⟨given, rfl, hsupported⟩ := hsupported
    rw [InputCheck.ofHint_of_supported hsupported, InputCheck.prepare]
    cases hcoerced : given.coerce input with
    | error e => exact .rejected rfl hsupported hcoerced
    | ok coerced => exact .accepted rfl hsupported hcoerced
  · have hunsupported : ∀ given ∈ hint, given.IsUnsupported := by
      intro given hgiven
      by_contra hnot
      exact hsupported ⟨given, hgiven, hnot⟩
    rw [InputCheck.prepare_of_unsupported hunsupported]
    exact .unchecked hunsupported

/-- Warning tells of no mismatch. -/
theorem not_reports_warnOnce (g : Guard) : ¬ g.warnOnce.Reports .predictOutputMismatch := by
  unfold warnOnce
  cases g.input with
  | unsupported e => cases g.warned <;> simp [unsupportedWarning]
  | _ => simp

/-- Coercing an input tells of no mismatch. -/
theorem not_reports_coerceInput (g : Guard) (input : Value) :
    ¬ (g.coerceInput input).Reports .predictOutputMismatch := by
  unfold coerceInput
  cases g.input with
  | validate hint => cases hcoerced : hint.coerce input <;> simp [hcoerced]
  | _ => simp

/-- A mismatch is told of an output that does not fit the output hint. -/
theorem misfit_of_reports_checkOutput {output : Value}
    (h : (g.checkOutput output).Reports .predictOutputMismatch) :
    ∃ expected e, g.output = some expected ∧ expected.validate output = .error e := by
  unfold checkOutput at h
  split at h
  next => exact absurd h (by simp)
  next expected hexpected =>
    have houtput := (Option.filter_eq_some_iff.mp hexpected).1
    cases hvalidated : expected.validate output with
    | ok _ =>
      rw [hvalidated] at h
      exact absurd h (by simp)
    | error e => exact ⟨expected, e, houtput, hvalidated⟩

/-- A call that tells of a mismatch gives the very output that does not fit. -/
theorem result_of_mismatch {input : Value} {body : Value → Except PredictError Value}
    (h : (g.invoke input body).Reports .predictOutputMismatch) :
    ∃ output expected e, g.output = some expected ∧ expected.validate output = .error e ∧
      (g.invoke input body).value.result = .ok output := by
  have hkept : g.warnOnce.value.output = g.output := by
    rw [value_warnOnce]
    rfl
  have hchecked := g.warnOnce.value.not_reports_coerceInput input
  simp only [invoke, Logged.reports_bind, g.not_reports_warnOnce, hchecked, false_or] at h
  rw [invoke, Logged.value_bind, Logged.value_bind]
  cases hprepared : (g.warnOnce.value.coerceInput input).value with
  | error e => exact absurd h (by simp [hprepared])
  | ok coerced =>
    cases hbody : body coerced with
    | error e => exact absurd h (by simp [hprepared, hbody])
    | ok output =>
      simp only [hprepared, hbody, Logged.reports_bind, Logged.not_reports_pure, or_false] at h
      obtain ⟨expected, e, houtput, hmisfit⟩ := misfit_of_reports_checkOutput h
      simp only [hbody]
      exact ⟨output, expected, e, hkept ▸ houtput, hmisfit, rfl⟩

/-- What is logged has no part in a result. Any two guards that were made for one input hint,
whoever owns them, whatever they expect as output, whether they check it, whether they have warned
and whatever was asked of them before, give the same result on the same input and body, and run the
body on the same value. It is what the body gives on the coerced input where the input is accepted,
and on the input itself where no hint is supported; elsewhere it is the error of the coercion,
whatever the body. An output is given as it is, also when the call tells of its mismatch. -/
theorem result_of_input_and_body {hint : Option TypeHint} {g g' : Guard} (hg : g.IsMadeFor hint)
    (hg' : g'.IsMadeFor hint) (input : Value) (body : Value → Except PredictError Value) :
    (g.invoke input body).value.result = (g'.invoke input body).value.result ∧
      (g.invoke input body).value.bodyInput = (g'.invoke input body).value.bodyInput ∧
      Settles hint input body (g.invoke input body).value.bodyInput
        (g.invoke input body).value.result ∧
      ((g.invoke input body).value.bodyInput = none →
        ∀ other, (g'.invoke input other).value.result = (g.invoke input body).value.result) ∧
      ((g.invoke input body).Reports .predictOutputMismatch →
        ∃ output expected e, g.output = some expected ∧ expected.validate output = .error e ∧
          (g.invoke input body).value.result = .ok output) := by
  have hinput : g.input = g'.input := hg.input_eq.trans hg'.input_eq.symm
  refine ⟨?_, ?_, hg.settles input body, fun hstopped other => ?_, result_of_mismatch⟩
  · rw [result_invoke, result_invoke, hinput]
  · rw [bodyInput_invoke, bodyInput_invoke, hinput]
  · rw [bodyInput_invoke] at hstopped
    rw [result_invoke, result_invoke, ← hinput]
    cases hprepared : g.input.prepare input with
    | error e => rfl
    | ok coerced =>
      rw [hprepared] at hstopped
      cases hstopped

/-- A function of integers whose texts are expected: a new guard that tells of the mismatch and a
quiet one of another owner, which checks no output and has rejected a text before. -/
theorem result_of_input_and_body_mismatch :
    let hint : Option TypeHint := some (.scalar .int)
    let g := ofHints "f" ⟨hint, some (.scalar .str)⟩
    let g' := (((silent "g" ⟨hint, none⟩).withOutputValidation false).after
      (.invoke (.str "a") .ok)).value
    g.IsMadeFor hint ∧ g'.IsMadeFor hint ∧
      (g.invoke (.long 123) .ok).Reports .predictOutputMismatch ∧
      (g.invoke (.long 123) .ok).value.result = (g'.invoke (.long 123) .ok).value.result ∧
      (g'.invoke (.long 123) .ok).value.result = .ok (.long 123) := by
  intro hint g g'
  have hg : g.IsMadeFor hint := .new "f" _
  have hg' : g'.IsMadeFor hint := .asked (.switched (.quiet "g" none) false) _
  obtain ⟨hresult, -⟩ := result_of_input_and_body hg hg' (.long 123) .ok
  have hreports : (g.invoke (.long 123) .ok).Reports .predictOutputMismatch := by decide +kernel
  have hgiven : (g.invoke (.long 123) .ok).value.result = .ok (.long 123) := rfl
  exact ⟨hg, hg', hreports, hresult, hresult.symm.trans hgiven⟩

end Guard

end TypedModel
