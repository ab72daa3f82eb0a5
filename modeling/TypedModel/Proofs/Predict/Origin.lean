import TypedModel.Proofs.Log.Reports
import TypedModel.Proofs.Predict.Agreement

/-!
# Where signatures come from

A signature that is not given follows the input hint where that has a schema, and the input example
everywhere else. The case is told by the hints alone, in the way in which a guard of the same hints
decides whether to coerce its inputs. Where there is no signature in the end, a warning says so,
unless there was nothing at all to infer one from.
-/

namespace TypedModel

/-! ## Supported input hints -/

/-- No error is found with a hint exactly where it has a schema. -/
theorem TypeHint.schemaError?_eq_none_iff {hint : TypeHint} :
    hint.schemaError? = Option.none ↔ ∃ s, hint.schema = .ok s := by
  unfold schemaError?
  cases hint.schema <;> simp

/-- A hint that is passed through has no schema. -/
theorem TypeHint.exists_error_of_isPassThrough {hint : TypeHint} (h : hint.isPassThrough = true) :
    ∃ e, hint.schema = .error e := by
  cases hint <;> first | exact ⟨_, rfl⟩ | cases h

namespace ModelLogic

/-- The input hint is declared, and no error is found with it. -/
def HasSupportedInput (logic : ModelLogic) : Prop :=
  ∃ hint, logic.hints.input = some hint ∧ hint.schemaError? = none

/-- The input hint is absent, or it is passed through, or it has no schema. -/
def LacksSupportedInput (logic : ModelLogic) : Prop :=
  logic.hints.input = none ∨
    ∃ hint, logic.hints.input = some hint ∧
      (hint.isPassThrough = true ∨ ∃ e, hint.schemaError? = some e)

/-- Nothing is declared and no example is given. -/
def HasNothing (logic : ModelLogic) (given : Option Value) : Prop :=
  logic.hints.input = none ∧ logic.hints.output = none ∧ given = none

/-- There is no example, or it has no schema. -/
def HasNoExampleSchema (given : Option Value) : Prop :=
  given = none ∨ ∃ v e, given = some v ∧ v.schema = .error e

variable {logic : ModelLogic} {hint : TypeHint} {given : Option Value}

/-- A hint with a schema is supported. -/
theorem hasSupportedInput_iff (hinput : logic.hints.input = some hint) :
    logic.HasSupportedInput ↔ ∃ inputs, hint.schema = .ok inputs := by
  simp [HasSupportedInput, hinput, TypeHint.schemaError?_eq_none_iff]

/-- The input hint is supported or not, and never both. -/
theorem lacksSupportedInput_iff : logic.LacksSupportedInput ↔ ¬ logic.HasSupportedInput := by
  cases hinput : logic.hints.input with
  | none => simp [LacksSupportedInput, HasSupportedInput, hinput]
  | some hint =>
    rw [hasSupportedInput_iff hinput]
    have hpassed : hint.isPassThrough = true → ∃ e, hint.schema = .error e :=
      TypeHint.exists_error_of_isPassThrough
    cases hschema : hint.schema with
    | error e => simp [LacksSupportedInput, hinput, TypeHint.schemaError?, hschema]
    | ok inputs =>
      rw [hschema] at hpassed
      simpa [LacksSupportedInput, hinput, TypeHint.schemaError?, hschema] using hpassed

/-- A guard of the hints coerces its inputs exactly where the input hint is supported. -/
theorem validatesInput_ofHints_iff (logic : ModelLogic) (owner : String) :
    (Guard.ofHints owner logic.hints).validatesInput = true ↔ logic.HasSupportedInput := by
  cases hinput : logic.hints.input with
  | none => simp [Guard.ofHints, Guard.validatesInput, InputCheck.ofHint, HasSupportedInput, hinput]
  | some hint =>
    rw [hasSupportedInput_iff hinput]
    by_cases hpassed : hint.isPassThrough = true
    · obtain ⟨e, he⟩ := TypeHint.exists_error_of_isPassThrough hpassed
      simp [Guard.ofHints, Guard.validatesInput, InputCheck.ofHint, hinput, hpassed, he]
    · cases hschema : hint.schema <;>
        simp [Guard.ofHints, Guard.validatesInput, InputCheck.ofHint, hinput, hpassed,
          TypeHint.schemaError?, hschema]

/-! ## Signatures of examples -/

/-- What is inferred from an example, and what is logged about it. -/
structure FollowsExample (given : Option Value) (x : Logged (Option ModelSignature)) : Prop where
  /-- There is no signature exactly where the example has no schema. -/
  absent : x.value = none ↔ HasNoExampleSchema given
  /-- A signature says that it does not follow hints. -/
  origin : ∀ s, x.value = some s → s.fromTypeHint = false
  /-- Its inputs are the schema of the example. -/
  inputs : ∀ s, x.value = some s →
    ∃ v inputs, given = some v ∧ v.schema = .ok inputs ∧ s.inputs = some inputs
  /-- A failure to infer a schema is warned of. -/
  warned : x.value = none → given ≠ none → x.Warns
  /-- Nothing is said about decorating. -/
  unadvised : ¬ x.Reports .undecoratedCallable

/-- Inference from an optional example, with a warning for an example without a schema. -/
theorem signatureOfExample?_followsExample (logic : ModelLogic) (given : Option Value)
    (failed : String → LogLine)
    (hfailed : ∀ reason, ∃ message fields, failed reason = .warning .signatureFailed message fields) :
    FollowsExample given (logic.signatureOfExample? given failed) := by
  cases given with
  | none => constructor <;> simp [signatureOfExample?, HasNoExampleSchema]
  | some v =>
    cases hschema : v.schema with
    | ok inputs =>
      constructor <;>
        simp [signatureOfExample?, signatureOfExample, hschema, HasNoExampleSchema,
          ModelSignature.ofSchemas]
    | error e =>
      obtain ⟨message, fields, hline⟩ :=
        hfailed s!"Inferring model signature from input example failure: {e.message}"
      constructor <;>
        simp [signatureOfExample?, signatureOfExample, hschema, HasNoExampleSchema, hline]

/-- A warning in front of an inference from an example. -/
theorem FollowsExample.warning_bind {x : Logged (Option ModelSignature)}
    (h : FollowsExample given x) {e : Event} (he : e ≠ .undecoratedCallable) (message : String)
    (fields : List (String × String)) :
    FollowsExample given (Logged.line (.warning e message fields) >>= fun _ => x) where
  absent := h.absent
  origin := h.origin
  inputs := h.inputs
  warned _ _ := by simp
  unadvised := by simp [he, h.unadvised]

/-! ## Signatures of hints -/

/-- A signature that follows the hints has the schema of the input hint as its inputs. -/
theorem inputs_signatureOfHints (logic : ModelLogic) (hint : TypeHint) (inputs : Schema)
    (given : Option Value) :
    (logic.signatureOfHints hint inputs given).value.inputs = some inputs := by
  unfold signatureOfHints
  cases given with
  | none => rfl
  | some v =>
    cases hcoerced : hint.coerce v with
    | error e => simp [hcoerced, ModelSignature.ofHints]
    | ok coerced =>
      cases logic.hints.output.filter TypeHint.isCheckable <;>
        simp [hcoerced, ModelSignature.ofHints]

/-- Following the hints says nothing about decorating. -/
theorem not_reports_signatureOfHints (logic : ModelLogic) (hint : TypeHint) (inputs : Schema)
    (given : Option Value) :
    ¬ (logic.signatureOfHints hint inputs given).Reports .undecoratedCallable := by
  have hrun (output : TypeHint) (outputs : Schema) (coerced : Value) :
      ¬ (logic.outputOfRun output outputs coerced).Reports .undecoratedCallable := by
    unfold outputOfRun
    cases hbody : logic.invokeRaw none coerced none with
    | error e => simp [signatureFailed]
    | ok result => cases hchecked : output.validate result <;> simp [hchecked]
  unfold signatureOfHints
  cases given with
  | none => simp
  | some v =>
    cases hcoerced : hint.coerce v with
    | error e => simp [hcoerced]
    | ok coerced =>
      cases logic.hints.output.filter TypeHint.isCheckable with
      | none => simp [hcoerced]
      | some output => simp [hcoerced, hrun]

/-! ## Inference -/

/-- What is inferred for logic and an example without an explicit signature, and what is logged
about it. -/
structure SignatureOrigin (logic : ModelLogic) (given : Option Value) (warnUndecorated : Bool)
    (x : Logged (Option ModelSignature)) : Prop where
  /-- A signature says that it follows the hints exactly where the input hint is supported. -/
  followsHints : (∃ s, x.value = some s ∧ s.fromTypeHint = true) ↔ logic.HasSupportedInput
  /-- Its inputs are then the schema of the input hint. -/
  hintInputs : ∀ s, x.value = some s → s.fromTypeHint = true →
    ∃ hint inputs, logic.hints.input = some hint ∧ hint.schema = .ok inputs ∧
      s.inputs = some inputs
  /-- The inputs of any other signature are the schema of the example. -/
  exampleInputs : ∀ s, x.value = some s → s.fromTypeHint = false →
    ∃ v inputs, given = some v ∧ v.schema = .ok inputs ∧ s.inputs = some inputs
  /-- There is no signature where only the output is declared, and where the input hint is not
  supported and there is no schema of an example. -/
  absent : x.value = none ↔
    (logic.hints.input = none ∧ ∃ output, logic.hints.output = some output) ∨
      (logic.LacksSupportedInput ∧ HasNoExampleSchema given)
  /-- A missing signature is warned of, unless there was nothing to infer one from. -/
  warned : x.value = none → (x.Warns ↔ ¬ logic.HasNothing given)
  /-- The advice to decorate is given to plain functions with a supported input hint. -/
  advised : x.Reports .undecoratedCallable ↔
    warnUndecorated = true ∧ logic.isUndecorated = true ∧ logic.HasSupportedInput

/-- Where the input hint is not supported and more than the output is declared, inference follows the
example. -/
theorem FollowsExample.signatureOrigin {x : Logged (Option ModelSignature)} {warnUndecorated : Bool}
    (h : FollowsExample given x) (hlacks : ¬ logic.HasSupportedInput)
    (hdeclared : logic.hints.input = none → logic.hints.output = none)
    (hwarned : x.value = none → (x.Warns ↔ ¬ logic.HasNothing given)) :
    logic.SignatureOrigin given warnUndecorated x where
  followsHints := by
    refine iff_of_false ?_ hlacks
    rintro ⟨s, hs, hfollows⟩
    rw [h.origin s hs] at hfollows
    cases hfollows
  hintInputs := by
    intro s hs hfollows
    rw [h.origin s hs] at hfollows
    cases hfollows
  exampleInputs := fun s hs _ => h.inputs s hs
  absent := by
    have honly : ¬ (logic.hints.input = none ∧ ∃ output, logic.hints.output = some output) := by
      rintro ⟨hinput, output, houtput⟩
      rw [hdeclared hinput] at houtput
      cases houtput
    rw [h.absent, lacksSupportedInput_iff, or_iff_right honly, and_iff_right hlacks]
  warned := hwarned
  advised := iff_of_false h.unadvised fun hadvised => hlacks hadvised.2.2

/-- Logic that declares its output only has no signature, and that is warned of. -/
theorem inferSignature_of_outputOnly {output : TypeHint} (hinput : logic.hints.input = none)
    (houtput : logic.hints.output = some output) (given : Option Value) (warnUndecorated : Bool) :
    logic.SignatureOrigin given warnUndecorated
      (logic.inferSignature given none warnUndecorated) := by
  have hlacks : ¬ logic.HasSupportedInput := by simp [HasSupportedInput, hinput]
  constructor <;> simp [inferSignature, hinput, houtput, hlacks, HasNothing]

/-- Logic that declares nothing has the signature of its example. -/
theorem inferSignature_of_undeclared (hinput : logic.hints.input = none)
    (houtput : logic.hints.output = none) (given : Option Value) (warnUndecorated : Bool) :
    logic.SignatureOrigin given warnUndecorated
      (logic.inferSignature given none warnUndecorated) := by
  have hfollows : FollowsExample given (logic.inferSignature given none warnUndecorated) := by
    rw [inferSignature, hinput, houtput]
    exact logic.signatureOfExample?_followsExample given _ fun reason => ⟨reason, _, rfl⟩
  refine hfollows.signatureOrigin (by simp [HasSupportedInput, hinput]) (fun _ => houtput) ?_
  intro hnone
  cases given with
  | none =>
    simp [HasNothing, inferSignature, signatureOfExample?, hinput, houtput]
  | some v =>
    have hwarns := hfollows.warned hnone (by simp)
    simp [HasNothing, hwarns]

/-- Logic whose input hint is passed through has the signature of its example; a missing example is
warned of too. -/
theorem inferSignature_of_isPassThrough (hinput : logic.hints.input = some hint)
    (hpassed : hint.isPassThrough = true) (given : Option Value) (warnUndecorated : Bool) :
    logic.SignatureOrigin given warnUndecorated
      (logic.inferSignature given none warnUndecorated) := by
  obtain ⟨e, hschema⟩ := TypeHint.exists_error_of_isPassThrough hpassed
  have hlacks : ¬ logic.HasSupportedInput := by
    rw [hasSupportedInput_iff hinput, hschema]
    simp
  have hsome : ¬ logic.HasNothing given := by simp [HasNothing, hinput]
  cases given with
  | none =>
    simp only [inferSignature, hinput, signatureOfInputHint, hpassed, if_true]
    have hfollows : FollowsExample none (do
        Logged.line (passThroughFailed hint
          "Input example is not provided, model signature cannot be inferred.")
        pure none) := by
      constructor <;> simp [HasNoExampleSchema, passThroughFailed]
    refine hfollows.signatureOrigin hlacks (by simp [hinput]) fun _ => ?_
    simp [hsome, passThroughFailed]
  | some v =>
    simp only [inferSignature, hinput, signatureOfInputHint, hpassed, if_true]
    have hfollows := logic.signatureOfExample?_followsExample (some v)
      (passThroughFailed hint) fun reason => ⟨_, _, rfl⟩
    refine hfollows.signatureOrigin hlacks (by simp [hinput]) fun hnone => ?_
    exact iff_of_true (hfollows.warned hnone (by simp)) hsome

/-- Logic whose input hint has no schema is warned about, and has the signature of its example. -/
theorem inferSignature_of_unsupported {e : SchemaError} (hinput : logic.hints.input = some hint)
    (hchecked : hint.isPassThrough = false) (hschema : hint.schema = .error e)
    (given : Option Value) (warnUndecorated : Bool) :
    logic.SignatureOrigin given warnUndecorated
      (logic.inferSignature given none warnUndecorated) := by
  have hlacks : ¬ logic.HasSupportedInput := by
    rw [hasSupportedInput_iff hinput, hschema]
    simp
  have hexample := logic.signatureOfExample?_followsExample given
    logic.signatureFailed fun reason => ⟨reason, _, rfl⟩
  simp only [inferSignature, hinput, signatureOfInputHint, hchecked, hschema, Bool.false_eq_true,
    if_false]
  refine (hexample.warning_bind (by decide) _ _).signatureOrigin hlacks (by simp [hinput]) fun _ => ?_
  simp [HasNothing, hinput]

/-- Logic whose input hint has a schema has a signature that follows it. -/
theorem inferSignature_of_supported {inputs : Schema} (hinput : logic.hints.input = some hint)
    (hschema : hint.schema = .ok inputs) (given : Option Value) (warnUndecorated : Bool) :
    logic.SignatureOrigin given warnUndecorated
      (logic.inferSignature given none warnUndecorated) := by
  have hsupported : logic.HasSupportedInput := (hasSupportedInput_iff hinput).mpr ⟨inputs, hschema⟩
  have hchecked : hint.isPassThrough = false := by
    by_contra hpassed
    obtain ⟨e, he⟩ := TypeHint.exists_error_of_isPassThrough (Bool.not_eq_false _ ▸ hpassed)
    rw [hschema] at he
    cases he
  have horigin := logic.fromTypeHint_signatureOfHints hint inputs given
  have hinputs := logic.inputs_signatureOfHints hint inputs given
  have hvalue : (logic.inferSignature given none warnUndecorated).value =
      some (logic.signatureOfHints hint inputs given).value := by
    simp only [inferSignature, hinput, signatureOfInputHint, hchecked, hschema, Bool.false_eq_true,
      if_false]
    split <;> rfl
  constructor
  case followsHints => exact iff_of_true ⟨_, hvalue, horigin⟩ hsupported
  case hintInputs =>
    intro s hs _
    rw [hvalue, Option.some.injEq] at hs
    exact ⟨hint, inputs, hinput, hschema, hs ▸ hinputs⟩
  case exampleInputs =>
    intro s hs hother
    rw [hvalue, Option.some.injEq] at hs
    rw [← hs, horigin] at hother
    cases hother
  case absent => simp [hvalue, hinput, lacksSupportedInput_iff, hsupported]
  case warned =>
    intro hnone
    rw [hvalue] at hnone
    cases hnone
  case advised =>
    have hsilent := logic.not_reports_signatureOfHints hint inputs given
    simp only [inferSignature, hinput, signatureOfInputHint, hchecked, hschema, Bool.false_eq_true,
      if_false, hsupported, and_true]
    cases warnUndecorated <;> cases logic.isUndecorated <;>
      simp [hsilent, undecoratedAdvice]

/-- A signature that is given stays as it is, and nothing is logged. Otherwise the hints and the
example decide whether there is a signature, where it comes from and what is warned of, and a guard
of the same hints coerces inputs exactly where the signature follows them. -/
theorem signature_origin_decided (logic : ModelLogic) (given : Option Value)
    (warnUndecorated : Bool) :
    (∀ s, (logic.inferSignature given (some s) warnUndecorated).value = some s ∧
      (logic.inferSignature given (some s) warnUndecorated).lines = []) ∧
    (∀ owner, (Guard.ofHints owner logic.hints).validatesInput = true ↔ logic.HasSupportedInput) ∧
    logic.SignatureOrigin given warnUndecorated
      (logic.inferSignature given none warnUndecorated) := by
  refine ⟨fun s => ⟨rfl, rfl⟩, logic.validatesInput_ofHints_iff, ?_⟩
  cases hinput : logic.hints.input with
  | none =>
    cases houtput : logic.hints.output with
    | none => exact inferSignature_of_undeclared hinput houtput given warnUndecorated
    | some output => exact inferSignature_of_outputOnly hinput houtput given warnUndecorated
  | some hint =>
    cases hschema : hint.schema with
    | ok inputs => exact inferSignature_of_supported hinput hschema given warnUndecorated
    | error e =>
      by_cases hpassed : hint.isPassThrough = true
      · exact inferSignature_of_isPassThrough hinput hpassed given warnUndecorated
      · exact inferSignature_of_unsupported hinput (Bool.not_eq_true _ ▸ hpassed) hschema given
          warnUndecorated

end ModelLogic

end TypedModel
