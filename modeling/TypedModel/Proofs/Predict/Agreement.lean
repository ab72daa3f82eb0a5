import TypedModel.Proofs.Coercion.Message
import TypedModel.Proofs.Predict.Guard
import TypedModel.Proofs.Schema.Columns
import TypedModel.Proofs.Store.RoundTrip

/-!
# Local and loaded models agree

However logic was saved, its loaded model gives what a guarded function or class with the same hints
and the same body gives on the spot: each of them coerces the input once, with the same hint, and
runs the body once. Only a signature that was not derived from hints makes a difference, and only
for frames and maps that lack one of its required columns.
-/

namespace TypedModel

open Sequence

/-! ## Guards of the same hints -/

/-- A guarded function treats inputs as its input hint says. -/
theorem Callable.input_decorate (c : Callable) :
    c.decorate.value.guard.input = .ofHint c.hints.input :=
  (Guard.ofHints c.name c.hints).input_warnOnce

/-- A guarded class treats inputs as its input hint says. -/
theorem ModelClass.input_validated (m : ModelClass) :
    m.validated.value.guard.input = .ofHint m.hints.input :=
  (Guard.ofHints m.name m.hints).input_warnOnce

/-- A guarded function runs its body on the prepared input. -/
theorem Callable.result_decorate (c : Callable) (input : Value) (params : Option Params) :
    (c.decorate.value.predict input params).value.result =
      (InputCheck.ofHint c.hints.input).prepare input >>= fun coerced => c.call coerced params := by
  rw [Decorated.predict, Guard.result_invoke, input_decorate]
  rfl

/-- A guarded class runs its body on the prepared input. -/
theorem ModelClass.result_validated (m : ModelClass) (context : Option ModelContext) (input : Value)
    (params : Option Params) :
    (m.validated.value.predict context input params).value.result =
      (InputCheck.ofHint m.hints.input).prepare input >>=
        fun coerced => m.predict context coerced params := by
  rw [ValidatedModel.predict, Guard.result_invoke, input_validated]
  rfl

/-! ## Enforced columns -/

/-- A signature that was not derived from hints has an input schema, and an input, a frame or a map,
lacks one of its required columns, first of all this one. -/
def ColumnMissing (signature : Option ModelSignature) (input : Value) (column : String) : Prop :=
  ∃ s schema, signature = some s ∧ s.fromTypeHint = false ∧ s.inputs = some schema ∧
    schema.FirstMissing input column

namespace LoadedModel

variable {m : LoadedModel} {input : Value} {params : Option Params}

/-- The schema whose columns are enforced. -/
theorem enforcedSchema?_eq_some_iff {schema : Schema} :
    m.enforcedSchema? = some schema ↔
      ∃ s, m.signature = some s ∧ s.fromTypeHint = false ∧ s.inputs = some schema := by
  simp only [enforcedSchema?, Option.bind_eq_some_iff, Option.filter_eq_some_iff, Bool.not_eq_true',
    and_assoc]

/-- A missing column is what the check of the columns finds. -/
theorem checkColumns_of_columnMissing {column : String}
    (h : ColumnMissing m.signature input column) :
    m.checkColumns input = .error (.invalidInput (.missingField column)) := by
  obtain ⟨s, schema, hsignature, horigin, hinputs, hfirst⟩ := h
  have hschema := enforcedSchema?_eq_some_iff.mpr ⟨s, hsignature, horigin, hinputs⟩
  simp only [checkColumns, hschema, Schema.enforce_of_firstMissing hfirst]

/-- Without a missing column the check of the columns finds nothing. -/
theorem checkColumns_of_forall_not (h : ∀ column, ¬ ColumnMissing m.signature input column) :
    m.checkColumns input = .ok () := by
  unfold checkColumns
  split
  next schema hschema =>
    obtain ⟨s, hsignature, horigin, hinputs⟩ := enforcedSchema?_eq_some_iff.mp hschema
    exact Schema.enforce_of_forall_not fun column hfirst =>
      h column ⟨s, schema, hsignature, horigin, hinputs, hfirst⟩
  next => rfl

/-- A missing column is the whole answer: the body does not run. -/
theorem predict_of_columnMissing {column : String} (h : ColumnMissing m.signature input column) :
    (m.predict input params).value =
      ⟨m.guard, none, .error (.invalidInput (.invalidInput (.missingField column)))⟩ := by
  have hcheck := checkColumns_of_columnMissing h
  simp only [predict, hcheck]
  rfl

/-- Without a missing column the body runs on the prepared input. -/
theorem result_predict (h : ∀ column, ¬ ColumnMissing m.signature input column) :
    (m.predict input params).value.result =
      m.guard.input.prepare input >>= fun coerced =>
        m.logic.invokeRaw (some m.context) coerced params := by
  have hcheck := checkColumns_of_forall_not h
  simp only [predict, hcheck, Guard.result_invoke]

/-- On an input, a model gives the result that a guarded function and a guarded class of some hints
and a body give. -/
def AgreesOn (m : LoadedModel) (hints : TypeHints) (body : Value → Option Params →
    Except PredictError Value) (input : Value) (params : Option Params) : Prop :=
  ∀ (name : String) (context : Option ModelContext),
    (m.predict input params).value.result =
        ((⟨name, hints, body⟩ : Callable).decorate.value.predict input params).value.result ∧
      (m.predict input params).value.result =
        ((⟨name, hints, fun _ => body⟩ : ModelClass).validated.value.predict context input
          params).value.result

end LoadedModel

/-! ## Signatures of supported hints -/

/-- A checkable hint has a schema. -/
theorem TypeHint.exists_schema {hint : TypeHint} (h : hint.isCheckable = true) :
    hint.isPassThrough = false ∧ ∃ s, hint.schema = .ok s := by
  obtain ⟨hchecked, hschema⟩ : hint.isPassThrough = false ∧ hint.schemaError?.isNone = true := by
    simpa [isCheckable] using h
  refine ⟨hchecked, ?_⟩
  cases hresult : hint.schema with
  | error e => simp [schemaError?, hresult] at hschema
  | ok s => exact ⟨s, rfl⟩

namespace ModelLogic

/-- A signature that follows the hints says so, whatever becomes of the example. -/
theorem fromTypeHint_signatureOfHints (logic : ModelLogic) (hint : TypeHint) (inputs : Schema)
    (given : Option Value) :
    (logic.signatureOfHints hint inputs given).value.fromTypeHint = true := by
  unfold signatureOfHints
  cases given with
  | none => rfl
  | some given =>
    cases hcoerced : hint.coerce given with
    | error e => simp only [hcoerced, Logged.value_bind, Logged.value_pure, ModelSignature.ofHints]
    | ok coerced =>
      cases logic.hints.output.filter TypeHint.isCheckable <;>
        simp only [hcoerced, Logged.value_bind, Logged.value_pure, ModelSignature.ofHints]

/-- Without an explicit signature, logic with a supported input hint is saved with a signature that
is derived from hints. -/
theorem fromTypeHint_inferSignature {logic : ModelLogic} {hint : TypeHint}
    (hinput : logic.hints.input = some hint) (hsupported : hint.isCheckable = true)
    (given : Option Value) (warnUndecorated : Bool) :
    ∃ s, (logic.inferSignature given none warnUndecorated).value = some s ∧
      s.fromTypeHint = true := by
  obtain ⟨hchecked, inputs, hinputs⟩ := TypeHint.exists_schema hsupported
  refine ⟨(logic.signatureOfHints hint inputs given).value, ?_,
    fromTypeHint_signatureOfHints logic hint inputs given⟩
  simp only [inferSignature, hinput, signatureOfInputHint, hchecked, hinputs, Bool.false_eq_true,
    if_false]
  split <;> rfl

end ModelLogic

/-! ## Agreement -/

namespace LoadedModel

variable {logic : ModelLogic} {body : Value → Option Params → Except PredictError Value}
  {input : Value} {params : Option Params}

/-- The loaded form of logic agrees with the guarded forms of its body where no column is
missing. -/
theorem agreesOn_ofLogic {id : ModelId} {signature : Option ModelSignature} {given : Option Value}
    {validateOutputs : Bool}
    (hbody : ∀ context input params, logic.invokeRaw context input params = body input params)
    (h : ∀ column, ¬ ColumnMissing signature input column) :
    (ofLogic id signature given logic validateOutputs).AgreesOn logic.hints body input params := by
  have hloaded : ((ofLogic id signature given logic validateOutputs).predict input
      params).value.result =
        (InputCheck.ofHint logic.hints.input).prepare input >>= fun coerced =>
          body coerced params := by
    have hresult := @result_predict (ofLogic id signature given logic validateOutputs) input params h
    simp only [ofLogic, hbody] at hresult
    exact hresult
  intro name context
  rw [hloaded, Callable.result_decorate, ModelClass.result_validated]
  exact ⟨rfl, rfl⟩

end LoadedModel

namespace Store

variable {s later : Store} {disk laterDisk : Disk} {logic : ModelLogic} {given : Option Value}
  {signature : Option ModelSignature} {id : ModelId} {now : Instant} {saved : SavedModel}
  {model : LoadedModel}

/-- A model that loads is the loaded form of the logic with the signature it was saved with. -/
theorem eq_ofLogic_of_load
    (hsave : (s.save disk logic given signature id now).value.result = .ok saved)
    (hkept : (s.save disk logic given signature id now).value.store.Keeps
      (s.save disk logic given signature id now).value.disk id later laterDisk)
    (hgiven : ∀ v ∈ given, v.WellFormed)
    (hload : (later.load laterDisk saved.uri).value = .ok model) :
    model = .ofLogic id saved.signature given logic later.config.validateOutputs := by
  rw [load_saved hsave hkept hgiven] at hload
  split at hload
  · exact (Except.ok.inj hload).symm
  · cases hload

/-- A model that was saved in any form and loaded again gives on every input what the guarded
function and the guarded class of its hints and its body give. The one exception is an input that
lacks a column which a signature not derived from hints requires: it is refused for the first such
column before the body runs. A signature that was inferred from a supported hint is no such one. -/
theorem loaded_agrees_with_local {body : Value → Option Params → Except PredictError Value}
    (hbody : ∀ context input params, logic.invokeRaw context input params = body input params)
    (hgiven : ∀ v ∈ given, v.WellFormed)
    (hsave : (s.save disk logic given signature id now).value.result = .ok saved)
    (hkept : (s.save disk logic given signature id now).value.store.Keeps
      (s.save disk logic given signature id now).value.disk id later laterDisk)
    (hload : (later.load laterDisk saved.uri).value = .ok model) :
    (∀ input column, ColumnMissing saved.signature input column → ∀ params,
      ∃ e, (model.predict input params).value = ⟨model.guard, none, .error (.invalidInput e)⟩ ∧
        e = .invalidInput (.missingField column) ∧
        e.message = "Missing required field `" ++ column ++ "`") ∧
    (∀ input, (∀ column, ¬ ColumnMissing saved.signature input column) →
      ∀ params, model.AgreesOn logic.hints body input params) ∧
    (signature = none → ∀ hint, logic.hints.input = some hint → hint.isCheckable = true →
      ∀ input params, model.AgreesOn logic.hints body input params) := by
  have hmodel := eq_ofLogic_of_load hsave hkept hgiven hload
  have hsignature : model.signature = saved.signature := by rw [hmodel]; rfl
  have hagrees (input : Value) (h : ∀ column, ¬ ColumnMissing saved.signature input column)
      (params : Option Params) : model.AgreesOn logic.hints body input params := by
    rw [hmodel]
    exact LoadedModel.agreesOn_ofLogic hbody h
  refine ⟨fun input column hmissing params => ?_, hagrees, fun hnone hint hinput hsupported => ?_⟩
  · rw [← hsignature] at hmissing
    exact ⟨_, LoadedModel.predict_of_columnMissing hmissing, rfl,
      ValidationDetails.display_of_missing rfl⟩
  · intro input
    refine hagrees input fun column hmissing => ?_
    obtain ⟨inferred, hinferred, horigin⟩ :=
      ModelLogic.fromTypeHint_inferSignature hinput hsupported given s.config.warnUndecorated
    obtain ⟨stored, schema, hstored, horigin', -⟩ := hmissing
    rw [(save_spec hsave).1, hnone] at hstored
    cases hinferred.symm.trans hstored
    rw [horigin] at horigin'
    cases horigin'

/-- Maps of numbers, saved as a plain function with the schema of a column `x` and as a class
without a signature: a map without `x` is refused by the first of them, and a map with it becomes a
map of doubles in both. -/
theorem loaded_agrees_with_local_maps :
    let hints : TypeHints := ⟨some (.dict (.scalar .str) (.scalar .float)), none⟩
    let body : Value → Option Params → Except PredictError Value := fun input _ => .ok input
    let columns : ModelSignature := .ofSchemas (some ⟨[⟨some "x", .scalar .double, true⟩]⟩) none
    (∃ saved model,
      saveAndLoad ⟨.ofRoot "store", []⟩ (.callable ⟨"predict", hints, body⟩) none (some columns) =
          (.ok saved, .ok model) ∧
        (model.predict (.map [("y", .long 1)]) none).value.result =
          .error (.invalidInput (.invalidInput (.missingField "x"))) ∧
        model.AgreesOn hints body (.map [("x", .long 1)]) none) ∧
    ∃ saved model,
      saveAndLoad ⟨.ofRoot "store", []⟩ (.modelClass ⟨"Model", hints, fun _ => body⟩) none none =
          (.ok saved, .ok model) ∧
        model.AgreesOn hints body (.map [("y", .long 1)]) none := by
  intro hints body columns
  have hagree {s : Store} {logic : ModelLogic} {signature : Option ModelSignature}
      {saved : SavedModel} {model : LoadedModel}
      (hbody : ∀ context input params, logic.invokeRaw context input params = body input params)
      (hsave : (s.saveFirst logic none signature).result = .ok saved)
      (hload : ((s.saveFirst logic none signature).store.load
        (s.saveFirst logic none signature).disk saved.uri).value = .ok model) :=
    loaded_agrees_with_local hbody (by simp) hsave ⟨rfl, rfl, rfl⟩ hload
  constructor
  · obtain ⟨saved, model, hsave, hload, hsignature, hpair⟩ :=
      @saveAndLoad_of_fits (.callable ⟨"predict", hints, body⟩) none (some columns)
        ⟨.ofRoot "store", []⟩ (by decide +kernel) (by decide +kernel) (by simp)
    obtain ⟨hmissing, hagrees, -⟩ := hagree (fun _ _ _ => rfl) hsave hload
    have hlacks : ColumnMissing saved.signature (.map [("y", .long 1)]) "x" := by
      rw [hsignature]
      exact ⟨columns, _, rfl, rfl, rfl, ["y"], rfl, [], _, [], rfl, rfl, rfl, by decide, by simp⟩
    have hcomplete (column : String) :
        ¬ ColumnMissing saved.signature (.map [("x", .long 1)]) column := by
      rw [hsignature]
      rintro ⟨_, _, hcolumns, -, hinputs, _, hpresent, hfirst⟩
      cases hcolumns
      cases hinputs
      cases hpresent
      have hfound := Schema.find?_of_firstAbsent hfirst
      cases hfound
    obtain ⟨e, hpredict, he, -⟩ := hmissing _ _ hlacks none
    refine ⟨saved, model, hpair, ?_, hagrees _ hcomplete none⟩
    rw [hpredict, he]
  · obtain ⟨saved, model, hsave, hload, -, hpair⟩ :=
      @saveAndLoad_of_fits (.modelClass ⟨"Model", hints, fun _ => body⟩) none none
        ⟨.ofRoot "store", []⟩ (by decide +kernel) (by decide +kernel) (by simp)
    exact ⟨saved, model, hpair,
      (hagree (fun _ _ _ => rfl) hsave hload).2.2 rfl _ rfl (by decide +kernel) _ _⟩

end Store

end TypedModel
