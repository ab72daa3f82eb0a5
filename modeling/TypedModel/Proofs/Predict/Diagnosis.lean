import TypedModel.Proofs.Log.Reports
import TypedModel.Proofs.Predict.Agreement

/-!
# Saving foretells calls

Saving a model with an example tries the example out, and a loaded model that is called on it goes
through the same stations on its own: the input is coerced, the body runs, the output is checked.
Each side is compared with the stations, which are said here once, without logs. The main statement
is that what saving warns about is what becomes of the call.
-/

namespace TypedModel

open Sequence

/-! ## Stations -/

/-- The input does not fit its hint. -/
def TypeHint.Refuses (hint : TypeHint) (input : Value) : Prop := ∃ e, hint.coerce input = .error e

/-- The body fails on the coerced input. -/
def TypeHint.FailsWith (hint : TypeHint) (body : Value → Except PredictError Value) (input : Value)
    (e : PredictError) : Prop :=
  ∃ coerced, hint.coerce input = .ok coerced ∧ body coerced = .error e

/-- What the body makes of the coerced input does not fit the output hint. -/
def TypeHint.Misfits (hint : TypeHint) (body : Value → Except PredictError Value)
    (output : TypeHint) (input : Value) : Prop :=
  ∃ coerced result e, hint.coerce input = .ok coerced ∧ body coerced = .ok result ∧
    output.validate result = .error e

/-! ## A guarded call -/

namespace Guard

variable {g : Guard} {hint output : TypeHint} {body : Value → Except PredictError Value}
  {input : Value}

/-- A guard of a checkable hint coerces to it. -/
theorem ofHint_of_isCheckable (h : hint.isCheckable = true) :
    InputCheck.ofHint (some hint) = .validate hint := by
  obtain ⟨hchecked, s, hs⟩ := TypeHint.exists_schema h
  simp [InputCheck.ofHint, hchecked, TypeHint.schemaError?, hs]

/-- A call is rejected before its body runs exactly where the input is refused. -/
theorem invoke_rejects_iff (hg : g.input = .validate hint) :
    ((g.invoke input body).value.bodyInput = none ∧
        ∃ e, (g.invoke input body).value.result = .error (.invalidInput e)) ↔
      hint.Refuses input := by
  simp only [invoke, warnOnce, coerceInput, hg, TypeHint.Refuses, Logged.value_bind,
    Logged.value_pure]
  cases hint.coerce input with
  | error e => simp
  | ok coerced => cases hbody : body coerced <;> simp [hbody]

/-- A call gives an error of its body exactly where the body fails with it. -/
theorem invoke_fails_iff (hg : g.input = .validate hint) {e : PredictError} :
    (∃ coerced, (g.invoke input body).value.bodyInput = some coerced ∧ body coerced = .error e ∧
        (g.invoke input body).value.result = .error e) ↔
      hint.FailsWith body input e := by
  simp only [invoke, warnOnce, coerceInput, hg, TypeHint.FailsWith, Logged.value_bind,
    Logged.value_pure]
  cases hint.coerce input with
  | error e => simp
  | ok coerced => cases hbody : body coerced <;> simp [hbody]

/-- A checked output is reported exactly where it does not fit. -/
theorem reports_checkOutput_iff {result : Value} (houtput : g.output = some output)
    (hvalidate : g.validateOutputs = true) :
    (g.checkOutput result).Reports .predictOutputMismatch ↔
      ∃ e, output.validate result = .error e := by
  simp only [checkOutput, houtput, hvalidate, Option.filter]
  cases hv : output.validate result <;> simp [hv]

/-- A call reports a mismatch exactly where its output does not fit. -/
theorem reports_invoke_iff (hg : g.input = .validate hint) (houtput : g.output = some output)
    (hvalidate : g.validateOutputs = true) :
    (g.invoke input body).Reports .predictOutputMismatch ↔ hint.Misfits body output input := by
  simp only [invoke, warnOnce, coerceInput, hg, TypeHint.Misfits, Logged.value_pure,
    Logged.reports_bind]
  cases hint.coerce input with
  | error e => simp
  | ok coerced =>
    cases hbody : body coerced with
    | error e => simp [hbody]
    | ok result => simp [hbody, reports_checkOutput_iff houtput hvalidate]

end Guard

/-! ## Trying out an example -/

namespace ModelLogic

variable {logic : ModelLogic} {hint output : TypeHint} {inputs outputs : Schema}
  {given coerced : Value}

/-- The body as saving runs it: without a context and without parameters. -/
def dryRun (logic : ModelLogic) (coerced : Value) : Except PredictError Value :=
  logic.invokeRaw none coerced none

/-- What running the body on the coerced example reports, and the output schema it leaves. -/
structure RunDiagnosis (logic : ModelLogic) (output : TypeHint) (outputs : Schema) (coerced : Value)
    (x : Logged Schema) : Prop where
  /-- The example was compatible. -/
  compatible : ¬ x.Reports .inputExampleIncompatible
  /-- A mismatch is reported exactly where the output does not fit. -/
  mismatch : x.Reports .predictOutputMismatch ↔
    ∃ result e, logic.dryRun coerced = .ok result ∧ output.validate result = .error e
  /-- A failure is reported exactly where the body fails. -/
  failed : x.Reports .signatureFailed ↔ ∃ e, logic.dryRun coerced = .error e
  /-- A mismatch leaves nothing in particular. -/
  any : x.Reports .predictOutputMismatch → x.value = .any
  /-- Otherwise the schema stays. -/
  own : ¬ x.Reports .predictOutputMismatch → x.value = outputs

/-- Running the body on the coerced example. -/
theorem outputOfRun_diagnosis (logic : ModelLogic) (output : TypeHint) (outputs : Schema)
    (coerced : Value) :
    RunDiagnosis logic output outputs coerced (logic.outputOfRun output outputs coerced) := by
  unfold outputOfRun
  cases hrun : logic.invokeRaw none coerced none with
  | error e => constructor <;> simp [dryRun, hrun, signatureFailed]
  | ok result =>
    cases hv : output.validate result <;> constructor <;> simp [dryRun, hrun, hv]

/-- What trying out an example reports, and the output schema it leaves, under an input hint and an
output hint with the schema `own`. -/
structure TrialDiagnosis (logic : ModelLogic) (hint output : TypeHint) (own : Schema)
    (given : Value) (x : Logged ModelSignature) : Prop where
  /-- A mismatch is reported exactly where the output does not fit. -/
  mismatch : x.Reports .predictOutputMismatch ↔ hint.Misfits logic.dryRun output given
  /-- A failure is reported exactly where the body fails. -/
  failed : x.Reports .signatureFailed ↔ ∃ e, hint.FailsWith logic.dryRun given e
  /-- A mismatch leaves nothing in particular as output. -/
  any : x.Reports .predictOutputMismatch → x.value.outputs = some .any
  /-- Otherwise the output schema is that of the output hint. -/
  own : ¬ x.Reports .predictOutputMismatch → x.value.outputs = some own

/-- Trying out an example reports that it is incompatible where the input hint refuses it, and only
there. -/
theorem reports_signatureOfHints_incompatible :
    (logic.signatureOfHints hint inputs (some given)).Reports .inputExampleIncompatible ↔
      hint.Refuses given := by
  simp only [signatureOfHints, TypeHint.Refuses]
  cases hint.coerce given with
  | error e => simp
  | ok coerced =>
    cases logic.hints.output.filter TypeHint.isCheckable with
    | none => simp
    | some output => simp [(outputOfRun_diagnosis logic output _ coerced).compatible]

/-- Trying out an example under a checkable output hint. -/
theorem signatureOfHints_diagnosis {own : Schema}
    (houtput : logic.hints.output.filter TypeHint.isCheckable = some output)
    (hown : output.schema = .ok own) :
    TrialDiagnosis logic hint output own given
      (logic.signatureOfHints hint inputs (some given)) := by
  have hschema : output.schema.toOption = some own := by
    rw [hown]
    rfl
  simp only [signatureOfHints, houtput, Option.bind_some, hschema]
  cases hcoerced : hint.coerce given with
  | error e =>
    constructor <;>
      simp [hcoerced, TypeHint.Misfits, TypeHint.FailsWith, ModelSignature.ofHints]
  | ok coerced =>
    have hrun := outputOfRun_diagnosis logic output own coerced
    constructor
    case mismatch => simp [hcoerced, TypeHint.Misfits, hrun.mismatch]
    case failed => simp [hcoerced, TypeHint.FailsWith, hrun.failed]
    case any => simpa [ModelSignature.ofHints] using hrun.any
    case own => simpa [ModelSignature.ofHints] using hrun.own

/-- Events that are reported only when a saved example is tried out. -/
def IsTrialEvent (e : Event) : Prop :=
  e = .inputExampleIncompatible ∨ e = .predictOutputMismatch ∨ e = .signatureFailed

/-- Without an explicit signature, logic with a checkable input hint is given the signature that
follows its hints, and of the trial events those of trying out the example are reported. -/
theorem inferSignature_of_isCheckable (hinput : logic.hints.input = some hint)
    (hcheckable : hint.isCheckable = true) (given : Option Value) (warnUndecorated : Bool) :
    ∃ inputs, hint.schema = .ok inputs ∧
      (logic.inferSignature given none warnUndecorated).value =
        some (logic.signatureOfHints hint inputs given).value ∧
      ∀ e, IsTrialEvent e →
        ((logic.inferSignature given none warnUndecorated).Reports e ↔
          (logic.signatureOfHints hint inputs given).Reports e) := by
  obtain ⟨hchecked, inputs, hinputs⟩ := TypeHint.exists_schema hcheckable
  refine ⟨inputs, hinputs, ?_, fun e he => ?_⟩
  · simp only [inferSignature, hinput, signatureOfInputHint, hchecked, hinputs, Bool.false_eq_true,
      if_false]
    split <;> rfl
  · have hadvice : Event.undecoratedCallable ≠ e := by
      rintro rfl
      simp [IsTrialEvent] at he
    simp only [inferSignature, hinput, signatureOfInputHint, hchecked, hinputs, Bool.false_eq_true,
      if_false]
    split <;> simp [undecoratedAdvice, hadvice]

end ModelLogic

/-! ## Saving and calling -/

/-- Where no columns are enforced, a call of a loaded model is a call of its guard. -/
theorem LoadedModel.predict_of_fromTypeHint {m : LoadedModel} {stored : ModelSignature}
    (hstored : m.signature = some stored) (horigin : stored.fromTypeHint = true) (input : Value)
    (params : Option Params) :
    m.predict input params =
      m.guard.invoke input fun coerced => m.logic.invokeRaw (some m.context) coerced params := by
  have hcheck : m.checkColumns input = .ok () := by
    simp [checkColumns, enforcedSchema?, hstored, Option.filter, horigin]
  simp only [predict, hcheck]

namespace Store

variable {s later : Store} {disk laterDisk : Disk} {logic : ModelLogic} {given : Value}
  {id : ModelId} {now : Instant} {saved : SavedModel} {model : LoadedModel}

/-- A saved model is reported by two events at most. -/
theorem event_of_mem_savedLines {manifest : Manifest} {l : LogLine} (h : l ∈ savedLines manifest) :
    l.event = Event.signatureInferred.name ∨ l.event = Event.modelSaved.name := by
  rw [savedLines, List.mem_append, List.mem_singleton] at h
  rcases h with h | rfl
  · split at h
    · rw [List.mem_singleton] at h
      exact .inl (h ▸ rfl)
    · cases h
  · exact .inr rfl

/-- Of the trial events saving reports those of its signature inference. -/
theorem reports_save_iff {given : Option Value} {signature : Option ModelSignature} {e : Event}
    (he : ModelLogic.IsTrialEvent e) :
    (s.save disk logic given signature id now).Reports e ↔
      (logic.inferSignature given signature s.config.warnUndecorated).Reports e := by
  unfold save
  rw [Logged.reports_bind, or_iff_left]
  dsimp only
  split
  next => exact Logged.not_reports_pure _ e
  next =>
    rintro ⟨l, hl, hevent⟩
    have hother := event_of_mem_savedLines hl
    rw [hevent, Event.name_inj, Event.name_inj] at hother
    rcases hother with rfl | rfl <;> simp [ModelLogic.IsTrialEvent] at he

/-- Logic with a supported input hint is saved with an example and loaded again: its stored signature
and the trial events that saving reports are those of trying out the example, and a call on the
example is one of a guard that follows the hints. -/
theorem exists_trial_of_load {hint : TypeHint}
    {body : Value → Option Params → Except PredictError Value}
    (hinput : logic.hints.input = some hint) (hsupported : hint.isCheckable = true)
    (hbody : ∀ context input params, logic.invokeRaw context input params = body input params)
    (hgiven : given.WellFormed)
    (hsave : (s.save disk logic (some given) none id now).value.result = .ok saved)
    (hkept : (s.save disk logic (some given) none id now).value.store.Keeps
      (s.save disk logic (some given) none id now).value.disk id later laterDisk)
    (hload : (later.load laterDisk saved.uri).value = .ok model) :
    ∃ inputs guard, model.signature = some (logic.signatureOfHints hint inputs (some given)).value ∧
      (∀ e, ModelLogic.IsTrialEvent e → ((s.save disk logic (some given) none id now).Reports e ↔
        (logic.signatureOfHints hint inputs (some given)).Reports e)) ∧
      model.predict given none = Guard.invoke guard given (fun coerced => body coerced none) ∧
      guard.input = .validate hint ∧
      guard.output = logic.hints.output.filter TypeHint.isCheckable ∧
      guard.validateOutputs = later.config.validateOutputs := by
  obtain ⟨inputs, -, hsignature, hreports⟩ :=
    ModelLogic.inferSignature_of_isCheckable hinput hsupported (some given) s.config.warnUndecorated
  have hmodel := eq_ofLogic_of_load hsave hkept (by simpa using hgiven) hload
  have hstored :
      model.signature = some (logic.signatureOfHints hint inputs (some given)).value := by
    rw [hmodel, LoadedModel.ofLogic, (save_spec hsave).1, hsignature]
  have hpredict := LoadedModel.predict_of_fromTypeHint hstored
    (ModelLogic.fromTypeHint_signatureOfHints logic hint inputs (some given)) given none
  have hlogic : model.logic = logic := by rw [hmodel, LoadedModel.ofLogic]
  simp only [hlogic, hbody] at hpredict
  refine ⟨inputs, model.guard, hstored, fun e he => ?_, hpredict, ?_, ?_, ?_⟩
  · exact (reports_save_iff he).trans (hreports e he)
  · rw [hmodel]
    exact (congrArg InputCheck.ofHint hinput).trans (Guard.ofHint_of_isCheckable hsupported)
  · rw [hmodel]
    rfl
  · rw [hmodel]
    rfl

/-- What saving warns about is what becomes of a call. Logic with a supported input hint, whose body
ignores its context and fails with errors of its own only, is saved with an example and loaded again
with outputs checked. The example is reported as incompatible exactly if the call on it is rejected
before the body runs. Where the output hint is supported too, a mismatch of the output is reported on
saving exactly if it is reported by the call, a failure is reported on saving exactly if the call
gives the error of the body, and the stored output schema is that of the output hint unless the
mismatch was reported, and then it is anything. -/
theorem saving_foretells_call {hint : TypeHint}
    {body : Value → Option Params → Except PredictError Value}
    (hinput : logic.hints.input = some hint) (hsupported : hint.isCheckable = true)
    (hbody : ∀ context input params, logic.invokeRaw context input params = body input params)
    (hfails : ∀ input params e, body input params = .error e → ∃ message, e = .predict message)
    (hgiven : given.WellFormed)
    (hsave : (s.save disk logic (some given) none id now).value.result = .ok saved)
    (hkept : (s.save disk logic (some given) none id now).value.store.Keeps
      (s.save disk logic (some given) none id now).value.disk id later laterDisk)
    (hload : (later.load laterDisk saved.uri).value = .ok model)
    (hvalidate : later.config.validateOutputs = true) :
    let saving := s.save disk logic (some given) none id now
    let call := model.predict given none
    (saving.Reports .inputExampleIncompatible ↔
      call.value.bodyInput = none ∧ ∃ e, call.value.result = .error (.invalidInput e)) ∧
    ∀ output, logic.hints.output = some output → output.isCheckable = true →
      (saving.Reports .predictOutputMismatch ↔ call.Reports .predictOutputMismatch) ∧
      (saving.Reports .signatureFailed ↔ ∃ coerced message, call.value.bodyInput = some coerced ∧
        body coerced none = .error (.predict message) ∧
        call.value.result = .error (.predict message)) ∧
      ∃ own stored, output.schema = .ok own ∧ model.signature = some stored ∧
        (saving.Reports .predictOutputMismatch → stored.outputs = some .any) ∧
        (¬ saving.Reports .predictOutputMismatch → stored.outputs = some own) := by
  intro saving call
  obtain ⟨inputs, guard, hstored, hsaving, hcall, hguardInput, hguardOutput, hguardValidate⟩ :=
    exists_trial_of_load hinput hsupported hbody hgiven hsave hkept hload
  have hdryRun : logic.dryRun = fun coerced => body coerced none := by
    funext coerced
    exact hbody none coerced none
  rw [show call = _ from hcall]
  constructor
  · rw [hsaving _ (.inl rfl), ModelLogic.reports_signatureOfHints_incompatible,
      Guard.invoke_rejects_iff hguardInput]
  · intro output houtput hchecked
    obtain ⟨-, own, hown⟩ := TypeHint.exists_schema hchecked
    have hfilter : logic.hints.output.filter TypeHint.isCheckable = some output := by
      rw [houtput, Option.filter_some, if_pos hchecked]
    rw [hfilter] at hguardOutput
    rw [hvalidate] at hguardValidate
    obtain ⟨hmismatch, hfailed, hany, hkeptOwn⟩ :
        logic.TrialDiagnosis hint output own given
          (logic.signatureOfHints hint inputs (some given)) :=
      ModelLogic.signatureOfHints_diagnosis hfilter hown
    rw [hdryRun] at hmismatch hfailed
    refine ⟨?_, ?_, own, _, hown, hstored, ?_, ?_⟩
    · rw [hsaving _ (.inr (.inl rfl)), hmismatch,
        Guard.reports_invoke_iff hguardInput hguardOutput hguardValidate]
    · rw [hsaving _ (.inr (.inr rfl)), hfailed]
      constructor
      · rintro ⟨e, coerced, hcoerced, hbodyFails⟩
        obtain ⟨message, rfl⟩ := hfails coerced none e hbodyFails
        have hfailure :
            hint.FailsWith (fun coerced => body coerced none) given (.predict message) :=
          ⟨coerced, hcoerced, hbodyFails⟩
        obtain ⟨ran, hcalled⟩ := (Guard.invoke_fails_iff hguardInput).mpr hfailure
        exact ⟨ran, message, hcalled⟩
      · rintro ⟨coerced, message, hcalled⟩
        exact ⟨_, (Guard.invoke_fails_iff hguardInput).mp ⟨coerced, hcalled⟩⟩
    · rw [hsaving _ (.inr (.inl rfl))]
      exact hany
    · rw [hsaving _ (.inr (.inl rfl))]
      exact hkeptOwn

/-- A function of lists of numbers declares a text and gives its input. A list with an integer is
reported as a mismatch, by saving and by the call, and its output schema is anything; a text is
reported as incompatible, and the call on it is rejected. -/
theorem saving_foretells_call_lists :
    let body : Value → Option Params → Except PredictError Value := fun input _ => .ok input
    let logic : ModelLogic := .callable
      ⟨"predict", ⟨some (.list (.scalar .float)), some (.scalar .str)⟩, body⟩
    let s : Store := ⟨.ofRoot "store", []⟩
    (∃ saved model stored,
        s.saveAndLoad logic (some (.list [.long 1])) none = (.ok saved, .ok model) ∧
        (model.predict (.list [.long 1]) none).Reports .predictOutputMismatch ∧
        model.signature = some stored ∧ stored.outputs = some .any) ∧
      ∃ saved model, s.saveAndLoad logic (some (.str "a")) none = (.ok saved, .ok model) ∧
        (model.predict (.str "a") none).value.bodyInput = none := by
  intro body logic s
  have hsupported : (TypeHint.list (.scalar .float)).isCheckable = true := by decide +kernel
  have hfails :
      ∀ input params e, body input params = .error e → ∃ message, e = .predict message := by
    intro input params e he
    cases he
  have hforetells {s : Store} {given : Value} {saved : SavedModel} {model : LoadedModel}
      (hs : s.config.validateOutputs = true) (hgiven : given.WellFormed)
      (hsave : (s.saveFirst logic (some given) none).result = .ok saved)
      (hload : ((s.saveFirst logic (some given) none).store.load
        (s.saveFirst logic (some given) none).disk saved.uri).value = .ok model) :=
    have hlater : (s.saveFirst logic (some given) none).store.config.validateOutputs = true := by
      rw [show (s.saveFirst logic (some given) none).store = _ from (save_spec hsave).2.1]
      exact hs
    saving_foretells_call rfl hsupported (fun _ _ _ => rfl) hfails hgiven hsave ⟨rfl, rfl, rfl⟩
      hload
      hlater
  constructor
  · have hlist : (Value.list [.long 1]).WellFormed := by
      simp [Value.WellFormed, Value.ItemsWellFormed]
    obtain ⟨saved, model, hsave, hload, -, hpair⟩ :=
      @saveAndLoad_of_fits logic (some (.list [.long 1])) none s (by decide +kernel)
        (by decide +kernel) (by simpa using hlist)
    have hwarned : (s.save .empty logic (some (.list [.long 1])) none nilId epoch).Reports
        .predictOutputMismatch := by decide +kernel
    obtain ⟨hmismatch, -, own, stored, -, hstored, hany, -⟩ :=
      (hforetells rfl hlist hsave hload).2 (.scalar .str) rfl (by decide +kernel)
    exact ⟨saved, model, stored, hpair, hmismatch.mp hwarned, hstored, hany hwarned⟩
  · obtain ⟨saved, model, hsave, hload, -, hpair⟩ :=
      @saveAndLoad_of_fits logic (some (.str "a")) none s (by decide +kernel) (by decide +kernel)
        (by simp [Value.WellFormed])
    have hwarned : (s.save .empty logic (some (.str "a")) none nilId epoch).Reports
        .inputExampleIncompatible := by decide +kernel
    have htext : (Value.str "a").WellFormed := trivial
    exact ⟨saved, model, hpair, ((hforetells rfl htext hsave hload).1.mp hwarned).1⟩

end Store

end TypedModel
