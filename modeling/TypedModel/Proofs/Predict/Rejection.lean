import TypedModel.Proofs.Predict.Agreement
import TypedModel.Proofs.Predict.Warning

/-!
# Rejected inputs are logged

A guard that rejects an input logs it once, with the name of its function and the reason, and no
call whose body runs logs a rejection. So every rejection of a guarded function or class is logged.
A loaded model has a second way to reject: a required column that is missing ends the call before
its guard is asked, and such a call logs nothing at all.
-/

namespace TypedModel

/-- The line that tells of a rejected input, by the name of the function and the reason. -/
def rejectionLine (owner : String) (e : PredictError) : LogLine :=
  .ofEvent .predictInputRejected [("function", owner), ("message", e.message)]

/-- What a call of a function says about its input: one line, with the name of the function and the
message of the error, where the input is rejected before the body runs, and none where the body
runs. -/
structure TellsRejection (x : Logged Call) (owner : String) : Prop where
  /-- A call whose body does not run fails because of its input and says so once. -/
  rejected : x.value.bodyInput = none → ∃ e, x.value.result = .error (.invalidInput e) ∧
    x.linesOf .predictInputRejected = [rejectionLine owner (.invalidInput e)]
  /-- A call whose body runs says nothing about its input. -/
  served : ∀ given, x.value.bodyInput = some given → x.linesOf .predictInputRejected = []

namespace Guard

variable (g : Guard)

/-- Warning says nothing about an input. -/
theorem linesOf_warnOnce : g.warnOnce.linesOf .predictInputRejected = [] := by
  unfold warnOnce
  cases g.input with
  | unsupported e => cases g.warned <;> simp [unsupportedWarning]
  | validate hint => simp
  | passThrough => simp
  | absent => simp

/-- Checking an output says nothing about an input. -/
theorem linesOf_checkOutput (output : Value) :
    (g.checkOutput output).linesOf .predictInputRejected = [] := by
  unfold checkOutput
  split
  next => simp
  next hint _ => cases hint.validate output <;> simp

/-- Coercing an input says so where the input is rejected, and nothing where it is taken. -/
theorem coerceInput_spec (input : Value) :
    (∃ coerced, (g.coerceInput input).value = .ok coerced ∧
      (g.coerceInput input).linesOf .predictInputRejected = []) ∨
    (∃ e, (g.coerceInput input).value = .error (.invalidInput e) ∧
      (g.coerceInput input).linesOf .predictInputRejected =
        [rejectionLine g.owner (.invalidInput e)]) := by
  unfold coerceInput
  cases g.input with
  | validate hint =>
    cases hcoerced : hint.coerce input with
    | ok coerced => exact .inl ⟨coerced, by simp [hcoerced], by simp [hcoerced]⟩
    | error e =>
      refine .inr ⟨e, by simp [hcoerced], ?_⟩
      simp [hcoerced, rejectionLine, PredictError.message]
  | passThrough => exact .inl ⟨input, rfl, rfl⟩
  | unsupported e => exact .inl ⟨input, rfl, rfl⟩
  | absent => exact .inl ⟨input, rfl, rfl⟩

/-- Warning keeps the name of the function. -/
theorem owner_warnOnce : g.warnOnce.value.owner = g.owner := by
  have hsettled := g.value_warnOnce
  rw [hsettled]
  rfl

/-- A guarded call tells whether its input is rejected, whatever its body makes of the input. -/
theorem tellsRejection_invoke (input : Value) (body : Value → Except PredictError Value) :
    TellsRejection (g.invoke input body) g.owner := by
  have hwarned := g.linesOf_warnOnce
  have howner := g.owner_warnOnce
  rcases g.warnOnce.value.coerceInput_spec input with
    ⟨coerced, hvalue, hlines⟩ | ⟨e, hvalue, hlines⟩
  · -- the input is taken, so the body runs and what follows it has no rejection to tell of
    have hran : (g.invoke input body).value.bodyInput = some coerced := by
      cases hbody : body coerced <;> simp [invoke, hvalue, hbody]
    have hnone : (g.invoke input body).linesOf .predictInputRejected = [] := by
      cases hbody : body coerced <;>
        simp [invoke, hwarned, hvalue, hlines, hbody, linesOf_checkOutput]
    exact ⟨fun h => by simp [hran] at h, fun _ _ => hnone⟩
  · have hstopped : (g.invoke input body).value.bodyInput = none := by simp [invoke, hvalue]
    have hresult : (g.invoke input body).value.result = .error (.invalidInput e) := by
      simp [invoke, hvalue]
    have hone : (g.invoke input body).linesOf .predictInputRejected =
        [rejectionLine g.owner (.invalidInput e)] := by
      simp [invoke, hwarned, hvalue, hlines, howner]
    exact ⟨fun _ => ⟨e, hresult, hone⟩, fun given h => by simp [hstopped] at h⟩

/-- Requests leave the name of the function where each of them does. -/
theorem owner_serveAll {ρ : Type} {serve : Guard → ρ → Logged Call}
    (hserve : ∀ g request, (serve g request).value.guard.owner = g.owner) (requests : List ρ) :
    (serveAll serve g requests).value.owner = g.owner := by
  induction requests generalizing g with
  | nil => rfl
  | cons request rest ih =>
    have hfirst := hserve g request
    have hrest := ih (serve g request).value.guard
    rw [serveAll, Logged.value_bind, hrest, hfirst]

/-- A guarded call leaves the name of the function. -/
theorem owner_invoke (input : Value) (body : Value → Except PredictError Value) :
    (g.invoke input body).value.guard.owner = g.owner := by
  rw [guard_invoke]
  rfl

end Guard

/-! ## Calls after other calls -/

/-- The function after earlier calls of it. -/
def Decorated.after (d : Decorated) (earlier : List (Value × Option Params)) : Decorated :=
  { d with guard := (d.predictAll earlier).value }

/-- The class after earlier calls of it. -/
def ValidatedModel.after (m : ValidatedModel)
    (earlier : List (Option ModelContext × Value × Option Params)) : ValidatedModel :=
  { m with guard := (m.predictAll earlier).value }

/-- The loaded model after earlier calls of it. -/
def LoadedModel.after (m : LoadedModel) (earlier : List (Value × Option Params)) : LoadedModel :=
  { m with guard := (m.predictAll earlier).value }

/-- Calls of a function leave its name with its guard. -/
theorem Decorated.owner_after (d : Decorated) (earlier : List (Value × Option Params)) :
    (d.after earlier).guard.owner = d.guard.owner :=
  d.guard.owner_serveAll (fun g _ => g.owner_invoke _ _) earlier

/-- Calls of a class leave its name with its guard. -/
theorem ValidatedModel.owner_after (m : ValidatedModel)
    (earlier : List (Option ModelContext × Value × Option Params)) :
    (m.after earlier).guard.owner = m.guard.owner :=
  m.guard.owner_serveAll (fun g _ => g.owner_invoke _ _) earlier

/-- Calls of a loaded model leave its name with its guard, also those that lack a column. -/
theorem LoadedModel.owner_after (m : LoadedModel) (earlier : List (Value × Option Params)) :
    (m.after earlier).guard.owner = m.guard.owner := by
  refine m.guard.owner_serveAll (fun g request => ?_) earlier
  rw [predict]
  split
  case h_1 => rfl
  case h_2 => exact g.owner_invoke _ _

namespace LoadedModel

variable {m : LoadedModel} {input : Value} {params : Option Params}

/-- Without a missing column the guard of a loaded model tells whether the input is rejected. -/
theorem tellsRejection_predict (h : ∀ column, ¬ ColumnMissing m.signature input column) :
    TellsRejection (m.predict input params) m.guard.owner := by
  have hcheck := checkColumns_of_forall_not h
  rw [predict, hcheck]
  exact m.guard.tellsRejection_invoke _ _

/-- A call that lacks a column logs nothing. -/
theorem lines_predict_of_columnMissing {column : String}
    (h : ColumnMissing m.signature input column) : (m.predict input params).lines = [] := by
  have hcheck := checkColumns_of_columnMissing h
  rw [predict, hcheck]
  rfl

end LoadedModel

/-- Every call of a guarded function or class, whatever was called before, tells of its input: once,
with the name and the message, if the input is rejected, and not at all if the body runs. So does
every call of a loaded model, whatever its signature, unless the input lacks a column that a
signature not derived from hints requires: such an input is rejected before the body runs, and
nothing is logged. -/
theorem rejections_logged_by_guards (input : Value) (params : Option Params) :
    (∀ (c : Callable) earlier,
      TellsRejection ((c.decorate.value.after earlier).predict input params) c.name) ∧
    (∀ (m : ModelClass) earlier context,
      TellsRejection ((m.validated.value.after earlier).predict context input params) m.name) ∧
    (∀ id signature given (logic : ModelLogic) validateOutputs earlier,
      let m := (LoadedModel.ofLogic id signature given logic validateOutputs).after earlier
      ((∀ column, ¬ ColumnMissing signature input column) →
        TellsRejection (m.predict input params) logic.name) ∧
      ∀ column, ColumnMissing signature input column →
        (m.predict input params).value.bodyInput = none ∧
        (m.predict input params).value.result =
          .error (.invalidInput (.invalidInput (.missingField column))) ∧
        (m.predict input params).lines = []) := by
  refine ⟨fun c earlier => ?_, fun m earlier context => ?_,
    fun id signature given logic validateOutputs earlier => ?_⟩
  case refine_1 =>
    have howner : (c.decorate.value.after earlier).guard.owner = c.name :=
      (c.decorate.value.owner_after earlier).trans (Guard.ofHints c.name c.hints).owner_warnOnce
    rw [← howner]
    exact Guard.tellsRejection_invoke _ _ _
  case refine_2 =>
    have howner : (m.validated.value.after earlier).guard.owner = m.name :=
      (m.validated.value.owner_after earlier).trans (Guard.ofHints m.name m.hints).owner_warnOnce
    rw [← howner]
    exact Guard.tellsRejection_invoke _ _ _
  case refine_3 =>
    intro m
    have howner : m.guard.owner = logic.name :=
      (LoadedModel.ofLogic id signature given logic validateOutputs).owner_after earlier
    refine ⟨fun hcomplete => ?_, fun column hmissing => ?_⟩
    · rw [← howner]
      exact LoadedModel.tellsRejection_predict hcomplete
    · have hpredict := @LoadedModel.predict_of_columnMissing m input params column hmissing
      have hlines := @LoadedModel.lines_predict_of_columnMissing m input params column hmissing
      rw [hpredict]
      exact ⟨rfl, rfl, hlines⟩

/-- A text in place of a number, to a function of maps of numbers and to its loaded model with a
column `x`: under the name `x` the loaded model logs the rejection, under another name the function
does and the loaded model, which misses the column, does not. -/
theorem rejections_logged_by_guards_columns :
    let c : Callable :=
      ⟨"predict", ⟨some (.dict (.scalar .str) (.scalar .float)), none⟩, fun input _ => .ok input⟩
    let columns : ModelSignature := .ofSchemas (some ⟨[⟨some "x", .scalar .double, true⟩]⟩) none
    let m := (LoadedModel.ofLogic Store.nilId (some columns) none (.callable c) true).after []
    let d := c.decorate.value.after []
    let misfit := Value.map [("x", .str "a")]
    let astray := Value.map [("y", .str "a")]
    let line (name : String) : LogLine := ⟨.info, "PREDICT_INPUT_REJECTED",
      [("function", "predict"),
        ("message", "Invalid value for `" ++ name ++ "`: Expected float, but got str")]⟩
    (m.predict misfit none).value.bodyInput = none ∧
      (m.predict misfit none).linesOf .predictInputRejected = [line "x"] ∧
      (d.predict astray none).value.bodyInput = none ∧
      (d.predict astray none).linesOf .predictInputRejected = [line "y"] ∧
      ColumnMissing (some columns) astray "x" ∧
      (m.predict astray none).value.bodyInput = none ∧ (m.predict astray none).lines = [] := by
  intro c columns m d misfit astray line
  obtain ⟨-, -, hloadedMisfit⟩ := rejections_logged_by_guards misfit none
  obtain ⟨hfunction, -, hloadedAstray⟩ := rejections_logged_by_guards astray none
  have hcomplete (column : String) : ¬ ColumnMissing (some columns) misfit column := by
    rintro ⟨_, _, hcolumns, -, hinputs, _, hpresent, hfirst⟩
    cases hcolumns
    cases hinputs
    cases hpresent
    have hfound := Schema.find?_of_firstAbsent hfirst
    cases hfound
  have hmissing : ColumnMissing (some columns) astray "x" :=
    ⟨columns, _, rfl, rfl, rfl, ["y"], rfl, [], _, [], rfl, rfl, rfl, by decide, by simp⟩
  have hmisfit := (hloadedMisfit Store.nilId (some columns) none (.callable c) true []).1 hcomplete
  have hastray := (hloadedAstray Store.nilId (some columns) none (.callable c) true []).2
    "x" hmissing
  have hlocal := hfunction c []
  have hmisfitStops : (m.predict misfit none).value.bodyInput = none := rfl
  have hlocalStops : (d.predict astray none).value.bodyInput = none := rfl
  obtain ⟨e, hresult, hlines⟩ := hmisfit.rejected hmisfitStops
  obtain ⟨e', hresult', hlines'⟩ := hlocal.rejected hlocalStops
  cases hresult
  cases hresult'
  exact ⟨hmisfitStops, hlines, hlocalStops, hlines', hmissing, hastray.1, hastray.2.2⟩

end TypedModel
