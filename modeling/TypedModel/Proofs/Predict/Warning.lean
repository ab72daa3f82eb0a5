import TypedModel.Proofs.Log.Reports
import TypedModel.Store.Basic

/-!
# The warning is given once

Whatever is asked of a guard and in whatever order, the warning about an unsupported input hint is
given at most once, by the first call that warns, and the guard remembers it. So functions and
classes give it when they are put behind a guard and never again, and loaded models never do.
-/

namespace TypedModel

/-! ## Calls of a guard -/

/-- Something that is asked of a guard. -/
inductive GuardCall where
  /-- To warn unless that was done. -/
  | warn
  /-- To coerce an input. -/
  | coerce (input : Value)
  /-- To check an output. -/
  | check (output : Value)
  /-- To run a body on an input. -/
  | invoke (input : Value) (body : Value → Except PredictError Value)
  /-- To tell whether the warning has been given. -/
  | tell

/-- The calls that give the warning where it is due. -/
def GuardCall.warns : GuardCall → Bool
  | .warn | .invoke _ _ => true
  | _ => false

namespace Guard

/-- The guard after a call. -/
def after (g : Guard) : GuardCall → Logged Guard
  | .warn => g.warnOnce
  | .coerce input => do
    let _ ← g.coerceInput input
    pure g
  | .check output => do
    let _ ← g.checkOutput output
    pure g
  | .invoke input body => do
    let call ← g.invoke input body
    pure call.guard
  | .tell => pure g

/-- The guard after calls in order. -/
def afterAll (g : Guard) (calls : List GuardCall) : Logged Guard := calls.foldlM after g

/-- The first call is followed by the others. -/
theorem afterAll_cons (g : Guard) (call : GuardCall) (rest : List GuardCall) :
    g.afterAll (call :: rest) = g.after call >>= fun next => next.afterAll rest := rfl

variable (g : Guard)

/-- Whether the warning is still to be given. -/
def isDue : Bool := g.isUnsupported && !g.warned

/-- The guard with the warning given, if there is one to give. -/
def settled : Guard := { g with warned := g.warned || g.isUnsupported }

/-- A settled guard owes no warning. -/
@[simp] theorem isDue_settled : g.settled.isDue = false := by
  unfold isDue settled isUnsupported
  cases g.input <;> simp

/-- A guard that owes no warning is settled. -/
theorem settled_of_not_isDue {g : Guard} (h : g.isDue = false) : g.settled = g := by
  have hwarned : (g.warned || g.isUnsupported) = g.warned := by
    revert h
    unfold isDue
    cases g.warned <;> simp
  rw [settled, hwarned]

/-- Warning gives the warning where it is due. -/
theorem count_warnOnce :
    g.warnOnce.count .typeHintUnsupported = if g.isDue then 1 else 0 := by
  unfold warnOnce isDue isUnsupported
  cases g.input with
  | unsupported e => cases g.warned <;> simp [unsupportedWarning]
  | validate hint => simp
  | passThrough => simp
  | absent => simp

/-- Warning settles the guard. -/
theorem value_warnOnce : g.warnOnce.value = g.settled := by
  obtain ⟨owner, input, output, enabled, warned⟩ := g
  cases input with
  | unsupported e => cases warned <;> simp [warnOnce, settled, isUnsupported]
  | validate hint => simp [warnOnce, settled, isUnsupported]
  | passThrough => simp [warnOnce, settled, isUnsupported]
  | absent => simp [warnOnce, settled, isUnsupported]

/-- Coercing an input gives no such warning. -/
theorem count_coerceInput (input : Value) :
    (g.coerceInput input).count .typeHintUnsupported = 0 := by
  unfold coerceInput
  cases g.input with
  | validate hint => cases hcoerced : hint.coerce input <;> simp [hcoerced]
  | passThrough => simp
  | unsupported e => simp
  | absent => simp

/-- Checking an output gives no such warning. -/
theorem count_checkOutput (output : Value) :
    (g.checkOutput output).count .typeHintUnsupported = 0 := by
  unfold checkOutput
  split
  next => simp
  next hint _ => cases hint.validate output <;> simp

/-- A guarded call gives the warning where it is due, and nothing else in it does. -/
theorem count_invoke (input : Value) (body : Value → Except PredictError Value) :
    (g.invoke input body).count .typeHintUnsupported = if g.isDue then 1 else 0 := by
  rw [invoke, Logged.count_bind, Logged.count_bind, count_warnOnce, count_coerceInput]
  cases (g.warnOnce.value.coerceInput input).value with
  | error e => simp
  | ok coerced => cases hbody : body coerced <;> simp [hbody, count_checkOutput]

/-- A guarded call settles the guard, whatever becomes of the call. -/
theorem guard_invoke (input : Value) (body : Value → Except PredictError Value) :
    (g.invoke input body).value.guard = g.settled := by
  rw [invoke, Logged.value_bind, Logged.value_bind, ← value_warnOnce]
  cases (g.warnOnce.value.coerceInput input).value with
  | error e => rfl
  | ok coerced => cases hbody : body coerced <;> simp [hbody]

/-- What one call does: those that warn give the warning where it is due, and settle the guard; the
others leave the guard as it is. -/
theorem after_spec (call : GuardCall) :
    (g.after call).count .typeHintUnsupported = (if g.isDue && call.warns then 1 else 0) ∧
      (g.after call).value = if call.warns then g.settled else g := by
  cases call with
  | warn => simp [after, GuardCall.warns, count_warnOnce, value_warnOnce]
  | coerce input => simp [after, GuardCall.warns, count_coerceInput]
  | check output => simp [after, GuardCall.warns, count_checkOutput]
  | invoke input body => simp [after, GuardCall.warns, count_invoke, guard_invoke]
  | tell => simp [after, GuardCall.warns]

/-- What calls do: the first of those that warn gives the warning where it is due, and settles the
guard. -/
theorem afterAll_spec (calls : List GuardCall) :
    (g.afterAll calls).count .typeHintUnsupported =
        (if g.isDue && calls.any GuardCall.warns then 1 else 0) ∧
      (g.afterAll calls).value = if calls.any GuardCall.warns then g.settled else g := by
  induction calls generalizing g with
  | nil => simp [afterAll]
  | cons call rest ih =>
    obtain ⟨hcount, hvalue⟩ := g.after_spec call
    obtain ⟨hcountRest, hvalueRest⟩ := ih (g.after call).value
    rw [afterAll_cons, Logged.count_bind, Logged.value_bind, hcount, hcountRest, hvalueRest, hvalue]
    cases hwarns : call.warns with
    | false => simp [hwarns]
    | true => simp [hwarns, settled_of_not_isDue]

/-- After calls the warning counts as given where it did before, or where there is one to give and
some call has given it. -/
theorem warned_afterAll (calls : List GuardCall) :
    (g.afterAll calls).value.warned =
      (g.warned || g.isUnsupported && calls.any GuardCall.warns) := by
  rw [(g.afterAll_spec calls).2]
  cases calls.any GuardCall.warns <;> simp [settled]

/-! ## Guards that are made -/

/-- A guard of hints, whose warning may count as given from the start, with output checks on or
off. -/
def start (owner : String) (hints : TypeHints) (quiet enabled : Bool) : Guard :=
  (if quiet then silent owner hints else ofHints owner hints).withOutputValidation enabled

end Guard

/-- The input hint is declared, it is not passed through, and an error is found with it. -/
def TypeHints.HasUnsupportedInput (hints : TypeHints) : Prop :=
  ∃ hint, hints.input = some hint ∧ hint.isPassThrough = false ∧ ∃ e, hint.schemaError? = some e

namespace Guard

/-- A guard is without use of its input hint where that is unsupported. -/
theorem isUnsupported_ofHints_iff {owner : String} {hints : TypeHints} :
    (ofHints owner hints).isUnsupported = true ↔ hints.HasUnsupportedInput := by
  unfold isUnsupported ofHints InputCheck.ofHint TypeHints.HasUnsupportedInput
  cases hints.input with
  | none => simp
  | some hint =>
    cases hpassed : hint.isPassThrough <;> cases hchecked : hint.schemaError? <;> simp [*]

/-- A guard that is made owes a warning where its input hint is unsupported and it is not quiet. -/
theorem isDue_start_iff {owner : String} {hints : TypeHints} {quiet enabled : Bool} :
    (start owner hints quiet enabled).isDue = true ↔
      quiet = false ∧ hints.HasUnsupportedInput := by
  rw [← @isUnsupported_ofHints_iff owner]
  cases quiet
  · simp [start, isDue, withOutputValidation, isUnsupported, ofHints]
  · simp [start, isDue, withOutputValidation, silent]

/-- The warning of a guard that is made counts as given from the start where it is quiet. -/
theorem warned_start {owner : String} {hints : TypeHints} {quiet enabled : Bool} :
    (start owner hints quiet enabled).warned = quiet := by
  cases quiet <;> rfl

/-- A guard that is made to warn at once warns where its input hint is unsupported. -/
theorem warnOnce_ofHints_spec (owner : String) (hints : TypeHints) :
    (ofHints owner hints).warnOnce.count .typeHintUnsupported ≤ 1 ∧
      ((ofHints owner hints).warnOnce.count .typeHintUnsupported = 1 ↔
        hints.HasUnsupportedInput) := by
  have hdue : (ofHints owner hints).isDue = true ↔ hints.HasUnsupportedInput := by
    rw [isDue, ← @isUnsupported_ofHints_iff owner]
    simp [ofHints]
  rw [count_warnOnce, ← hdue]
  split <;> simp [*]

/-! ## Requests one after the other -/

/-- The guard after requests that are served through it in order. -/
def serveAll {ρ : Type} (serve : Guard → ρ → Logged Call) (g : Guard) : List ρ → Logged Guard
  | [] => pure g
  | request :: rest => do
    let call ← serve g request
    serveAll serve call.guard rest

/-- Requests give no warning where each of them gives none while none is due, and leaves none due. -/
theorem count_serveAll {ρ : Type} {serve : Guard → ρ → Logged Call}
    (hserve : ∀ g request, g.isDue = false →
      (serve g request).count .typeHintUnsupported = 0 ∧ (serve g request).value.guard.isDue = false)
    {g : Guard} (hdue : g.isDue = false) (requests : List ρ) :
    (serveAll serve g requests).count .typeHintUnsupported = 0 := by
  induction requests generalizing g with
  | nil => rfl
  | cons request rest ih =>
    obtain ⟨hcount, hnext⟩ := hserve g request hdue
    rw [serveAll, Logged.count_bind, hcount, ih hnext]

/-- A guarded call gives no warning where none is due, and leaves none due. -/
theorem invoke_of_not_isDue {g : Guard} (hdue : g.isDue = false) (input : Value)
    (body : Value → Except PredictError Value) :
    (g.invoke input body).count .typeHintUnsupported = 0 ∧
      (g.invoke input body).value.guard.isDue = false := by
  rw [count_invoke, guard_invoke, hdue, settled_of_not_isDue hdue]
  exact ⟨rfl, hdue⟩

end Guard

/-- The guard of a function after calls of it in order, each with an input and parameters. -/
def Decorated.predictAll (d : Decorated) (requests : List (Value × Option Params)) : Logged Guard :=
  Guard.serveAll (fun g request => ({ d with guard := g }).predict request.1 request.2) d.guard
    requests

/-- The guard of a class after calls of it in order, each with a context as well. -/
def ValidatedModel.predictAll (m : ValidatedModel)
    (requests : List (Option ModelContext × Value × Option Params)) : Logged Guard :=
  Guard.serveAll (fun g request =>
    ({ m with guard := g }).predict request.1 request.2.1 request.2.2) m.guard requests

/-- The guard of a loaded model after calls of it in order. -/
def LoadedModel.predictAll (m : LoadedModel) (requests : List (Value × Option Params)) :
    Logged Guard :=
  Guard.serveAll (fun g request => ({ m with guard := g }).predict request.1 request.2) m.guard
    requests

/-- A function warns where its input hint is unsupported, when it is put behind a guard. -/
theorem Callable.count_decorate (c : Callable) :
    c.decorate.count .typeHintUnsupported =
      (Guard.ofHints c.name c.hints).warnOnce.count .typeHintUnsupported := by
  rw [decorate, Logged.count_bind, Logged.count_pure, Nat.add_zero]

/-- A class warns where its input hint is unsupported, when it is put behind a guard. -/
theorem ModelClass.count_validated (m : ModelClass) :
    m.validated.count .typeHintUnsupported =
      (Guard.ofHints m.name m.hints).warnOnce.count .typeHintUnsupported := by
  rw [validated, Logged.count_bind, Logged.count_pure, Nat.add_zero]

/-- No call of a function warns once it is behind a guard. -/
theorem Callable.count_predictAll_decorate (c : Callable) (requests : List (Value × Option Params)) :
    (c.decorate.value.predictAll requests).count .typeHintUnsupported = 0 := by
  refine Guard.count_serveAll (fun g request hdue => g.invoke_of_not_isDue hdue _ _) ?_ requests
  have hguard : c.decorate.value.guard = (Guard.ofHints c.name c.hints).settled :=
    Guard.value_warnOnce _
  rw [hguard, Guard.isDue_settled]

/-- No call of a class warns once it is behind a guard. -/
theorem ModelClass.count_predictAll_validated (m : ModelClass)
    (requests : List (Option ModelContext × Value × Option Params)) :
    (m.validated.value.predictAll requests).count .typeHintUnsupported = 0 := by
  refine Guard.count_serveAll (fun g request hdue => g.invoke_of_not_isDue hdue _ _) ?_ requests
  have hguard : m.validated.value.guard = (Guard.ofHints m.name m.hints).settled :=
    Guard.value_warnOnce _
  rw [hguard, Guard.isDue_settled]

/-- No call of a loaded model warns, whether columns are missing or not. -/
theorem LoadedModel.count_predictAll_ofLogic (id : ModelId) (signature : Option ModelSignature)
    (given : Option Value) (logic : ModelLogic) (validateOutputs : Bool)
    (requests : List (Value × Option Params)) :
    ((ofLogic id signature given logic validateOutputs).predictAll requests).count
      .typeHintUnsupported = 0 := by
  refine Guard.count_serveAll (fun g request hdue => ?_) ?_ requests
  · rw [predict]
    split
    case h_1 => exact ⟨rfl, hdue⟩
    case h_2 => exact g.invoke_of_not_isDue hdue _ _
  · have hquiet : (ofLogic id signature given logic validateOutputs).guard.warned = true := rfl
    rw [Guard.isDue, hquiet, Bool.not_true, Bool.and_false]

/-- Whatever is asked of a guard, in any order, the warning about an unsupported input hint is given
once if there is one to give, the guard is not quiet and something asked for warns, and not at all
otherwise; the guard counts it as given exactly where it is quiet or the warning is among the lines,
and goes on doing so. So a function or a class is warned about when it is put behind a guard and no
call warns again, and no call of a loaded model warns. -/
theorem Guard.unsupported_input_warned_once (hints : TypeHints) :
    (∀ owner quiet enabled calls,
      ((start owner hints quiet enabled).afterAll calls).count .typeHintUnsupported ≤ 1 ∧
      (((start owner hints quiet enabled).afterAll calls).count .typeHintUnsupported = 1 ↔
        quiet = false ∧ hints.HasUnsupportedInput ∧ ∃ call ∈ calls, call.warns = true) ∧
      (((start owner hints quiet enabled).afterAll calls).value.warned = true ↔
        quiet = true ∨
          ((start owner hints quiet enabled).afterAll calls).Reports .typeHintUnsupported) ∧
      ∀ more, ((start owner hints quiet enabled).afterAll calls).value.warned = true →
        ((start owner hints quiet enabled).afterAll (calls ++ more)).value.warned = true) ∧
    (∀ c : Callable, c.hints = hints →
      c.decorate.count .typeHintUnsupported ≤ 1 ∧
      (c.decorate.count .typeHintUnsupported = 1 ↔ hints.HasUnsupportedInput) ∧
      ∀ requests, (c.decorate.value.predictAll requests).count .typeHintUnsupported = 0) ∧
    (∀ m : ModelClass, m.hints = hints →
      m.validated.count .typeHintUnsupported ≤ 1 ∧
      (m.validated.count .typeHintUnsupported = 1 ↔ hints.HasUnsupportedInput) ∧
      ∀ requests, (m.validated.value.predictAll requests).count .typeHintUnsupported = 0) ∧
    (∀ logic : ModelLogic, logic.hints = hints → ∀ id signature given validateOutputs requests,
      ((LoadedModel.ofLogic id signature given logic validateOutputs).predictAll requests).count
        .typeHintUnsupported = 0) := by
  refine ⟨fun owner quiet enabled calls => ?_, ?_, ?_, ?_⟩
  case refine_1 =>
    have hcount := ((start owner hints quiet enabled).afterAll_spec calls).1
    have hdue := @isDue_start_iff owner hints quiet enabled
    have hany : calls.any GuardCall.warns = true ↔ ∃ call ∈ calls, call.warns = true :=
      List.any_eq_true
    refine ⟨?_, ?_, ?_, fun more hwarned => ?_⟩
    · rw [hcount]
      split <;> omega
    · rw [hcount, ← and_assoc, ← hdue, ← hany, ← Bool.and_eq_true]
      split <;> simp [*]
    · rw [← Logged.count_pos_iff, hcount, warned_afterAll, isDue, warned_start]
      cases quiet <;>
        cases (start owner hints _ enabled).isUnsupported <;>
          cases calls.any GuardCall.warns <;> simp
    · rw [warned_afterAll, Bool.or_eq_true, Bool.and_eq_true] at hwarned ⊢
      refine hwarned.imp_right fun h => ⟨h.1, ?_⟩
      rw [List.any_append, h.2, Bool.true_or]
  case refine_2 =>
    rintro c rfl
    rw [c.count_decorate]
    obtain ⟨hle, hone⟩ := warnOnce_ofHints_spec c.name c.hints
    exact ⟨hle, hone, c.count_predictAll_decorate⟩
  case refine_3 =>
    rintro m rfl
    rw [m.count_validated]
    obtain ⟨hle, hone⟩ := warnOnce_ofHints_spec m.name m.hints
    exact ⟨hle, hone, m.count_predictAll_validated⟩
  case refine_4 =>
    intro logic _ id signature given validateOutputs requests
    exact LoadedModel.count_predictAll_ofLogic ..

end TypedModel
