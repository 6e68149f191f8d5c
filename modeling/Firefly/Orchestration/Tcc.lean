import Firefly.Orchestration.StepInvoker

set_option autoImplicit false

namespace Firefly.Orchestration

open Text

structure TccParticipant (σ : Type) where
  name : String
  tryAction : Action σ
  confirmAction : Action σ
  cancelAction : Option (Action σ) := none
  retry : RetryPolicy := {}

structure Tcc (σ : Type) where
  name : String
  participants : List (TccParticipant σ) := []

structure ConfirmError where
  participant : String
  source : BoxError
deriving DecidableEq

def ConfirmError.toString (error : ConfirmError) : String :=
  "confirm " ++ debugStr error.participant ++ ": " ++ error.source

def joined (errors : List ConfirmError) : String :=
  "\n".intercalate (errors.map ConfirmError.toString)

inductive TccError where
  | tryFailed (tcc participant : String) (source : BoxError)
  | confirm (errors : List ConfirmError)
deriving DecidableEq

def TccError.toString : TccError → String
  | .tryFailed tcc participant source =>
    "tcc " ++ debugStr tcc ++ ": try " ++ debugStr participant ++ ": " ++ source
  | .confirm errors => joined errors

namespace Tcc

variable {σ : Type}

abbrev size (tcc : Tcc σ) : Nat := tcc.participants.length

def participantAt (tcc : Tcc σ) (i : Fin tcc.size) : TccParticipant σ := tcc.participants.get i

def nameOf (tcc : Tcc σ) (i : Fin tcc.size) : String := (tcc.participantAt i).name

def cancellable (tcc : Tcc σ) (i : Fin tcc.size) : Bool := (tcc.participantAt i).cancelAction.isSome

inductive Event (n : Nat) where
  | onStart
  | onPhaseStarted (phase : TccPhase)
  | onParticipantStarted (phase : TccPhase) (i : Fin n)
  | call (phase : TccPhase) (i : Fin n) (result : Except AttemptError Unit)
  | onParticipantSuccess (phase : TccPhase) (i : Fin n)
  | onParticipantFailed (phase : TccPhase) (i : Fin n) (error : String)
  | onPhaseCompleted (phase : TccPhase)
  | onPhaseFailed (phase : TccPhase) (error : String)
  | onCompleted (success : Bool)
deriving DecidableEq

structure Participation (σ : Type) (n : Nat) where
  trace : List (Event n)
  result : Except BoxError Unit
  ctx : σ

def settledHook {n : Nat} (phase : TccPhase) (i : Fin n) : Except BoxError Unit → Event n
  | .ok () => .onParticipantSuccess phase i
  | .error message => .onParticipantFailed phase i message

def participate {n : Nat} (phase : TccPhase) (i : Fin n) (calls : List (Except AttemptError Unit))
    (result : Except BoxError Unit) (ctx : σ) : Participation σ n :=
  ⟨.onParticipantStarted phase i :: calls.map (.call phase i) ++ [settledHook phase i result],
    result, ctx⟩

def participantFailedText : String := "participant failed"

def invokeParticipant (tcc : Tcc σ) (phase : TccPhase) (action : TccParticipant σ → Action σ)
    (i : Fin tcc.size) (ctx : σ) : Participation σ tcc.size :=
  let participant := tcc.participantAt i
  let invocation := invokeWithPolicy participant.retry (action participant) ctx
  let result := (invocation.outcome participant.name participant.retry).mapError
    (unwrapInvokeCause participantFailedText participant.retry)
  participate phase i invocation.calls result invocation.ctx

def tryParticipant (tcc : Tcc σ) : Fin tcc.size → σ → Participation σ tcc.size :=
  tcc.invokeParticipant .tryPhase TccParticipant.tryAction

def confirmParticipant (tcc : Tcc σ) : Fin tcc.size → σ → Participation σ tcc.size :=
  tcc.invokeParticipant .confirm TccParticipant.confirmAction

-- A cancel is called directly: the retry policy covers the other two phases only.
def cancelParticipant {n : Nat} (cancel : Action σ) (i : Fin n) (ctx : σ) : Participation σ n :=
  let (attempt, ctx) := cancel ctx
  participate .cancel i [attempt.result.mapError .failed] attempt.result ctx

structure TryRun (σ : Type) (n : Nat) where
  trace : List (Event n)
  failed : Option (Fin n × BoxError)
  tried : List (Fin n)
  ctx : σ

def tryAll (tcc : Tcc σ) : List (Fin tcc.size) → List (Fin tcc.size) → σ → TryRun σ tcc.size
  | [], tried, ctx => ⟨[], none, tried, ctx⟩
  | i :: rest, tried, ctx =>
    let one := tcc.tryParticipant i ctx
    match one.result with
    | .error source => ⟨one.trace, some (i, source), tried, one.ctx⟩
    | .ok () =>
      let later := tcc.tryAll rest (tried ++ [i]) one.ctx
      { later with trace := one.trace ++ later.trace }

structure ConfirmRun (σ : Type) (n : Nat) where
  trace : List (Event n)
  failures : List ConfirmError
  ctx : σ

def confirmAll (tcc : Tcc σ) : List (Fin tcc.size) → σ → ConfirmRun σ tcc.size
  | [], ctx => ⟨[], [], ctx⟩
  | i :: rest, ctx =>
    let one := tcc.confirmParticipant i ctx
    let later := tcc.confirmAll rest one.ctx
    let failures := match one.result with
      | .ok () => later.failures
      | .error source => ⟨tcc.nameOf i, source⟩ :: later.failures
    ⟨one.trace ++ later.trace, failures, later.ctx⟩

def cancelEach (tcc : Tcc σ) : List (Fin tcc.size) → σ → List (Event tcc.size) × σ
  | [], ctx => ([], ctx)
  | i :: rest, ctx =>
    match (tcc.participantAt i).cancelAction with
    | none => tcc.cancelEach rest ctx
    | some cancel =>
      let one := cancelParticipant cancel i ctx
      let (later, ctx) := tcc.cancelEach rest one.ctx
      (one.trace ++ later, ctx)

def cancelTried (tcc : Tcc σ) (tried : List (Fin tcc.size)) (ctx : σ) :
    List (Event tcc.size) × σ :=
  let (trace, ctx) := tcc.cancelEach tried.reverse ctx
  let started := if tried = [] then [] else [.onPhaseStarted .cancel]
  (started ++ trace, ctx)

structure Run (σ : Type) (n : Nat) where
  trace : List (Event n)
  result : Except TccError Unit
  ctx : σ

def runInner (tcc : Tcc σ) (ctx : σ) : Run σ tcc.size :=
  let started := [.onStart, .onPhaseStarted .tryPhase]
  let tries := tcc.tryAll (List.finRange tcc.size) [] ctx
  match tries.failed with
  | some (i, source) =>
    let (cancels, ctx) := tcc.cancelTried tries.tried tries.ctx
    { trace := started ++ tries.trace ++ [.onPhaseFailed .tryPhase source] ++ cancels ++
        [.onCompleted false]
      result := .error (.tryFailed tcc.name (tcc.nameOf i) source)
      ctx }
  | none =>
    let confirms := tcc.confirmAll tries.tried tries.ctx
    let tried := started ++ tries.trace ++ [.onPhaseCompleted .tryPhase, .onPhaseStarted .confirm]
    if confirms.failures = [] then
      { trace := tried ++ confirms.trace ++ [.onPhaseCompleted .confirm, .onCompleted true]
        result := .ok ()
        ctx := confirms.ctx }
    else
      { trace := tried ++ confirms.trace ++
          [.onPhaseFailed .confirm (joined confirms.failures), .onCompleted false]
        result := .error (.confirm confirms.failures)
        ctx := confirms.ctx }

section Projections

variable {n : Nat}

@[simp] def Event.called? (phase : TccPhase) : Event n → Option (Fin n)
  | .call other i _ => if other = phase then some i else none
  | _ => none

@[simp] def Event.succeeded? (phase : TccPhase) : Event n → Option (Fin n)
  | .call other i (.ok ()) => if other = phase then some i else none
  | _ => none

@[simp] def Event.failed? (phase : TccPhase) : Event n → Option (Fin n × BoxError)
  | .onParticipantFailed other i error => if other = phase then some (i, error) else none
  | _ => none

def called (phase : TccPhase) (trace : List (Event n)) : List (Fin n) :=
  trace.filterMap (Event.called? phase)

def succeeded (phase : TccPhase) (trace : List (Event n)) : List (Fin n) :=
  trace.filterMap (Event.succeeded? phase)

def failures (phase : TccPhase) (trace : List (Event n)) : List (Fin n × BoxError) :=
  trace.filterMap (Event.failed? phase)

variable (phase : TccPhase) (event : Event n) (first second : List (Event n))

@[simp] theorem called_nil : called phase ([] : List (Event n)) = [] := rfl

@[simp] theorem succeeded_nil : succeeded phase ([] : List (Event n)) = [] := rfl

@[simp] theorem failures_nil : failures phase ([] : List (Event n)) = [] := rfl

@[simp] theorem called_cons :
    called phase (event :: first) = (event.called? phase).toList ++ called phase first := by
  rw [called, List.filterMap_cons]
  cases event.called? phase <;> rfl

@[simp] theorem succeeded_cons :
    succeeded phase (event :: first) = (event.succeeded? phase).toList ++ succeeded phase first := by
  rw [succeeded, List.filterMap_cons]
  cases event.succeeded? phase <;> rfl

@[simp] theorem failures_cons :
    failures phase (event :: first) = (event.failed? phase).toList ++ failures phase first := by
  rw [failures, List.filterMap_cons]
  cases event.failed? phase <;> rfl

@[simp] theorem called_append :
    called phase (first ++ second) = called phase first ++ called phase second := by
  simp [called]

@[simp] theorem succeeded_append :
    succeeded phase (first ++ second) = succeeded phase first ++ succeeded phase second := by
  simp [succeeded]

@[simp] theorem failures_append :
    failures phase (first ++ second) = failures phase first ++ failures phase second := by
  simp [failures]

theorem succeeded_subset_called : succeeded phase first ⊆ called phase first := by
  intro i member
  obtain ⟨event, listed, found⟩ := List.mem_filterMap.mp member
  refine List.mem_filterMap.mpr ⟨event, listed, ?_⟩
  cases event with
  | call other j result => rcases result with _ | _ <;> simp_all
  | _ => simp at found

def Within (trace : List (Event n)) : Prop :=
  ∀ other, other ≠ phase → called other trace = [] ∧ succeeded other trace = [] ∧
    failures other trace = []

theorem Within.nil : Within phase ([] : List (Event n)) :=
  fun _ _ => ⟨rfl, rfl, rfl⟩

theorem Within.append {phase : TccPhase} {first second : List (Event n)}
    (before : Within phase first) (after : Within phase second) : Within phase (first ++ second) := by
  intro other differs
  simp [before other differs, after other differs]

end Projections

structure Participates {n : Nat} (phase : TccPhase) (i : Fin n) (limit : Nat)
    (one : Participation σ n) : Prop where
  calls : ∃ count, 1 ≤ count ∧ count ≤ limit ∧ called phase one.trace = List.replicate count i
  succeeded : succeeded phase one.trace = if one.result = .ok () then [i] else []
  failures : failures phase one.trace = match one.result with
    | .ok () => []
    | .error source => [(i, source)]
  within : Within phase one.trace

section Calls

variable {n : Nat} (phase other : TccPhase) (i : Fin n) (calls : List (Except AttemptError Unit))

@[simp] theorem called_calls :
    called phase (calls.map (Event.call phase i)) = List.replicate calls.length i := by
  induction calls with
  | nil => rfl
  | cons call calls ih => simp [ih, List.replicate_succ]

@[simp] theorem succeeded_calls :
    succeeded phase (calls.map (Event.call phase i)) =
      List.replicate (calls.filterMap Except.toOption).length i := by
  induction calls with
  | nil => rfl
  | cons call calls ih =>
    rcases call with err | _ <;>
      simp [Except.toOption, List.filterMap_cons, ih, List.replicate_succ]

@[simp] theorem failures_calls : failures other (calls.map (Event.call phase i)) = [] := by
  induction calls <;> simp_all

theorem within_calls : Within phase (calls.map (Event.call phase i)) := by
  intro other differs
  have uncalled : called other (calls.map (Event.call phase i)) = [] := by
    induction calls <;> simp_all [differs.symm]
  have unsuccessful := succeeded_subset_called other (calls.map (Event.call phase i))
  rw [uncalled] at unsuccessful
  exact ⟨uncalled, List.subset_nil.mp unsuccessful, failures_calls phase other i calls⟩

end Calls

theorem participate_correct {n : Nat} (phase : TccPhase) (i : Fin n)
    (calls : List (Except AttemptError Unit)) (result : Except BoxError Unit) (ctx : σ) (limit : Nat)
    (bounds : 1 ≤ calls.length ∧ calls.length ≤ limit)
    (closed : calls.filterMap Except.toOption = result.toOption.toList) :
    Participates phase i limit (participate phase i calls result ctx) := by
  have hooks : (participate phase i calls result ctx).trace =
      [.onParticipantStarted phase i] ++ calls.map (.call phase i) ++
        [settledHook phase i result] := rfl
  refine ⟨⟨calls.length, bounds.1, bounds.2, ?_⟩, ?_, ?_, ?_⟩
  · cases result <;> simp [hooks, settledHook]
  · cases result <;> simp [participate, closed, settledHook, Except.toOption]
  · cases result <;> simp [participate, settledHook]
  · rw [hooks]
    refine .append (.append ?_ (within_calls phase i calls)) ?_ <;> intro other differs
    · simp
    · cases result <;> simp [settledHook, differs.symm]

theorem invokeParticipant_correct (tcc : Tcc σ) (phase : TccPhase)
    (action : TccParticipant σ → Action σ) (i : Fin tcc.size) (ctx : σ) :
    Participates phase i (tcc.participantAt i).retry.attempts
      (tcc.invokeParticipant phase action i ctx) := by
  have formed := invokeWithPolicy_wellFormed (tcc.participantAt i).retry
    (action (tcc.participantAt i)) ctx
  refine participate_correct phase i _ _ _ _ formed.length ?_
  obtain ⟨failed, ⟨last, calls, -⟩ | ⟨err, last, calls, -⟩⟩ := formed.shape
  · simp [calls, Invocation.outcome, last, Except.toOption, Except.mapError,
      List.filterMap_map, Function.comp_def]
  · cases err <;> simp [calls, Invocation.outcome, last, Except.toOption, Except.mapError,
      List.filterMap_map, Function.comp_def]

theorem cancelParticipant_correct {n : Nat} (cancel : Action σ) (i : Fin n) (ctx : σ) :
    Participates .cancel i 1 (cancelParticipant cancel i ctx) := by
  refine participate_correct .cancel i _ _ _ 1 (by simp) ?_
  cases (cancel ctx).1.result <;> simp [Except.mapError, Except.toOption]

theorem tryAll_correct (tcc : Tcc σ) (rest tried : List (Fin tcc.size)) (ctx : σ) :
    Within .tryPhase (tcc.tryAll rest tried ctx).trace ∧
      ∃ done, (tcc.tryAll rest tried ctx).tried = tried ++ done ∧
        succeeded .tryPhase (tcc.tryAll rest tried ctx).trace = done ∧
        ((tcc.tryAll rest tried ctx).failed = none ∧ rest = done ∧
            failures .tryPhase (tcc.tryAll rest tried ctx).trace = [] ∨
          ∃ k source later, (tcc.tryAll rest tried ctx).failed = some (k, source) ∧
            rest = done ++ k :: later ∧
            failures .tryPhase (tcc.tryAll rest tried ctx).trace = [(k, source)]) := by
  induction rest generalizing tried ctx with
  | nil => exact ⟨Within.nil _, [], by simp [tryAll], rfl, .inl ⟨rfl, rfl, rfl⟩⟩
  | cons i rest ih =>
    have one := invokeParticipant_correct tcc .tryPhase TccParticipant.tryAction i ctx
    rw [tryAll, tryParticipant]
    cases result : (tcc.invokeParticipant .tryPhase TccParticipant.tryAction i ctx).result with
    | error source =>
      refine ⟨one.within, [], by simp, by simp [one.succeeded, result], .inr ?_⟩
      exact ⟨i, source, rest, rfl, rfl, by simp [one.failures, result]⟩
    | ok =>
      obtain ⟨within, done, triedIs, successes, ends⟩ := ih (tried ++ [i])
        (tcc.invokeParticipant .tryPhase TccParticipant.tryAction i ctx).ctx
      refine ⟨one.within.append within, i :: done, by simp [triedIs], ?_, ?_⟩
      · simp [one.succeeded, result, successes]
      · simpa [one.failures, result] using ends

theorem confirmAll_correct (tcc : Tcc σ) (rest : List (Fin tcc.size)) (ctx : σ) :
    Within .confirm (tcc.confirmAll rest ctx).trace ∧
      (∀ i, i ∈ called .confirm (tcc.confirmAll rest ctx).trace ↔ i ∈ rest) ∧
      (tcc.confirmAll rest ctx).failures =
        (failures .confirm (tcc.confirmAll rest ctx).trace).map
          (fun failure => ⟨tcc.nameOf failure.1, failure.2⟩) ∧
      (rest.Nodup → (failures .confirm (tcc.confirmAll rest ctx).trace).map Prod.fst =
        rest.filter fun i => i ∉ succeeded .confirm (tcc.confirmAll rest ctx).trace) := by
  induction rest generalizing ctx with
  | nil => exact ⟨Within.nil _, by simp [confirmAll, called], rfl, fun _ => rfl⟩
  | cons i rest ih =>
    have one := invokeParticipant_correct tcc .confirm TccParticipant.confirmAction i ctx
    obtain ⟨count, atLeast, -, calls⟩ := one.calls
    rw [confirmAll, confirmParticipant]
    obtain ⟨within, members, errors, failing⟩ :=
      ih (tcc.invokeParticipant .confirm TccParticipant.confirmAction i ctx).ctx
    refine ⟨one.within.append within, ?_, ?_, ?_⟩
    · intro j
      have called : count ≠ 0 := by omega
      simp [calls, members, called]
    · cases result : (tcc.invokeParticipant .confirm TccParticipant.confirmAction i ctx).result <;>
        simp [one.failures, result, errors]
    · intro distinct
      obtain ⟨fresh, distinct⟩ := List.nodup_cons.mp distinct
      have later : ∀ j ∈ succeeded .confirm (tcc.confirmAll rest
          (tcc.invokeParticipant .confirm TccParticipant.confirmAction i ctx).ctx).trace, j ∈ rest :=
        fun j member => (members j).mp (succeeded_subset_called _ _ member)
      have own : i ∉ succeeded .confirm (tcc.confirmAll rest
          (tcc.invokeParticipant .confirm TccParticipant.confirmAction i ctx).ctx).trace :=
        fun member => fresh (later i member)
      have others : ∀ j ∈ rest, j ≠ i := fun j member same => fresh (same ▸ member)
      cases result : (tcc.invokeParticipant .confirm TccParticipant.confirmAction i ctx).result with
      | error source => simp [one.failures, one.succeeded, result, own, failing distinct]
      | ok =>
        simp only [failures_append, one.failures, result, List.nil_append, failing distinct,
          succeeded_append, one.succeeded, if_true, List.cons_append, List.mem_cons, true_or,
          not_true_eq_false, decide_false, Bool.false_eq_true, not_false_eq_true,
          List.filter_cons_of_neg]
        refine List.filter_congr fun j member => ?_
        simp [others j member]

theorem cancelEach_correct (tcc : Tcc σ) (rest : List (Fin tcc.size)) (ctx : σ) :
    Within .cancel (tcc.cancelEach rest ctx).1 ∧
      called .cancel (tcc.cancelEach rest ctx).1 = rest.filter tcc.cancellable := by
  induction rest generalizing ctx with
  | nil => exact ⟨Within.nil _, rfl⟩
  | cons i rest ih =>
    rw [cancelEach]
    cases declared : (tcc.participantAt i).cancelAction with
    | none => simpa [cancellable, declared] using ih ctx
    | some cancel =>
      have one := cancelParticipant_correct cancel i ctx
      obtain ⟨within, calls⟩ := ih (cancelParticipant cancel i ctx).ctx
      refine ⟨one.within.append within, ?_⟩
      obtain ⟨count, atLeast, atMost, own⟩ := one.calls
      obtain rfl : count = 1 := Nat.le_antisymm atMost atLeast
      simp [own, calls, cancellable, declared]

end Tcc

end Firefly.Orchestration
