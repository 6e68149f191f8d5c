import Firefly.Orchestration.Tcc

set_option autoImplicit false

namespace Firefly.Orchestration.Tcc

variable {σ : Type}

/-- An action that a phase invokes, and the policy it is invoked under. -/
structure Duty (σ : Type) (n : Nat) where
  participant : Fin n
  retry : RetryPolicy
  action : Action σ

section Invocations

variable {n : Nat}

-- What the actions do when they are invoked one after the other, each in the state that the one
-- before it leaves.
def invocations : List (Duty σ n) → σ → List (Fin n × Invocation σ)
  | [], _ => []
  | duty :: rest, ctx =>
    let one := invokeWithPolicy duty.retry duty.action ctx
    (duty.participant, one) :: invocations rest one.ctx

def stateAfter (ctx : σ) : List (Fin n × Invocation σ) → σ
  | [] => ctx
  | one :: rest => stateAfter one.2.ctx rest

def made (phase : TccPhase) (all : List (Fin n × Invocation σ)) :
    List (TccPhase × Fin n × Except AttemptError Unit) :=
  all.flatMap fun one => one.2.calls.map fun result => (phase, one.1, result)

def Event.made? : Event n → Option (TccPhase × Fin n × Except AttemptError Unit)
  | .call phase i result => some (phase, i, result)
  | _ => none

def callsOf (trace : List (Event n)) : List (TccPhase × Fin n × Except AttemptError Unit) :=
  trace.filterMap Event.made?

@[simp] theorem made_nil (phase : TccPhase) : made phase ([] : List (Fin n × Invocation σ)) = [] := rfl

@[simp] theorem made_cons (phase : TccPhase) (one : Fin n × Invocation σ)
    (rest : List (Fin n × Invocation σ)) :
    made phase (one :: rest) =
      (one.2.calls.map fun result => (phase, one.1, result)) ++ made phase rest := by
  simp [made]

@[simp] theorem callsOf_nil : callsOf ([] : List (Event n)) = [] := rfl

@[simp] theorem callsOf_cons (event : Event n) (rest : List (Event n)) :
    callsOf (event :: rest) = event.made?.toList ++ callsOf rest := by
  rw [callsOf, List.filterMap_cons]
  cases event.made? <;> rfl

@[simp] theorem callsOf_append (first second : List (Event n)) :
    callsOf (first ++ second) = callsOf first ++ callsOf second := by
  simp [callsOf]

@[simp] theorem callsOf_calls (phase : TccPhase) (i : Fin n) (calls : List (Except AttemptError Unit)) :
    callsOf (calls.map (Event.call phase i)) = calls.map fun call => (phase, i, call) := by
  induction calls <;> simp_all [Event.made?]

@[simp] theorem callsOf_participate (phase : TccPhase) (i : Fin n)
    (calls : List (Except AttemptError Unit)) (result : Except BoxError Unit) (ctx : σ) :
    callsOf (participate phase i calls result ctx).trace =
      calls.map fun call => (phase, i, call) := by
  cases result <;> simp [participate, settledHook, Event.made?]

end Invocations

def duties (tcc : Tcc σ) (action : TccParticipant σ → Action σ) (order : List (Fin tcc.size)) :
    List (Duty σ tcc.size) :=
  order.map fun i => ⟨i, (tcc.participantAt i).retry, action (tcc.participantAt i)⟩

def tries (tcc : Tcc σ) : List (Duty σ tcc.size) :=
  tcc.duties TccParticipant.tryAction (List.finRange tcc.size)

def confirms (tcc : Tcc σ) : List (Duty σ tcc.size) :=
  tcc.duties TccParticipant.confirmAction (List.finRange tcc.size)

-- A declared cancel is called once, whatever the retry policy is.
def cancelDuties (tcc : Tcc σ) (order : List (Fin tcc.size)) : List (Duty σ tcc.size) :=
  order.filterMap fun i => (tcc.participantAt i).cancelAction.map fun cancel => ⟨i, {}, cancel⟩

def cancels (tcc : Tcc σ) (k : Fin tcc.size) : List (Duty σ tcc.size) :=
  tcc.cancelDuties ((List.finRange tcc.size).take k).reverse

def settle (tcc : Tcc σ) (one : Fin tcc.size × Invocation σ) : Except BoxError Unit :=
  (one.2.outcome (tcc.nameOf one.1) (tcc.participantAt one.1).retry).mapError
    (unwrapInvokeCause participantFailedText (tcc.participantAt one.1).retry)

def unconfirmed (tcc : Tcc σ) (all : List (Fin tcc.size × Invocation σ)) : List ConfirmError :=
  all.filterMap fun one =>
    match tcc.settle one with
    | .ok () => none
    | .error source => some ⟨tcc.nameOf one.1, source⟩

structure Cancelled (tcc : Tcc σ) (before : List (Fin tcc.size × Invocation σ)) (k : Fin tcc.size)
    (failing : Invocation σ) (source : BoxError) (run : Run σ tcc.size) : Prop where
  calls : callsOf run.trace = made .tryPhase (before ++ [(k, failing)]) ++
    made .cancel (invocations (tcc.cancels k) failing.ctx)
  state : run.ctx = stateAfter failing.ctx (invocations (tcc.cancels k) failing.ctx)
  reported : failures .tryPhase run.trace = [(k, source)]
  cancelled : called .cancel run.trace =
    (((List.finRange tcc.size).take k).filter tcc.cancellable).reverse
  unconfirmed : called .confirm run.trace = []
  result : run.result = .error (.tryFailed tcc.name (tcc.nameOf k) source)

structure Confirmed (tcc : Tcc σ) (confirmed : List (Fin tcc.size × Invocation σ)) (ctx : σ)
    (run : Run σ tcc.size) : Prop where
  calls : callsOf run.trace =
    made .tryPhase (invocations tcc.tries ctx) ++ made .confirm confirmed
  state : run.ctx = stateAfter (stateAfter ctx (invocations tcc.tries ctx)) confirmed
  attempted : ∀ i, i ∈ called .confirm run.trace
  uncancelled : called .cancel run.trace = []
  result : run.result = if tcc.unconfirmed confirmed = [] then .ok () else
    .error (.confirm (tcc.unconfirmed confirmed))
  reported : failures .tryPhase run.trace = [] ∧
    (failures .confirm run.trace).map (fun failure => ⟨tcc.nameOf failure.1, failure.2⟩) =
      tcc.unconfirmed confirmed
  failing : (failures .confirm run.trace).map Prod.fst =
    (List.finRange tcc.size).filter fun i => i ∉ succeeded .confirm run.trace

structure TwoPhase (tcc : Tcc σ) (ctx : σ) (run : Run σ tcc.size) : Prop where
  confirmNeedsTries : ∀ before i result after, run.trace = before ++ .call .confirm i result :: after →
    ∀ j, .call .tryPhase j (.ok ()) ∈ before
  exclusive : ∀ i, ¬ (i ∈ called .confirm run.trace ∧ i ∈ called .cancel run.trace)
  cancelled : ∀ before k failing later source,
    invocations tcc.tries ctx = before ++ (k, failing) :: later →
    (∀ one ∈ before, tcc.settle one = .ok ()) → tcc.settle (k, failing) = .error source →
      tcc.Cancelled before k failing source run
  confirmed : (∀ one ∈ invocations tcc.tries ctx, tcc.settle one = .ok ()) →
    tcc.Confirmed (invocations tcc.confirms (stateAfter ctx (invocations tcc.tries ctx))) ctx run

theorem mem_succeeded {n : Nat} {phase : TccPhase} {trace : List (Event n)} {i : Fin n} :
    i ∈ succeeded phase trace ↔ .call phase i (.ok ()) ∈ trace := by
  rw [succeeded, List.mem_filterMap]
  constructor
  · rintro ⟨event, member, found⟩
    cases event with
    | call other j result => rcases result with _ | _ <;> simp_all
    | _ => simp at found
  · exact fun member => ⟨_, member, by simp⟩

-- A confirm call cannot stand in a part of the trace without one.
theorem front_before_call {n : Nat} (front : List (Event n)) {back before after : List (Event n)}
    {i : Fin n} {result : Except AttemptError Unit} (unconfirmed : called .confirm front = [])
    (split : front ++ back = before ++ .call .confirm i result :: after) : front <+: before := by
  rcases List.append_eq_append_iff.mp split with ⟨middle, rfl, -⟩ | ⟨middle, whole, rest⟩
  · exact List.prefix_append _ _
  · cases middle with
    | nil => exact ⟨[], by simpa using whole⟩
    | cons event middle =>
      obtain ⟨rfl, -⟩ := List.cons.inj rest
      simp [whole] at unconfirmed

theorem take_of_finRange_split {n : Nat} {done later : List (Fin n)} {k : Fin n}
    (split : List.finRange n = done ++ k :: later) : done = (List.finRange n).take k := by
  have bound : done.length < n := by
    have lengths := congrArg List.length split
    simp at lengths
    omega
  have index : done.length = k := by
    have entry := congrArg (fun list => list[done.length]?) split
    simp [bound] at entry
    simp [← entry]
  rw [split, ← index, List.take_left]

theorem cancelTried_trace (tcc : Tcc σ) (tried : List (Fin tcc.size)) (ctx : σ) :
    (tcc.cancelTried tried ctx).1 =
      (if tried = [] then [] else [.onPhaseStarted .cancel]) ++ (tcc.cancelEach tried.reverse ctx).1 :=
  rfl

theorem cancelTried_correct (tcc : Tcc σ) (tried : List (Fin tcc.size)) (ctx : σ) :
    Within .cancel (tcc.cancelTried tried ctx).1 ∧
      called .cancel (tcc.cancelTried tried ctx).1 = (tried.filter tcc.cancellable).reverse := by
  obtain ⟨within, calls⟩ := cancelEach_correct tcc tried.reverse ctx
  rw [cancelTried_trace, ← List.filter_reverse]
  constructor
  · refine Within.append ?_ within
    intro other differs
    split <;> simp
  · rw [called_append, calls]
    split <;> simp

theorem callsOf_invokeParticipant (tcc : Tcc σ) (phase : TccPhase)
    (action : TccParticipant σ → Action σ) (i : Fin tcc.size) (ctx : σ)
    (rest : List (Fin tcc.size × Invocation σ)) :
    callsOf (tcc.invokeParticipant phase action i ctx).trace ++ made phase rest =
      made phase ((i, invokeWithPolicy (tcc.participantAt i).retry (action (tcc.participantAt i)) ctx)
        :: rest) := by
  rw [invokeParticipant, callsOf_participate, made_cons]

theorem tryAll_succeeds (tcc : Tcc σ) (rest tried : List (Fin tcc.size)) (ctx : σ)
    (succeeds : ∀ one ∈ invocations (tcc.duties TccParticipant.tryAction rest) ctx,
      tcc.settle one = .ok ()) :
    let all := invocations (tcc.duties TccParticipant.tryAction rest) ctx
    callsOf (tcc.tryAll rest tried ctx).trace = made .tryPhase all ∧
      (tcc.tryAll rest tried ctx).failed = none ∧
      (tcc.tryAll rest tried ctx).ctx = stateAfter ctx all := by
  induction rest generalizing tried ctx with
  | nil => exact ⟨rfl, rfl, rfl⟩
  | cons i rest ih =>
    rw [duties, List.map_cons, invocations] at succeeds
    have first : (tcc.tryParticipant i ctx).result = .ok () := succeeds _ List.mem_cons_self
    obtain ⟨calls, failed, state⟩ := ih (tried ++ [i]) (tcc.tryParticipant i ctx).ctx
      fun one later => succeeds one (List.mem_cons_of_mem _ later)
    simp only [tryAll, first]
    refine ⟨?_, failed, state⟩
    rw [callsOf_append, calls]
    exact callsOf_invokeParticipant ..

theorem tryAll_fails (tcc : Tcc σ) (rest tried : List (Fin tcc.size)) (ctx : σ)
    {before later : List (Fin tcc.size × Invocation σ)} {k : Fin tcc.size} {failing : Invocation σ}
    {source : BoxError}
    (split : invocations (tcc.duties TccParticipant.tryAction rest) ctx =
      before ++ (k, failing) :: later)
    (succeeds : ∀ one ∈ before, tcc.settle one = .ok ())
    (fails : tcc.settle (k, failing) = .error source) :
    callsOf (tcc.tryAll rest tried ctx).trace = made .tryPhase (before ++ [(k, failing)]) ∧
      (tcc.tryAll rest tried ctx).failed = some (k, source) ∧
      (tcc.tryAll rest tried ctx).ctx = failing.ctx := by
  induction rest generalizing tried ctx before with
  | nil => simp [duties, invocations] at split
  | cons i rest ih =>
    rw [duties, List.map_cons, invocations] at split
    cases before with
    | nil =>
      obtain ⟨here, -⟩ := List.cons.inj split
      obtain ⟨rfl, rfl⟩ := Prod.mk.inj here
      have result : (tcc.tryParticipant i ctx).result = .error source := fails
      have ends : tcc.tryAll (i :: rest) tried ctx =
          ⟨(tcc.tryParticipant i ctx).trace, some (i, source), tried,
            (tcc.tryParticipant i ctx).ctx⟩ := by
        simp only [tryAll, result]
      rw [ends]
      refine ⟨?_, rfl, rfl⟩
      rw [tryParticipant, invokeParticipant, callsOf_participate]
      simp
    | cons first before =>
      obtain ⟨rfl, rest_split⟩ := List.cons.inj split
      have result : (tcc.tryParticipant i ctx).result = .ok () := succeeds _ List.mem_cons_self
      obtain ⟨calls, failed, state⟩ := ih (tried ++ [i]) (tcc.tryParticipant i ctx).ctx rest_split
        fun one among => succeeds one (List.mem_cons_of_mem _ among)
      simp only [tryAll, result]
      refine ⟨?_, failed, state⟩
      rw [callsOf_append, calls]
      exact callsOf_invokeParticipant ..

theorem confirmAll_invocations (tcc : Tcc σ) (rest : List (Fin tcc.size)) (ctx : σ) :
    let all := invocations (tcc.duties TccParticipant.confirmAction rest) ctx
    callsOf (tcc.confirmAll rest ctx).trace = made .confirm all ∧
      (tcc.confirmAll rest ctx).failures = tcc.unconfirmed all ∧
      (tcc.confirmAll rest ctx).ctx = stateAfter ctx all := by
  induction rest generalizing ctx with
  | nil => exact ⟨rfl, rfl, rfl⟩
  | cons i rest ih =>
    obtain ⟨calls, failures, state⟩ := ih (tcc.confirmParticipant i ctx).ctx
    refine ⟨?_, ?_, state⟩
    · rw [confirmAll, callsOf_append, calls]
      exact callsOf_invokeParticipant ..
    · have result : (tcc.confirmParticipant i ctx).result = tcc.settle
        (i, invokeWithPolicy (tcc.participantAt i).retry (tcc.participantAt i).confirmAction ctx) :=
        rfl
      rw [duties, List.map_cons, invocations, unconfirmed, List.filterMap_cons]
      simp only [confirmAll, failures, result]
      cases tcc.settle (i, _) <;> rfl

theorem invokeWithPolicy_once (action : Action σ) (ctx : σ) :
    invokeWithPolicy {} action ctx =
      { calls := [(action ctx).1.result.mapError .failed]
        last := (action ctx).1.result.mapError .failed
        ctx := (action ctx).2 } := by
  rw [invokeWithPolicy, attemptLoop, runAttempt]
  rcases action ctx with ⟨⟨_ | _, late⟩, after⟩ <;> rfl

theorem cancelEach_invocations (tcc : Tcc σ) (rest : List (Fin tcc.size)) (ctx : σ) :
    callsOf (tcc.cancelEach rest ctx).1 = made .cancel (invocations (tcc.cancelDuties rest) ctx) ∧
      (tcc.cancelEach rest ctx).2 = stateAfter ctx (invocations (tcc.cancelDuties rest) ctx) := by
  induction rest generalizing ctx with
  | nil => exact ⟨rfl, rfl⟩
  | cons i rest ih =>
    rw [cancelEach, cancelDuties, List.filterMap_cons]
    cases declared : (tcc.participantAt i).cancelAction with
    | none => exact ih ctx
    | some cancel =>
      obtain ⟨calls, state⟩ := ih (cancel ctx).2
      simp only [Option.map_some, invocations, invokeWithPolicy_once]
      refine ⟨?_, state⟩
      rw [callsOf_append, made_cons]
      exact congrArg₂ (· ++ ·) (callsOf_participate ..) calls

variable {tcc : Tcc σ}

theorem cancelTried_invocations (tried : List (Fin tcc.size)) (ctx : σ) :
    callsOf (tcc.cancelTried tried ctx).1 =
        made .cancel (invocations (tcc.cancelDuties tried.reverse) ctx) ∧
      (tcc.cancelTried tried ctx).2 =
        stateAfter ctx (invocations (tcc.cancelDuties tried.reverse) ctx) := by
  obtain ⟨calls, state⟩ := cancelEach_invocations tcc tried.reverse ctx
  refine ⟨?_, state⟩
  rw [cancelTried_trace, callsOf_append, calls]
  split <;> rfl

theorem runInner_cancelled {ctx : σ} {before later : List (Fin tcc.size × Invocation σ)}
    {k : Fin tcc.size} {failing : Invocation σ} {source : BoxError}
    (split : invocations tcc.tries ctx = before ++ (k, failing) :: later)
    (succeeds : ∀ one ∈ before, tcc.settle one = .ok ())
    (fails : tcc.settle (k, failing) = .error source) :
    tcc.Cancelled before k failing source (tcc.runInner ctx) := by
  obtain ⟨tryCalls, failed, state⟩ :=
    tryAll_fails tcc (List.finRange tcc.size) [] ctx split succeeds fails
  obtain ⟨within, done, triedIs, -, ends⟩ := tryAll_correct tcc (List.finRange tcc.size) [] ctx
  obtain ⟨none, -⟩ | ⟨k', source', later', failed', order, reported⟩ := ends
  · rw [failed] at none
    cases none
  obtain ⟨rfl, rfl⟩ : k = k' ∧ source = source' := by simpa [failed', eq_comm] using failed
  obtain rfl : done = (List.finRange tcc.size).take k := take_of_finRange_split order
  rw [List.nil_append] at triedIs
  obtain ⟨quiet, cancelCalls⟩ := cancelTried_correct tcc ((List.finRange tcc.size).take k)
    (tcc.tryAll (List.finRange tcc.size) [] ctx).ctx
  obtain ⟨made, final⟩ := cancelTried_invocations ((List.finRange tcc.size).take k)
    (tcc.tryAll (List.finRange tcc.size) [] ctx).ctx
  rw [state] at quiet cancelCalls made final
  have run : tcc.runInner ctx =
      { trace := [.onStart, .onPhaseStarted .tryPhase] ++
          (tcc.tryAll (List.finRange tcc.size) [] ctx).trace ++ [.onPhaseFailed .tryPhase source] ++
          (tcc.cancelTried ((List.finRange tcc.size).take k) failing.ctx).1 ++ [.onCompleted false]
        result := .error (.tryFailed tcc.name (tcc.nameOf k) source)
        ctx := (tcc.cancelTried ((List.finRange tcc.size).take k) failing.ctx).2 } := by
    simp only [runInner, failed, triedIs, state]
  have unconfirmed := within .confirm (by decide)
  have uncancelled := within .cancel (by decide)
  rw [run]
  constructor
  case calls => simp [Event.made?, tryCalls, made, cancels]
  case state => exact final
  case reported => simp [reported, (quiet .tryPhase (by decide)).2.2]
  case cancelled => simpa [uncancelled.1] using cancelCalls
  case unconfirmed => simp [unconfirmed.1, (quiet .confirm (by decide)).1]
  case result => rfl

theorem runInner_of_tried {ctx middle : σ} {tries : List (Event tcc.size)}
    (tried : tcc.tryAll (List.finRange tcc.size) [] ctx =
      { trace := tries, failed := none, tried := List.finRange tcc.size, ctx := middle }) :
    ∃ ending, (∀ phase, called phase ending = [] ∧ succeeded phase ending = [] ∧
        failures phase ending = []) ∧ callsOf ending = [] ∧
      tcc.runInner ctx =
        { trace := [.onStart, .onPhaseStarted .tryPhase] ++ tries ++
            [.onPhaseCompleted .tryPhase, .onPhaseStarted .confirm] ++
            (tcc.confirmAll (List.finRange tcc.size) middle).trace ++ ending
          result := if (tcc.confirmAll (List.finRange tcc.size) middle).failures = [] then .ok ()
            else .error (.confirm (tcc.confirmAll (List.finRange tcc.size) middle).failures)
          ctx := (tcc.confirmAll (List.finRange tcc.size) middle).ctx } := by
  by_cases clean : (tcc.confirmAll (List.finRange tcc.size) middle).failures = []
  · refine ⟨[.onPhaseCompleted .confirm, .onCompleted true], by simp, by simp [Event.made?], ?_⟩
    simp only [runInner, tried, clean, if_true]
  · refine ⟨[.onPhaseFailed .confirm (joined (tcc.confirmAll (List.finRange tcc.size) middle).failures),
      .onCompleted false], by simp, by simp [Event.made?], ?_⟩
    simp only [runInner, tried, clean, if_false]

theorem runInner_confirmed {ctx : σ}
    (succeeds : ∀ one ∈ invocations tcc.tries ctx, tcc.settle one = .ok ()) :
    tcc.Confirmed (invocations tcc.confirms (stateAfter ctx (invocations tcc.tries ctx))) ctx
        (tcc.runInner ctx) ∧
      ∀ before i result after,
        (tcc.runInner ctx).trace = before ++ .call .confirm i result :: after →
          ∀ j, .call .tryPhase j (.ok ()) ∈ before := by
  obtain ⟨tryCalls, failed, state⟩ := tryAll_succeeds tcc (List.finRange tcc.size) [] ctx succeeds
  obtain ⟨within, done, triedIs, successes, ends⟩ :=
    tryAll_correct tcc (List.finRange tcc.size) [] ctx
  obtain ⟨-, whole, undisturbed⟩ | ⟨k, source, later, failed', -⟩ := ends
  swap
  · rw [failed] at failed'
    cases failed'
  rw [List.nil_append, ← whole] at triedIs
  rw [← whole] at successes
  generalize attempt : tcc.tryAll (List.finRange tcc.size) [] ctx = tries at *
  obtain ⟨tries, failure, order, middle⟩ := tries
  obtain rfl : failure = none := failed
  obtain rfl : order = List.finRange tcc.size := triedIs
  obtain rfl : middle = stateAfter ctx (invocations tcc.tries ctx) := state
  obtain ⟨ending, hooks, silent, run⟩ := runInner_of_tried attempt
  obtain ⟨made, errors, final⟩ := confirmAll_invocations tcc (List.finRange tcc.size)
    (stateAfter ctx (invocations tcc.tries ctx))
  obtain ⟨quiet, members, reported, failing⟩ := confirmAll_correct tcc (List.finRange tcc.size)
    (stateAfter ctx (invocations tcc.tries ctx))
  have tried := within .confirm (by decide)
  have uncancelled : called .cancel tries = [] := (within .cancel (by decide)).1
  rw [run]
  constructor
  · constructor
    case calls =>
      rw [callsOf_append, callsOf_append, callsOf_append, callsOf_append, made, silent,
        show callsOf tries = _ from tryCalls]
      simp [Event.made?, Tcc.tries, confirms]
    case state => exact final
    case attempted => simp [tried.1, members, hooks]
    case uncancelled => simp [uncancelled, (quiet .cancel (by decide)).1, hooks]
    case result =>
      rw [errors]
      rfl
    case reported =>
      refine ⟨by simp [undisturbed, (quiet .tryPhase (by decide)).2.2, hooks], ?_⟩
      refine Eq.trans ?_ (reported.symm.trans errors)
      simp [tried.2.2, hooks]
    case failing => simpa [tried, hooks] using failing (List.nodup_finRange _)
  · intro before i result after split j
    simp only [List.append_assoc] at split
    have front := front_before_call ([.onStart, .onPhaseStarted .tryPhase] ++ tries)
      (by simp [tried.1]) (by simpa using split)
    have success : j ∈ succeeded .tryPhase tries := by
      rw [show succeeded .tryPhase tries = _ from successes]
      exact List.mem_finRange j
    exact front.subset (List.mem_append_right _ (mem_succeeded.mp success))

theorem settles_or_fails (tcc : Tcc σ) (all : List (Fin tcc.size × Invocation σ)) :
    (∀ one ∈ all, tcc.settle one = .ok ()) ∨
      ∃ before k failing later source, all = before ++ (k, failing) :: later ∧
        (∀ one ∈ before, tcc.settle one = .ok ()) ∧ tcc.settle (k, failing) = .error source := by
  induction all with
  | nil => exact .inl (by simp)
  | cons one rest ih =>
    cases settled : tcc.settle one with
    | error source => exact .inr ⟨[], one.1, one.2, rest, source, rfl, by simp, settled⟩
    | ok =>
      obtain succeeds | ⟨before, k, failing, later, source, rfl, succeeds, fails⟩ := ih
      · exact .inl (List.forall_mem_cons.mpr ⟨settled, succeeds⟩)
      · exact .inr ⟨one :: before, k, failing, later, source, rfl,
          List.forall_mem_cons.mpr ⟨settled, succeeds⟩, fails⟩

theorem runInner_two_phase_correct (tcc : Tcc σ) (ctx : σ) : tcc.TwoPhase ctx (tcc.runInner ctx) := by
  have cancelled : ∀ before k failing later source,
      invocations tcc.tries ctx = before ++ (k, failing) :: later →
      (∀ one ∈ before, tcc.settle one = .ok ()) → tcc.settle (k, failing) = .error source →
        tcc.Cancelled before k failing source (tcc.runInner ctx) :=
    fun _ _ _ _ _ split succeeds fails => runInner_cancelled split succeeds fails
  obtain succeeds | ⟨before, k, failing, later, source, split, succeeds, fails⟩ :=
    settles_or_fails tcc (invocations tcc.tries ctx)
  · obtain ⟨confirmed, needs⟩ := runInner_confirmed succeeds
    refine ⟨needs, ?_, cancelled, fun _ => confirmed⟩
    simp [confirmed.uncancelled]
  · have run := cancelled before k failing later source split succeeds fails
    refine ⟨?_, by simp [run.unconfirmed], cancelled, fun all => ?_⟩
    · intro front i result back whole
      have unconfirmed := run.unconfirmed
      rw [whole] at unconfirmed
      simp at unconfirmed
    · rw [all (k, failing) (by simp [split])] at fails
      cases fails

def logging (entry : String) (result : Except BoxError Unit) : Action (List String) :=
  fun log => ({ result }, log ++ [entry])

def booking : Tcc (List String) where
  name := "booking"
  participants :=
    [{ name := "flight"
       tryAction := logging "hold flight" (.ok ())
       confirmAction := logging "buy flight" (.ok ())
       cancelAction := some (logging "drop flight" (.ok ())) },
      { name := "hotel"
        tryAction := logging "hold hotel" (.ok ())
        confirmAction := logging "buy hotel" (.ok ())
        cancelAction := some (logging "drop hotel" (.error "too late")) },
      { name := "car"
        tryAction := logging "hold car" (.error "none left")
        confirmAction := logging "buy car" (.ok ())
        retry := { maxAttempts := 2 } }]

theorem runInner_two_phase_booking :
    (booking.runInner []).ctx =
        ["hold flight", "hold hotel", "hold car", "hold car", "drop hotel", "drop flight"] ∧
      (called .cancel (booking.runInner []).trace).map booking.nameOf = ["hotel", "flight"] ∧
      called .confirm (booking.runInner []).trace = [] := by
  have run := (runInner_two_phase_correct booking []).cancelled
    ((invocations booking.tries []).take 2) ⟨2, by decide⟩ _ [] _ rfl (by decide) rfl
  exact ⟨run.state, congrArg (List.map booking.nameOf) run.cancelled, run.unconfirmed⟩

end Firefly.Orchestration.Tcc
