import Firefly.Orchestration.SagaContract

set_option autoImplicit false

namespace Firefly.Orchestration.Saga

variable {σ : Type} {saga : Saga σ}

def Event.concerns {n : Nat} (i : Fin n) : Event n → Bool
  | .compensateCall j _ | .onStepCompensated j _ => j = i
  | _ => false

def SettledOnce {n : Nat} (i : Fin n) (trace : List (Event n)) : Prop :=
  ∃ calls error, calls ≠ [] ∧
    trace = calls.map (.compensateCall i) ++ [.onStepCompensated i error] ∧
    (error.isSome ↔ ∃ err, calls.getLast? = some (.error err))

structure Settled {n : Nat} (order : List (Fin n)) (trace : List (Event n)) : Prop where
  only : ∀ event ∈ trace, ∃ i, event.concerns i
  each : ∀ i, trace.filter (Event.concerns i) = [] ∨
    i ∈ order ∧ SettledOnce i (trace.filter (Event.concerns i))

def Closes {n : Nat} (i : Fin n) (calls : List (Except AttemptError Unit)) : Event n → Prop
  | .onStepSuccess j attempts =>
    j = i ∧ attempts = calls.length ∧ calls.getLast? = some (.ok ())
  | .onStepFailed j _ attempts =>
    j = i ∧ attempts = calls.length ∧ ∃ err, calls.getLast? = some (.error err)
  | _ => False

/-- What follows `on_start`: steps one after the other, each closed before the next starts, then a
rollback or none, then `on_completed`. -/
inductive Steps {n : Nat} : List (Event n) → Bool → Prop where
  | finished (success : Bool) : Steps [.onCompleted success] success
  | undone (order : List (Fin n)) (rollback : List (Event n)) (settled : Settled order rollback)
      (success : Bool) : Steps (.onCompensationStarted :: (rollback ++ [.onCompleted success])) success
  | step (i : Fin n) (calls : List (Except AttemptError Unit)) (closing : Event n)
      (closes : Closes i calls closing) (later : List (Event n)) (success : Bool)
      (rest : Steps later success) :
      Steps (.onStepStarted i :: (calls.map (.executeCall i) ++ closing :: later)) success

def Lifecycle {n : Nat} (run : Run σ n) : Prop :=
  ∃ rest success, run.trace = .onStart :: rest ∧ Steps rest success ∧
    (success = true ↔ ∃ outcome, run.result = .ok outcome)

def KeepsFailing (timeoutMs : Nat) (action : Action σ) : Nat → σ → Prop
  | 0, _ => True
  | more + 1, ctx =>
    match runAttempt timeoutMs action ctx with
    | (.ok (), _) => False
    | (.error _, ctx) => KeepsFailing timeoutMs action more ctx

def FirstTry (saga : Saga σ) (cancelled : Nat → Bool) : List (Fin saga.size) → Nat → σ → Prop
  | [], _, _ => True
  | i :: rest, position, ctx =>
    let step := saga.stepAt i
    cancelled position = true ∨
      match runAttempt step.retry.timeoutMs step.execute ctx with
      | (.ok (), ctx) => saga.FirstTry cancelled rest (position + 1) ctx
      | (.error _, ctx) => KeepsFailing step.retry.timeoutMs step.execute (step.retry.attempts - 1) ctx

def NoRecovery (saga : Saga σ) (cancelled : Nat → Bool) (ctx : σ) : Prop :=
  ∀ order, saga.executionOrder = .ok order → saga.FirstTry cancelled order 0 ctx

section Settling

variable {n : Nat}

@[simp] theorem concerns_compensateCall (i j : Fin n) (result : Except AttemptError Unit) :
    (Event.compensateCall j result).concerns i = decide (j = i) := rfl

@[simp] theorem concerns_onStepCompensated (i j : Fin n) (error : Option String) :
    (Event.onStepCompensated j error).concerns i = decide (j = i) := rfl

theorem Settled.nil (order : List (Fin n)) : Settled order [] :=
  ⟨by simp, fun _ => .inl rfl⟩

theorem Settled.mono {order more : List (Fin n)} {trace : List (Event n)}
    (settled : Settled order trace) (within : order ⊆ more) : Settled more trace :=
  ⟨settled.only, fun i => (settled.each i).imp_right fun one => ⟨within one.1, one.2⟩⟩

theorem Settled.silent {trace : List (Event n)} (settled : Settled [] trace) : trace = [] := by
  refine List.eq_nil_iff_forall_not_mem.mpr fun event member => ?_
  obtain ⟨i, concerns⟩ := settled.only event member
  rcases settled.each i with empty | ⟨listed, -⟩
  · exact List.filter_eq_nil_iff.mp empty event member concerns
  · simp at listed

theorem Settled.other {order : List (Fin n)} {trace : List (Event n)}
    (settled : Settled order trace) {i : Fin n} (unlisted : i ∉ order) :
    trace.filter (Event.concerns i) = [] :=
  (settled.each i).resolve_right fun one => unlisted one.1

theorem Settled.append {first second : List (Fin n)} {before after : List (Event n)}
    (apart : first.Disjoint second) (head : Settled first before) (tail : Settled second after) :
    Settled (first ++ second) (before ++ after) := by
  constructor
  · intro event member
    exact (List.mem_append.mp member).elim (head.only event) (tail.only event)
  · intro i
    rw [List.filter_append]
    by_cases listed : i ∈ first
    · rw [tail.other (apart listed), List.append_nil]
      exact (head.each i).imp_right fun one => ⟨List.mem_append_left _ one.1, one.2⟩
    · rw [head.other listed, List.nil_append]
      exact (tail.each i).imp_right fun one => ⟨List.mem_append_right _ one.1, one.2⟩

theorem concerns_compensation {i : Fin n} {calls : List (Except AttemptError Unit)}
    {error : Option String} {event : Event n}
    (member : event ∈ calls.map (.compensateCall i) ++ [.onStepCompensated i error]) (j : Fin n) :
    event.concerns j = decide (i = j) := by
  rcases List.mem_append.mp member with call | hook
  · obtain ⟨result, -, rfl⟩ := List.mem_map.mp call
    rfl
  · obtain rfl := List.mem_singleton.mp hook
    rfl

theorem Settled.single {i : Fin n} {calls : List (Except AttemptError Unit)} {error : Option String}
    (called : calls ≠ []) (told : error.isSome ↔ ∃ err, calls.getLast? = some (.error err)) :
    Settled [i] (calls.map (.compensateCall i) ++ [.onStepCompensated i error]) := by
  constructor
  · intro event member
    exact ⟨i, by simp [concerns_compensation member]⟩
  · intro j
    by_cases same : i = j
    · subst same
      rw [List.filter_eq_self.mpr fun event member => by simp [concerns_compensation member]]
      exact .inr ⟨by simp, calls, error, called, rfl, told⟩
    · left
      refine List.filter_eq_nil_iff.mpr fun event member => ?_
      simp [concerns_compensation member, same]

theorem Settled.flatten {α : Type} {done : List α} {key : α → Fin n} {trace : α → List (Event n)}
    (distinct : (done.map key).Nodup) (settled : ∀ entry ∈ done, Settled [key entry] (trace entry)) :
    Settled (done.map key) (done.map trace).flatten := by
  induction done with
  | nil => exact .nil _
  | cons entry done ih =>
    obtain ⟨fresh, distinct⟩ := List.nodup_cons.mp distinct
    have tail := ih distinct fun other member => settled other (List.mem_cons_of_mem _ member)
    exact .append (by simpa using fresh) (settled entry (by simp)) tail

theorem filter_flatten_single {traces : List (List (Event n))} {i : Fin n}
    (alone : traces.Pairwise fun first second =>
      first.filter (Event.concerns i) = [] ∨ second.filter (Event.concerns i) = [])
    (some : traces.flatten.filter (Event.concerns i) ≠ []) :
    ∃ trace ∈ traces, traces.flatten.filter (Event.concerns i) = trace.filter (Event.concerns i) := by
  induction traces with
  | nil => simp at some
  | cons trace traces ih =>
    obtain ⟨head, tail⟩ := List.pairwise_cons.mp alone
    rw [List.flatten_cons, List.filter_append] at some ⊢
    by_cases silent : trace.filter (Event.concerns i) = []
    · rw [silent, List.nil_append] at some ⊢
      obtain ⟨one, listed, same⟩ := ih tail some
      exact ⟨one, List.mem_cons_of_mem _ listed, same⟩
    · have rest : traces.flatten.filter (Event.concerns i) = [] := by
        refine List.filter_eq_nil_iff.mpr fun event member => ?_
        obtain ⟨other, listed, inside⟩ := List.mem_flatten.mp member
        exact List.filter_eq_nil_iff.mp ((head other listed).resolve_left silent) event inside
      exact ⟨trace, by simp, by rw [rest, List.append_nil]⟩

-- However the batch is interleaved, each step's own events stay in their order.
theorem Settled.shuffle (sched : Scheduler n) {α : Type} {done : List α} {key : α → Fin n}
    {trace : α → List (Event n)} (distinct : (done.map key).Nodup)
    (settled : ∀ entry ∈ done, Settled [key entry] (trace entry)) :
    Settled (done.map key) (sched.shuffle (done.map trace)) := by
  have whole := Settled.flatten distinct settled
  have perm := sched.shuffle_perm (done.map trace)
  constructor
  · exact fun event member => whole.only event (perm.mem_iff.mp member)
  · intro i
    have mine := perm.filter (Event.concerns i)
    rcases whole.each i with empty | ⟨listed, once⟩
    · rw [empty] at mine
      exact .inl mine.eq_nil
    · have some : (done.map trace).flatten.filter (Event.concerns i) ≠ [] := by
        obtain ⟨calls, error, -, shape, -⟩ := once
        simp [shape]
      have alone : (done.map trace).Pairwise fun first second =>
          first.filter (Event.concerns i) = [] ∨ second.filter (Event.concerns i) = [] := by
        rw [List.pairwise_map]
        refine (List.pairwise_map.mp distinct).imp_of_mem fun {a b} first second differs => ?_
        by_cases same : key a = i
        · exact .inr ((settled b second).other (by simpa [← same] using differs))
        · exact .inl ((settled a first).other (by simpa using Ne.symm same))
      obtain ⟨one, among, same⟩ := filter_flatten_single alone some
      have kept := (sched.shuffle_keeps _ one among).filter (Event.concerns i)
      rw [← same] at kept
      rw [← kept.eq_of_length mine.length_eq.symm]
      exact .inr ⟨listed, once⟩

end Settling

theorem invoke_nonempty (policy : RetryPolicy) (action : Action σ) (ctx : σ) :
    (invokeWithPolicy policy action ctx).calls ≠ [] := by
  have bounds := (invokeWithPolicy_wellFormed policy action ctx).length
  intro empty
  simp [empty] at bounds

theorem invoke_last (policy : RetryPolicy) (action : Action σ) (ctx : σ) :
    (invokeWithPolicy policy action ctx).calls.getLast? =
      some (invokeWithPolicy policy action ctx).last := by
  obtain ⟨failed, ⟨last, calls, -⟩ | ⟨err, last, calls, -⟩⟩ :=
    (invokeWithPolicy_wellFormed policy action ctx).shape
  · simp [last, calls]
  · simp [last, calls]

theorem runCompensation_settled (saga : Saga σ) (i : Fin saga.size) (ctx : σ)
    (compensable : (saga.stepAt i).compensate.isSome) :
    Settled [i] (saga.runCompensation i ctx).trace := by
  obtain ⟨body, declared⟩ := Option.isSome_iff_exists.mp compensable
  simp only [runCompensation, declared]
  split
  · refine .single (invoke_nonempty _ _ _) ?_
    rw [invoke_last]
    rcases last : (invokeWithPolicy (saga.stepAt i).retry body ctx).last with ⟨_ | _⟩ | _ <;>
      simp [Invocation.outcome, last, Except.mapError]
  · refine .single (by simp) ?_
    rcases (body ctx).1.result with _ | _ <;> simp [Except.mapError]

theorem compensateSequential_settled (saga : Saga σ) (order : List (Fin saga.size))
    (distinct : order.Nodup) (compensable : ∀ i ∈ order, (saga.stepAt i).compensate.isSome)
    (rolled : List String) (firstErr : Option BoxError) (failures : Nat) (ctx : σ) :
    Settled order (saga.compensateSequential order rolled firstErr failures ctx).trace := by
  induction order generalizing rolled firstErr failures ctx with
  | nil => exact .nil _
  | cons i rest ih =>
    obtain ⟨fresh, distinct⟩ := List.nodup_cons.mp distinct
    have head := runCompensation_settled saga i ctx (compensable i (by simp))
    have stopped : Settled (i :: rest) (saga.runCompensation i ctx).trace := head.mono (by simp)
    have goesOn := fun rolled firstErr failures => Settled.append (by simpa using fresh) head
      (ih distinct (fun j member => compensable j (List.mem_cons_of_mem _ member)) rolled firstErr
        failures (saga.runCompensation i ctx).ctx)
    rw [compensateSequential]
    split
    · exact goesOn _ _ _
    · split
      · exact stopped
      · dsimp only
        split
        · exact stopped
        · exact goesOn _ _ _

theorem runEach_settled (saga : Saga σ) (batch : List (Fin saga.size)) (ctx : σ)
    (compensable : ∀ i ∈ batch, (saga.stepAt i).compensate.isSome) :
    ∀ entry ∈ (saga.runEach batch ctx).1, Settled [entry.1] entry.2.trace := by
  induction batch generalizing ctx with
  | nil => simp [runEach]
  | cons i rest ih =>
    rintro entry member
    rcases List.mem_cons.mp member with rfl | later
    · exact runCompensation_settled saga i ctx (compensable i (by simp))
    · exact ih _ (fun j member => compensable j (List.mem_cons_of_mem _ member)) entry later

theorem joinCompensations_settled (saga : Saga σ) (sched : Scheduler saga.size)
    (batch : List (Fin saga.size)) (distinct : batch.Nodup)
    (compensable : ∀ i ∈ batch, (saga.stepAt i).compensate.isSome) (ctx : σ) :
    Settled batch (saga.joinCompensations sched batch ctx).trace := by
  have perm := sched.completion_perm batch
  have within : ∀ i ∈ sched.completion batch, (saga.stepAt i).compensate.isSome :=
    fun i member => compensable i (perm.mem_iff.mp member)
  have keys := (runEach_correct (sched.completion batch) ctx within).1
  have settled := runEach_settled saga (sched.completion batch) ctx within
  have shuffled := Settled.shuffle sched (by rw [keys]; exact perm.nodup_iff.mpr distinct) settled
  rw [keys] at shuffled
  exact shuffled.mono perm.subset

theorem compensateGroups_settled (saga : Saga σ) (sched : Scheduler saga.size)
    (groups : List (List (Fin saga.size))) (distinct : groups.flatten.Nodup)
    (compensable : ∀ i ∈ groups.flatten, (saga.stepAt i).compensate.isSome) (rolled : List String)
    (firstErr : Option BoxError) (ctx : σ) :
    Settled groups.flatten (saga.compensateGroups sched groups rolled firstErr ctx).trace := by
  induction groups generalizing rolled firstErr ctx with
  | nil => exact .nil _
  | cons group groups ih =>
    rw [List.flatten_cons] at distinct compensable ⊢
    obtain ⟨first, later, apart⟩ := List.nodup_append'.mp distinct
    have head := joinCompensations_settled saga sched group first
      (fun i member => compensable i (List.mem_append_left _ member)) ctx
    exact .append apart head
      (ih later (fun i member => compensable i (List.mem_append_right _ member)) _ _ _)

theorem compensate_settled (saga : Saga σ) (sched : Scheduler saga.size)
    (executed : List (Fin saga.size)) (distinct : executed.Nodup) (ctx : σ) :
    ∃ rollback, Settled (saga.rollbackOrder executed) rollback ∧
      (saga.compensate sched executed ctx).trace =
        (if executed = [] then [] else [.onCompensationStarted]) ++ rollback := by
  have unique : (saga.rollbackOrder executed).Nodup := rollbackOrder_nodup distinct
  have compensable : ∀ i ∈ saga.rollbackOrder executed, (saga.stepAt i).compensate.isSome :=
    fun i member => (mem_rollbackOrder.mp member).2
  rw [compensate]
  refine ⟨_, ?_, rfl⟩
  cases saga.policy with
  | bestEffort | stopOnError | retryWithBackoff | circuitBreaker =>
    exact compensateSequential_settled saga _ unique compensable [] none 0 ctx
  | bestEffortParallel => exact joinCompensations_settled saga sched _ unique compensable ctx
  | groupedParallel =>
    have whole := List.flatten_splitBy saga.sameGroup (saga.rollbackOrder executed)
    have groups := compensateGroups_settled saga sched
      ((saga.rollbackOrder executed).splitBy saga.sameGroup) (whole.symm ▸ unique)
      (whole.symm ▸ compensable) [] none ctx
    rwa [whole] at groups

def Event.isCall {n : Nat} : Event n → Bool
  | .executeCall _ _ => true
  | _ => false

theorem Closes.not_call {n : Nat} {i : Fin n} {calls : List (Except AttemptError Unit)}
    {closing : Event n} (closes : Closes i calls closing) : closing.isCall = false := by
  cases closing with
  | onStepSuccess | onStepFailed => rfl
  | _ => exact closes.elim

theorem calls_unique {n : Nat} {i : Fin n} {first second : List (Except AttemptError Unit)}
    {closing other : Event n} {before after : List (Event n)} (quiet : closing.isCall = false)
    (still : other.isCall = false)
    (same : first.map (.executeCall i) ++ closing :: before =
      second.map (.executeCall i) ++ other :: after) :
    first = second ∧ closing = other ∧ before = after := by
  induction first generalizing second with
  | nil =>
    cases second with
    | nil => simpa using same
    | cons call second =>
      obtain ⟨rfl, -⟩ := List.cons.inj same
      simp [Event.isCall] at quiet
  | cons call first ih =>
    cases second with
    | nil =>
      obtain ⟨rfl, -⟩ := List.cons.inj same
      simp [Event.isCall] at still
    | cons call' second =>
      obtain ⟨head, tail⟩ := List.cons.inj same
      obtain ⟨rfl, rest⟩ := ih tail
      exact ⟨by rw [(Event.executeCall.inj head).2], rest⟩

theorem Steps.inv {n : Nat} {i : Fin n} {calls : List (Except AttemptError Unit)}
    {closing : Event n} {later : List (Event n)} {success : Bool} (quiet : closing.isCall = false)
    (steps : Steps (.onStepStarted i :: (calls.map (.executeCall i) ++ closing :: later)) success) :
    Closes i calls closing ∧ Steps later success := by
  generalize shape : Event.onStepStarted i :: (calls.map (.executeCall i) ++ closing :: later) =
    trace at steps
  cases steps with
  | finished => simp at shape
  | undone => simp at shape
  | step j others hook closes after success rest =>
    obtain ⟨started, body⟩ := List.cons.inj shape
    obtain rfl := Event.onStepStarted.inj started
    obtain ⟨rfl, rfl, rfl⟩ := calls_unique quiet closes.not_call body
    exact ⟨closes, rest⟩

section Attempts

variable {timeoutMs : Nat} {action : Action σ} {ctx after : σ}

theorem attemptLoop_ok (first : runAttempt timeoutMs action ctx = (.ok (), after)) (more : Nat) :
    attemptLoop timeoutMs action more ctx = ⟨[.ok ()], .ok (), after⟩ := by
  rw [attemptLoop, first]

theorem attemptLoop_gaveUp {err : AttemptError}
    (first : runAttempt timeoutMs action ctx = (.error err, after)) (more : Nat) :
    (attemptLoop timeoutMs action more ctx).last ≠ .ok () ↔
      KeepsFailing timeoutMs action more after := by
  induction more generalizing ctx err after with
  | zero =>
    rw [attemptLoop, first]
    exact iff_of_true (by simp) trivial
  | succ more ih =>
    rw [attemptLoop, first, KeepsFailing]
    rcases next : runAttempt timeoutMs action after with ⟨again | ok, later⟩
    · exact ih next
    · simp [attemptLoop_ok next]

theorem attemptLoop_again {err : AttemptError} {more : Nat}
    (first : runAttempt timeoutMs action ctx = (.error err, after))
    (recovered : (attemptLoop timeoutMs action more ctx).last = .ok ()) :
    (attemptLoop timeoutMs action more ctx).calls.length ≠ 1 := by
  cases more with
  | zero =>
    rw [attemptLoop, first] at recovered
    cases recovered
  | succ more =>
    have rest := (attemptLoop_wellFormed timeoutMs action more after).length
    rw [attemptLoop, first, List.length_cons]
    omega

theorem invoke_error (name : String) (policy : RetryPolicy) {err : AttemptError}
    (gaveUp : (invokeWithPolicy policy action ctx).last = .error err) :
    ∃ invokeError, (invokeWithPolicy policy action ctx).outcome name policy = .error invokeError ∧
      invokeError.attempts = (invokeWithPolicy policy action ctx).calls.length := by
  obtain ⟨failed, ⟨last, -, -⟩ | ⟨other, last, calls, count⟩⟩ :=
    (invokeWithPolicy_wellFormed policy action ctx).shape
  · rw [gaveUp] at last
    cases last
  · have length : (invokeWithPolicy policy action ctx).calls.length = policy.attempts := by
      simp [calls, count]
    rw [Invocation.outcome, gaveUp, length]
    cases err with
    | failed source => exact ⟨.failed name policy.attempts source, rfl, rfl⟩
    | timedOut => exact ⟨.timedOut name policy.timeoutMs policy.attempts, rfl, rfl⟩

end Attempts

def Ended {n : Nat} (trace : List (Event n)) (returned : Prop) : Prop :=
  ∃ success, Steps trace success ∧ (success = true ↔ returned)

theorem ended_step {n : Nat} {i : Fin n} {calls : List (Except AttemptError Unit)}
    {closing : Event n} {later : List (Event n)} {returned : Prop} (quiet : closing.isCall = false) :
    Ended (.onStepStarted i :: (calls.map (.executeCall i) ++ closing :: later)) returned ↔
      Closes i calls closing ∧ Ended later returned := by
  constructor
  · rintro ⟨success, steps, told⟩
    obtain ⟨closes, rest⟩ := steps.inv quiet
    exact ⟨closes, success, rest, told⟩
  · rintro ⟨closes, success, steps, told⟩
    exact ⟨success, .step i calls closing closes _ success steps, told⟩

theorem ended_rollback (sched : Scheduler saga.size) (executed : List (Fin saga.size))
    (distinct : executed.Nodup) (ctx : σ) :
    Ended ((saga.compensate sched executed ctx).trace ++ [.onCompleted false]) False := by
  obtain ⟨rollback, settled, shape⟩ := compensate_settled saga sched executed distinct ctx
  refine ⟨false, ?_, by simp⟩
  rw [shape]
  split
  · rename_i none
    subst none
    obtain rfl := settled.silent
    exact .finished false
  · exact .undone _ rollback settled false

theorem runSteps_ended_iff (saga : Saga σ) (sched : Scheduler saga.size) (cancelled : Nat → Bool)
    (rest executed : List (Fin saga.size)) (distinct : (executed ++ rest).Nodup)
    (stepsExecuted : List String) (ctx : σ) :
    Ended (saga.runSteps sched cancelled rest executed stepsExecuted ctx).trace
        (∃ outcome, (saga.runSteps sched cancelled rest executed stepsExecuted ctx).result =
          .ok outcome) ↔
      saga.FirstTry cancelled rest executed.length ctx := by
  induction rest generalizing executed stepsExecuted ctx with
  | nil => exact iff_of_true ⟨true, .finished true, by simp [runSteps]⟩ trivial
  | cons i rest ih =>
    rw [runSteps, FirstTry]
    split
    · rename_i stopped
      exact iff_of_true ⟨false, .finished false, by simp⟩ (.inl stopped)
    · rename_i running
      have calls := invoke_last (saga.stepAt i).retry (saga.stepAt i).execute ctx
      simp only [running, Bool.false_eq_true, false_or]
      cases last : (invokeWithPolicy (saga.stepAt i).retry (saga.stepAt i).execute ctx).last with
      | ok done =>
        have ok : (invokeWithPolicy (saga.stepAt i).retry (saga.stepAt i).execute ctx).outcome
            (saga.stepAt i).name (saga.stepAt i).retry = .ok () := by
          rw [Invocation.outcome, last]
        rw [last] at calls
        simp only [ok]
        rw [List.cons_append, ended_step rfl, ih _ (by simpa using distinct)]
        simp only [Closes, calls, true_and, and_true, List.length_append, List.length_singleton]
        rcases first : runAttempt (saga.stepAt i).retry.timeoutMs (saga.stepAt i).execute ctx with
          ⟨err | _, after⟩
        · have again := attemptLoop_again first last
          have recovered := mt (attemptLoop_gaveUp first _).mpr (not_not.mpr last)
          exact iff_of_false (fun both => again both.1.symm) recovered
        · simp [invokeWithPolicy, attemptLoop_ok first]
      | error err =>
        obtain ⟨invokeError, error, attempts⟩ := invoke_error (saga.stepAt i).name
          (saga.stepAt i).retry last
        rw [last] at calls
        simp only [error, reduceCtorEq, exists_false]
        rw [List.cons_append, ended_step rfl]
        have closed := ended_rollback sched executed (List.nodup_append.mp distinct).1
          (invokeWithPolicy (saga.stepAt i).retry (saga.stepAt i).execute ctx).ctx
        refine iff_of_true ⟨⟨rfl, attempts, err, calls⟩, closed⟩ ?_
        have lost : (invokeWithPolicy (saga.stepAt i).retry (saga.stepAt i).execute ctx).last ≠
            .ok () := by simp [last]
        rcases first : runAttempt (saga.stepAt i).retry.timeoutMs (saga.stepAt i).execute ctx with
          ⟨failed | _, after⟩
        · exact (attemptLoop_gaveUp first _).mp lost
        · rw [invokeWithPolicy, attemptLoop_ok first] at lost
          exact absurd rfl lost

theorem lifecycle_iff (saga : Saga σ) (sched : Scheduler saga.size) (cancelled : Nat → Bool)
    (ctx : σ) :
    Lifecycle (saga.runInner sched cancelled ctx) ↔ saga.NoRecovery cancelled ctx := by
  rw [runInner, NoRecovery]
  cases computed : saga.executionOrder with
  | error message =>
    exact iff_of_true ⟨_, false, rfl, .finished false, by simp⟩ fun order other => by simp at other
  | ok order =>
    have distinct : order.Nodup :=
      (executionOrder_valid saga order computed).perm.nodup_iff.mpr (List.nodup_finRange _)
    have loop := runSteps_ended_iff saga sched cancelled order [] (by simpa using distinct) [] ctx
    simp only [Except.ok.injEq, forall_eq']
    rw [← List.length_nil, ← loop]
    constructor
    · rintro ⟨rest, success, trace, steps, told⟩
      obtain ⟨-, rfl⟩ := List.cons.inj trace
      exact ⟨success, steps, told⟩
    · rintro ⟨success, steps, told⟩
      exact ⟨_, success, rfl, steps, told⟩

def payment : Saga Nat where
  name := "payment"
  steps :=
    [{ name := "charge", retry := { maxAttempts := 2 }
       execute := fun calls => (⟨if calls = 0 then .error "declined" else .ok (), false⟩, calls + 1) }]

theorem payment_misreported : ¬ Lifecycle (payment.runInner (.inOrder _) (fun _ => false) 0) := by
  rintro ⟨rest, success, trace, steps, -⟩
  have shape : (payment.runInner (.inOrder _) (fun _ => false) 0).trace =
      .onStart :: .onStepStarted ⟨0, by decide⟩ ::
        ([.error (.failed "declined"), .ok ()].map (.executeCall ⟨0, by decide⟩) ++
          .onStepSuccess ⟨0, by decide⟩ 1 :: [.onCompleted true]) := by
    decide
  rw [shape] at trace
  obtain ⟨-, rfl⟩ := List.cons.inj trace
  obtain ⟨⟨-, attempts, -⟩, -⟩ := steps.inv rfl
  exact absurd attempts (by decide)

end Firefly.Orchestration.Saga
