import Firefly.Orchestration.SagaOrder

set_option autoImplicit false

namespace Firefly.Orchestration.Saga

variable {σ : Type}

@[simp] def Event.executed? {n : Nat} : Event n → Option (Fin n)
  | .executeCall i (.ok ()) => some i
  | _ => none

@[simp] def Event.compensation? {n : Nat} : Event n → Option (Fin n)
  | .compensateCall i _ => some i
  | _ => none

@[simp] def Event.settled? {n : Nat} : Event n → Option (Fin n × Bool)
  | .onStepCompensated i error => some (i, error.isNone)
  | _ => none

def Event.undoes {n : Nat} : Event n → Bool
  | .onCompensationStarted | .compensateCall _ _ | .onStepCompensated _ _ | .onCompleted _ => true
  | _ => false

@[simp] theorem Event.undoes_onCompensationStarted {n : Nat} :
    (onCompensationStarted : Event n).undoes = true := rfl

@[simp] theorem Event.undoes_onCompleted {n : Nat} (success : Bool) :
    (onCompleted success : Event n).undoes = true := rfl

def succeeded {n : Nat} (trace : List (Event n)) : List (Fin n) :=
  trace.filterMap Event.executed?

def compensations {n : Nat} (trace : List (Event n)) : List (Fin n) :=
  trace.filterMap Event.compensation?

def attempted {n : Nat} (trace : List (Event n)) : List (Fin n × Bool) :=
  trace.filterMap Event.settled?

section Append

variable {n : Nat} (event : Event n) (first second : List (Event n))

@[simp] theorem succeeded_nil : succeeded ([] : List (Event n)) = [] := rfl

@[simp] theorem compensations_nil : compensations ([] : List (Event n)) = [] := rfl

@[simp] theorem attempted_nil : attempted ([] : List (Event n)) = [] := rfl

@[simp] theorem succeeded_cons :
    succeeded (event :: first) = event.executed?.toList ++ succeeded first := by
  rw [succeeded, List.filterMap_cons]
  cases event.executed? <;> rfl

@[simp] theorem compensations_cons :
    compensations (event :: first) = event.compensation?.toList ++ compensations first := by
  rw [compensations, List.filterMap_cons]
  cases event.compensation? <;> rfl

@[simp] theorem attempted_cons :
    attempted (event :: first) = event.settled?.toList ++ attempted first := by
  rw [attempted, List.filterMap_cons]
  cases event.settled? <;> rfl

@[simp] theorem succeeded_append :
    succeeded (first ++ second) = succeeded first ++ succeeded second := by
  simp [succeeded]

@[simp] theorem compensations_append :
    compensations (first ++ second) = compensations first ++ compensations second := by
  simp [compensations]

@[simp] theorem attempted_append :
    attempted (first ++ second) = attempted first ++ attempted second := by
  simp [attempted]

end Append

section Calls

variable {n : Nat} (i : Fin n) (calls : List (Except AttemptError Unit))

@[simp] theorem compensations_compensateCalls :
    compensations (calls.map (Event.compensateCall i)) = List.replicate calls.length i := by
  induction calls with
  | nil => rfl
  | cons call calls ih => simp [ih, List.replicate_succ]

@[simp] theorem attempted_compensateCalls :
    attempted (calls.map (Event.compensateCall i)) = [] := by
  induction calls <;> simp_all

@[simp] theorem succeeded_compensateCalls :
    succeeded (calls.map (Event.compensateCall i)) = [] := by
  induction calls <;> simp_all

@[simp] theorem compensations_executeCalls :
    compensations (calls.map (Event.executeCall i)) = [] := by
  induction calls <;> simp_all

@[simp] theorem attempted_executeCalls :
    attempted (calls.map (Event.executeCall i)) = [] := by
  induction calls <;> simp_all

@[simp] theorem succeeded_failedCalls (failures : List AttemptError) :
    succeeded ((failures.map Except.error).map (Event.executeCall i)) = [] := by
  induction failures <;> simp_all

end Calls

def callLimit (saga : Saga σ) (i : Fin saga.size) : Nat :=
  if saga.policy = .retryWithBackoff then (saga.stepAt i).retry.attempts else 1

structure Compensates (saga : Saga σ) (i : Fin saga.size) (one : Compensation σ saga.size) :
    Prop where
  calls : ∃ count, 1 ≤ count ∧ count ≤ saga.callLimit i ∧
    compensations one.trace = List.replicate count i
  attempt : attempted one.trace = [(i, one.result.toOption.isSome)]
  named : ∀ name, one.result.toOption = some name → name = saga.nameOf i
  quiet : ∀ event ∈ one.trace, event.undoes

theorem compensates_of_calls (saga : Saga σ) (i : Fin saga.size) (calls : List (Except AttemptError Unit))
    (result : Except BoxError Unit) (after : σ) (atLeast : 1 ≤ calls.length)
    (atMost : calls.length ≤ saga.callLimit i) :
    saga.Compensates i
      ⟨calls.map (.compensateCall i) ++ [.onStepCompensated i
        (match result with | .ok () => none | .error err => some err)],
        result.map fun _ => (saga.stepAt i).name, after⟩ := by
  refine ⟨⟨calls.length, atLeast, atMost, by simp⟩, ?_, ?_, by
    simp +contextual [or_imp, Event.undoes]⟩
  · cases result <;> simp [Except.map, Except.toOption]
  · cases result <;> simp [Except.map, Except.toOption, nameOf, eq_comm]

theorem runCompensation_correct (saga : Saga σ) (i : Fin saga.size) (ctx : σ)
    (compensable : (saga.stepAt i).compensate.isSome) :
    saga.Compensates i (saga.runCompensation i ctx) := by
  obtain ⟨body, declared⟩ := Option.isSome_iff_exists.mp compensable
  rw [runCompensation]
  simp only [declared]
  by_cases retried : saga.policy = .retryWithBackoff
  · simp only [retried, if_true]
    have lengths := (invokeWithPolicy_wellFormed (saga.stepAt i).retry body ctx).length
    exact compensates_of_calls saga i _ _ _ lengths.1 (by simpa [callLimit, retried] using lengths.2)
  · simp only [retried, if_false]
    exact compensates_of_calls saga i _ _ _ (by simp) (by simp [callLimit, retried])

structure Attempts (saga : Saga σ) (order : List (Fin saga.size)) (trace : List (Event saga.size))
    (rolled : List String) : Prop where
  within : ((attempted trace).map Prod.fst).Subperm order
  limits : ∀ i ∈ (attempted trace).map Prod.fst,
    1 ≤ (compensations trace).count i ∧ (compensations trace).count i ≤ saga.callLimit i
  calls : ∀ i ∈ compensations trace, i ∈ (attempted trace).map Prod.fst
  quiet : ∀ event ∈ trace, event.undoes
  names : rolled = (order.filter fun i => (i, true) ∈ attempted trace).map saga.nameOf

variable {saga : Saga σ}

theorem Attempts.nil (order : List (Fin saga.size)) : saga.Attempts order [] [] := by
  constructor <;> simp

theorem Compensates.attempts {i : Fin saga.size} {one : Compensation σ saga.size}
    (done : saga.Compensates i one) : saga.Attempts [i] one.trace one.result.toOption.toList := by
  obtain ⟨count, atLeast, atMost, calls⟩ := done.calls
  refine ⟨?_, ?_, ?_, done.quiet, ?_⟩
  · simp [done.attempt]
  · simp [done.attempt, calls, atMost]
    omega
  · simp [done.attempt, calls]
  · cases result : one.result.toOption with
    | none => simp [done.attempt, result]
    | some name => simp [done.attempt, result, done.named name result]

theorem Attempts.listed {order : List (Fin saga.size)} {trace : List (Event saga.size)}
    {rolled : List String} (done : saga.Attempts order trace rolled) {attempt : Fin saga.size × Bool}
    (member : attempt ∈ attempted trace) : attempt.1 ∈ order :=
  done.within.subset (List.mem_map_of_mem member)

theorem Attempts.uncalled {order : List (Fin saga.size)} {trace : List (Event saga.size)}
    {rolled : List String} (done : saga.Attempts order trace rolled) {i : Fin saga.size}
    (outside : i ∉ order) : (compensations trace).count i = 0 := by
  rw [List.count_eq_zero]
  intro called
  exact outside (done.within.subset (done.calls i called))

theorem Attempts.append {first second : List (Fin saga.size)}
    {firstTrace secondTrace : List (Event saga.size)} {firstRolled secondRolled : List String}
    (disjoint : first.Disjoint second) (before : saga.Attempts first firstTrace firstRolled)
    (after : saga.Attempts second secondTrace secondRolled) :
    saga.Attempts (first ++ second) (firstTrace ++ secondTrace) (firstRolled ++ secondRolled) := by
  refine ⟨?_, ?_, ?_, ?_, ?_⟩
  · simpa using before.within.append after.within
  · intro i member
    simp only [attempted_append, List.map_append, List.mem_append] at member
    rw [compensations_append, List.count_append]
    rcases member with member | member
    · have outside := after.uncalled (disjoint (before.within.subset member))
      simpa [outside] using before.limits i member
    · have outside := before.uncalled fun listed => disjoint listed (after.within.subset member)
      simpa [outside] using after.limits i member
  · intro i called
    simp only [compensations_append, List.mem_append, attempted_append, List.map_append] at called ⊢
    exact called.imp (before.calls i) (after.calls i)
  · intro event member
    exact (List.mem_append.mp member).elim (before.quiet event) (after.quiet event)
  · -- a step of one half is never among the attempts of the other
    have left : ∀ i ∈ first, ((i, true) ∈ attempted (firstTrace ++ secondTrace) ↔
        (i, true) ∈ attempted firstTrace) := by
      intro i member
      have absent : (i, true) ∉ attempted secondTrace := fun other =>
        disjoint member (after.listed other)
      simp [absent]
    have right : ∀ i ∈ second, ((i, true) ∈ attempted (firstTrace ++ secondTrace) ↔
        (i, true) ∈ attempted secondTrace) := by
      intro i member
      have absent : (i, true) ∉ attempted firstTrace := fun other =>
        disjoint (before.listed other) member
      simp [absent]
    rw [List.filter_append, List.map_append, before.names, after.names]
    congr 2
    · exact List.filter_congr fun i member => decide_eq_decide.mpr (left i member).symm
    · exact List.filter_congr fun i member => decide_eq_decide.mpr (right i member).symm

theorem Attempts.of_perm {order : List (Fin saga.size)} {trace other : List (Event saga.size)}
    {rolled : List String} (done : saga.Attempts order trace rolled) (perm : trace.Perm other) :
    saga.Attempts order other rolled := by
  have attempts : (attempted trace).Perm (attempted other) := perm.filterMap _
  have calls : (compensations trace).Perm (compensations other) := perm.filterMap _
  refine ⟨(attempts.map _).symm.subperm.trans done.within, ?_, ?_, ?_, ?_⟩
  · intro i member
    rw [← calls.count_eq]
    exact done.limits i ((attempts.map _).mem_iff.mpr member)
  · intro i called
    exact (attempts.map _).mem_iff.mp (done.calls i (calls.mem_iff.mpr called))
  · exact fun event member => done.quiet event (perm.mem_iff.mpr member)
  · rw [done.names]
    congr 1
    exact List.filter_congr fun i _ => decide_eq_decide.mpr attempts.mem_iff

def failureLimit : CompensationPolicy → Option Nat
  | .stopOnError => some 1
  | .circuitBreaker => some circuitBreakerThreshold
  | _ => none

def Trips (policy : CompensationPolicy) (results : List Bool) : Prop :=
  ∃ limit, failureLimit policy = some limit ∧ List.replicate limit false <:+ results

def trailingFailures (results : List Bool) : Nat :=
  (results.reverse.takeWhile fun ok => !ok).length

theorem replicate_false_prefix (limit : Nat) (results : List Bool) :
    List.replicate limit false <+: results ↔
      limit ≤ (results.takeWhile fun ok => !ok).length := by
  induction results generalizing limit with
  | nil => cases limit <;> simp [List.replicate_succ]
  | cons ok results ih =>
    cases limit with
    | zero => simp
    | succ limit => cases ok <;> simp [List.replicate_succ, ih]

theorem trips_iff (limit : Nat) (results : List Bool) :
    List.replicate limit false <:+ results ↔ limit ≤ trailingFailures results := by
  rw [← List.reverse_prefix, List.reverse_replicate, replicate_false_prefix, trailingFailures]

@[simp] theorem trailingFailures_true (results : List Bool) :
    trailingFailures (results ++ [true]) = 0 := by
  simp [trailingFailures]

@[simp] theorem trailingFailures_false (results : List Bool) :
    trailingFailures (results ++ [false]) = trailingFailures results + 1 := by
  simp [trailingFailures]

structure Sequential (saga : Saga σ) (order : List (Fin saga.size)) (earlier : List Bool)
    (trace : List (Event saga.size)) : Prop where
  follows : (attempted trace).map Prod.fst <+: order
  stops : (attempted trace).map Prod.fst = order ∨
    Trips saga.policy (earlier ++ (attempted trace).map Prod.snd)
  noSooner : ∀ part, part <+: attempted trace → part ≠ attempted trace →
    ¬ Trips saga.policy (earlier ++ part.map Prod.snd)
  grouped : compensations trace = (attempted trace).flatMap fun attempt =>
    List.replicate ((compensations trace).count attempt.1) attempt.1

theorem Sequential.halted {order : List (Fin saga.size)} {earlier : List Bool}
    (halted : order = [] ∨ Trips saga.policy earlier) : saga.Sequential order earlier [] := by
  refine ⟨by simp, ?_, ?_, by simp⟩
  · rcases halted with rfl | trips
    · exact .inl rfl
    · exact .inr (by simpa using trips)
  · intro part sub proper
    exact absurd (List.prefix_nil.mp sub) proper

theorem Sequential.cons {i : Fin saga.size} {rest : List (Fin saga.size)} {earlier : List Bool}
    {one : Compensation σ saga.size} {later : List (Event saga.size)} {rolled : List String}
    (running : ¬ Trips saga.policy earlier) (fresh : i ∉ rest) (head : saga.Compensates i one)
    (tail : saga.Sequential rest (earlier ++ [one.result.toOption.isSome]) later)
    (inside : saga.Attempts rest later rolled) :
    saga.Sequential (i :: rest) earlier (one.trace ++ later) := by
  have shape : attempted (one.trace ++ later) =
      (i, one.result.toOption.isSome) :: attempted later := by
    simp [head.attempt]
  obtain ⟨count, -, -, calls⟩ := head.calls
  refine ⟨?_, ?_, ?_, ?_⟩
  · rw [shape]
    simpa using tail.follows
  · rw [shape]
    simpa using tail.stops
  · rw [shape]
    intro part sub proper
    cases part with
    | nil => simpa using running
    | cons attempt part =>
      obtain ⟨rfl, inner⟩ := List.cons_prefix_cons.mp sub
      have shorter : part ≠ attempted later := fun same => proper (by rw [same])
      simpa using tail.noSooner part inner shorter
  · have own : (compensations (one.trace ++ later)).count i = count := by
      simp [calls, inside.uncalled fresh]
    have others : ∀ attempt ∈ attempted later,
        (compensations (one.trace ++ later)).count attempt.1 =
          (compensations later).count attempt.1 := by
      intro attempt member
      have differs : i ≠ attempt.1 := fun same => fresh (same ▸ inside.listed member)
      simp [calls, List.count_replicate, differs]
    have tailCalls : (attempted later).flatMap (fun attempt => List.replicate
        ((compensations (one.trace ++ later)).count attempt.1) attempt.1) = compensations later := by
      rw [tail.grouped.trans (List.flatMap_congr fun attempt member => by
        rw [← others attempt member])]
    rw [shape, List.flatMap_cons, own, tailCalls, compensations_append, calls]

theorem compensateSequential_correct (order : List (Fin saga.size)) (distinct : order.Nodup)
    (compensable : ∀ i ∈ order, (saga.stepAt i).compensate.isSome) (rolled : List String)
    (firstErr : Option BoxError) (failures : Nat) (ctx : σ) (earlier : List Bool)
    (counted : failures = trailingFailures earlier) (running : ¬ Trips saga.policy earlier) :
    ∃ names, (saga.compensateSequential order rolled firstErr failures ctx).rolled = rolled ++ names ∧
      saga.Attempts order (saga.compensateSequential order rolled firstErr failures ctx).trace names ∧
      saga.Sequential order earlier
        (saga.compensateSequential order rolled firstErr failures ctx).trace := by
  induction order generalizing rolled firstErr failures ctx earlier with
  | nil => exact ⟨[], by simp [compensateSequential], .nil _, .halted (.inl rfl)⟩
  | cons i rest ih =>
    obtain ⟨fresh, distinct⟩ := List.nodup_cons.mp distinct
    have head := runCompensation_correct saga i ctx (compensable i (by simp))
    have apart : List.Disjoint [i] rest := by simpa using fresh
    have ih := ih distinct fun j member => compensable j (by simp [member])
    -- The head attempt followed by any rollback of the rest that the policy may continue with.
    have combine : ∀ (later : List (Event saga.size)) (names : List String),
        saga.Attempts rest later names →
        saga.Sequential rest
          (earlier ++ [(saga.runCompensation i ctx).result.toOption.isSome]) later →
        saga.Attempts (i :: rest) ((saga.runCompensation i ctx).trace ++ later)
            ((saga.runCompensation i ctx).result.toOption.toList ++ names) ∧
          saga.Sequential (i :: rest) earlier ((saga.runCompensation i ctx).trace ++ later) :=
      fun later names inside tail =>
        ⟨Attempts.append apart head.attempts inside, .cons running fresh head tail inside⟩
    rw [compensateSequential]
    cases result : (saga.runCompensation i ctx).result with
    | ok name =>
      simp only [result, Except.toOption, Option.isSome_some, Option.toList_some] at combine ⊢
      have continued : ¬ Trips saga.policy (earlier ++ [true]) := by
        rintro ⟨limit, known, suffix⟩
        rw [trips_iff, trailingFailures_true] at suffix
        cases policy : saga.policy <;>
          simp [policy, failureLimit, circuitBreakerThreshold] at known <;> omega
      obtain ⟨names, rolledEq, inside, tail⟩ := ih (rolled ++ [name]) firstErr 0
        (saga.runCompensation i ctx).ctx (earlier ++ [true]) (by simp) continued
      exact ⟨name :: names, by simp [rolledEq], by simpa using combine _ _ inside tail⟩
    | error err =>
      simp only [result, Except.toOption, Option.isSome_none, Option.toList_none,
        List.nil_append] at combine ⊢
      have failedCount : trailingFailures (earlier ++ [false]) = failures + 1 := by
        simp [counted]
      have halt : Trips saga.policy (earlier ++ [false]) →
          saga.Attempts (i :: rest) (saga.runCompensation i ctx).trace [] ∧
            saga.Sequential (i :: rest) earlier (saga.runCompensation i ctx).trace := by
        intro trips
        simpa using combine [] [] (.nil _) (.halted (.inr trips))
      split
      · rename_i stop
        have trips : Trips saga.policy (earlier ++ [false]) :=
          ⟨1, by rw [stop]; rfl, by rw [trips_iff, failedCount]; omega⟩
        exact ⟨[], by simp, halt trips⟩
      · rename_i notStop
        split
        · rename_i opened
          have trips : Trips saga.policy (earlier ++ [false]) :=
            ⟨circuitBreakerThreshold, by rw [opened.1]; rfl, by
              rw [trips_iff, failedCount]; exact opened.2⟩
          exact ⟨[], by simp, halt trips⟩
        · rename_i closed
          have continued : ¬ Trips saga.policy (earlier ++ [false]) := by
            rintro ⟨limit, known, suffix⟩
            rw [trips_iff, failedCount] at suffix
            cases policy : saga.policy <;> simp [policy, failureLimit] at known notStop closed
            omega
          obtain ⟨names, rolledEq, inside, tail⟩ := ih rolled (firstErr.or (some err)) (failures + 1)
            (saga.runCompensation i ctx).ctx (earlier ++ [false]) failedCount.symm continued
          exact ⟨names, rolledEq, combine _ _ inside tail⟩

end Firefly.Orchestration.Saga
