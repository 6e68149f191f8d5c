import Firefly.Orchestration.SagaRollback

set_option autoImplicit false

namespace Firefly.Orchestration.Saga

variable {σ : Type} {saga : Saga σ}

theorem runEach_correct (batch : List (Fin saga.size)) (ctx : σ)
    (compensable : ∀ i ∈ batch, (saga.stepAt i).compensate.isSome) :
    (saga.runEach batch ctx).1.map Prod.fst = batch ∧
      ∀ entry ∈ (saga.runEach batch ctx).1, saga.Compensates entry.1 entry.2 := by
  induction batch generalizing ctx with
  | nil => simp [runEach]
  | cons i rest ih =>
    have head := runCompensation_correct saga i ctx (compensable i (by simp))
    have tail := ih (saga.runCompensation i ctx).ctx fun j member => compensable j (by simp [member])
    simp only [runEach, List.map_cons, tail.1, List.mem_cons, true_and]
    rintro entry (rfl | member)
    · exact head
    · exact tail.2 entry member

theorem collectCompensations_rolled (results : List (Except BoxError String)) :
    (collectCompensations results).1 = results.filterMap Except.toOption := by
  induction results with
  | nil => rfl
  | cons result results ih =>
    cases result <;> simp [collectCompensations, ih, Except.toOption, List.filterMap_cons]

theorem attempts_flatten (done : List (Fin saga.size × Compensation σ saga.size))
    (distinct : (done.map Prod.fst).Nodup)
    (correct : ∀ entry ∈ done, saga.Compensates entry.1 entry.2) :
    saga.Attempts (done.map Prod.fst) (done.map (·.2.trace)).flatten
        (done.filterMap fun entry => entry.2.result.toOption) ∧
      attempted (done.map (·.2.trace)).flatten =
        done.map fun entry => (entry.1, entry.2.result.toOption.isSome) := by
  induction done with
  | nil => exact ⟨.nil _, by simp⟩
  | cons entry done ih =>
    obtain ⟨fresh, distinct⟩ := List.nodup_cons.mp distinct
    have head := correct entry (by simp)
    obtain ⟨tail, shape⟩ := ih distinct fun other member => correct other (by simp [member])
    constructor
    · have both := Attempts.append (by simpa using fresh) head.attempts tail
      cases result : entry.2.result.toOption <;> simpa [result] using both
    · simp [head.attempt, shape]

theorem lookup_of_mem_of_nodup {α β : Type} [BEq α] [LawfulBEq α] {entries : List (α × β)}
    (distinct : (entries.map Prod.fst).Nodup) {entry : α × β} (member : entry ∈ entries) :
    entries.lookup entry.1 = some entry.2 := by
  induction entries with
  | nil => simp at member
  | cons head entries ih =>
    obtain ⟨fresh, distinct⟩ := List.nodup_cons.mp distinct
    rcases List.mem_cons.mp member with rfl | member
    · simp [List.lookup]
    · have differs : (entry.1 == head.1) = false := by
        rw [beq_eq_false_iff_ne]
        intro same
        exact fresh (same ▸ List.mem_map_of_mem member)
      simp [List.lookup, differs, ih distinct member]

theorem rolled_in_batch_order {batch : List (Fin saga.size)}
    {done : List (Fin saga.size × Compensation σ saga.size)} {trace : List (Event saga.size)}
    (unique : (done.map Prod.fst).Nodup) (keys : ∀ i ∈ batch, i ∈ done.map Prod.fst)
    (correct : ∀ entry ∈ done, saga.Compensates entry.1 entry.2)
    (shape : (attempted trace).Perm
      (done.map fun entry => (entry.1, entry.2.result.toOption.isSome))) :
    (collectCompensations (batch.filterMap fun i => (done.lookup i).map (·.result))).1 =
      (batch.filter fun i => (i, true) ∈ attempted trace).map saga.nameOf := by
  have pointwise : ∀ i ∈ batch, ((done.lookup i).map (·.result)).bind Except.toOption =
      if (i, true) ∈ attempted trace then some (saga.nameOf i) else none := by
    intro i member
    obtain ⟨entry, inside, rfl⟩ := List.mem_map.mp (keys i member)
    have found := lookup_of_mem_of_nodup unique inside
    have flag : (entry.1, true) ∈ attempted trace ↔ entry.2.result.toOption.isSome = true := by
      rw [shape.mem_iff, List.mem_map]
      constructor
      · rintro ⟨other, listed, same⟩
        obtain ⟨key, ok⟩ := Prod.mk.inj same
        have again := lookup_of_mem_of_nodup unique listed
        rw [key, found] at again
        rwa [Option.some.inj again]
      · intro ok
        exact ⟨entry, inside, by simp [ok]⟩
    rw [found]
    cases result : entry.2.result.toOption with
    | none => simp [flag, result]
    | some name => simp [flag, result, (correct entry inside).named name result]
  rw [collectCompensations_rolled, List.filterMap_filterMap, List.filterMap_congr pointwise,
    ← List.filterMap_eq_map, ← List.filterMap_eq_filter, List.filterMap_filterMap]
  apply List.filterMap_congr
  intro i _
  by_cases ok : (i, true) ∈ attempted trace <;> simp [ok, Option.guard]

theorem joinCompensations_correct (sched : Scheduler saga.size) (batch : List (Fin saga.size))
    (distinct : batch.Nodup) (compensable : ∀ i ∈ batch, (saga.stepAt i).compensate.isSome)
    (ctx : σ) :
    saga.Attempts batch (saga.joinCompensations sched batch ctx).trace
        (saga.joinCompensations sched batch ctx).rolled ∧
      ((attempted (saga.joinCompensations sched batch ctx).trace).map Prod.fst).Perm batch := by
  have perm := sched.completion_perm batch
  obtain ⟨keys, correct⟩ := runEach_correct (sched.completion batch) ctx fun i member =>
    compensable i (perm.mem_iff.mp member)
  have unique : ((saga.runEach (sched.completion batch) ctx).1.map Prod.fst).Nodup := by
    rw [keys]
    exact perm.nodup_iff.mpr distinct
  have traceIs : (saga.joinCompensations sched batch ctx).trace =
      sched.shuffle ((saga.runEach (sched.completion batch) ctx).1.map (·.2.trace)) := rfl
  have rolledIs : (saga.joinCompensations sched batch ctx).rolled =
      (collectCompensations (batch.filterMap fun i =>
        ((saga.runEach (sched.completion batch) ctx).1.lookup i).map (·.result))).1 := rfl
  rw [traceIs, rolledIs]
  generalize (saga.runEach (sched.completion batch) ctx).1 = done at keys correct unique
  obtain ⟨attempts, shape⟩ := attempts_flatten done unique correct
  have visible := (sched.shuffle_perm (done.map (·.2.trace))).symm
  have shuffled : (attempted (sched.shuffle (done.map (·.2.trace)))).Perm
      (done.map fun entry => (entry.1, entry.2.result.toOption.isSome)) :=
    shape ▸ (visible.filterMap Event.settled?).symm
  have listed : ((attempted (sched.shuffle (done.map (·.2.trace)))).map Prod.fst).Perm batch := by
    have mapped := shuffled.map Prod.fst
    rw [List.map_map] at mapped
    exact mapped.trans (by simpa [Function.comp_def, keys] using perm)
  have moved := attempts.of_perm visible
  have names := rolled_in_batch_order unique (fun i member => keys ▸ perm.mem_iff.mpr member)
    correct shuffled
  exact ⟨⟨listed.subperm, moved.limits, moved.calls, moved.quiet, names⟩, listed⟩

theorem compensateGroups_correct (sched : Scheduler saga.size) (groups : List (List (Fin saga.size)))
    (distinct : groups.flatten.Nodup)
    (compensable : ∀ i ∈ groups.flatten, (saga.stepAt i).compensate.isSome) (rolled : List String)
    (firstErr : Option BoxError) (ctx : σ) :
    ∃ names, (saga.compensateGroups sched groups rolled firstErr ctx).rolled = rolled ++ names ∧
      saga.Attempts groups.flatten (saga.compensateGroups sched groups rolled firstErr ctx).trace
        names ∧
      ((attempted (saga.compensateGroups sched groups rolled firstErr ctx).trace).map
        Prod.fst).Perm groups.flatten := by
  induction groups generalizing rolled firstErr ctx with
  | nil => exact ⟨[], by simp [compensateGroups], .nil _, by simp [compensateGroups]⟩
  | cons group groups ih =>
    rw [List.flatten_cons, List.nodup_append'] at distinct
    obtain ⟨head, headPerm⟩ := joinCompensations_correct sched group distinct.1
      (fun i member => compensable i (by simp [member])) ctx
    obtain ⟨names, rolledEq, tail, tailPerm⟩ := ih distinct.2.1
      (fun i member => compensable i (by
        rw [List.flatten_cons]
        exact List.mem_append_right _ member))
      (rolled ++ (saga.joinCompensations sched group ctx).rolled)
      (firstErr.or (saga.joinCompensations sched group ctx).firstErr)
      (saga.joinCompensations sched group ctx).ctx
    refine ⟨(saga.joinCompensations sched group ctx).rolled ++ names, ?_, ?_, ?_⟩
    · simp [compensateGroups, rolledEq]
    · exact Attempts.append distinct.2.2 head tail
    · simpa [compensateGroups] using headPerm.append tailPerm

def CompensationPolicy.sequential : CompensationPolicy → Bool
  | .bestEffort | .stopOnError | .retryWithBackoff | .circuitBreaker => true
  | .bestEffortParallel | .groupedParallel => false

def CompensationPolicy.exhaustive : CompensationPolicy → Bool
  | .bestEffort | .retryWithBackoff | .bestEffortParallel | .groupedParallel => true
  | .stopOnError | .circuitBreaker => false

theorem rollbackOrder_nodup {executed : List (Fin saga.size)} (distinct : executed.Nodup) :
    (saga.rollbackOrder executed).Nodup :=
  (List.nodup_reverse.mpr distinct).filter _

theorem mem_rollbackOrder {executed : List (Fin saga.size)} {i : Fin saga.size} :
    i ∈ saga.rollbackOrder executed ↔ i ∈ executed ∧ (saga.stepAt i).compensate.isSome := by
  simp [rollbackOrder]

structure RollsBack (saga : Saga σ) (order : List (Fin saga.size))
    (trace : List (Event saga.size)) (rolled : List String) : Prop where
  attempts : saga.Attempts order trace rolled
  exhaustive : CompensationPolicy.exhaustive saga.policy →
    ((attempted trace).map Prod.fst).Perm order
  sequential : CompensationPolicy.sequential saga.policy → saga.Sequential order [] trace

theorem RollsBack.surround {order : List (Fin saga.size)} {trace other : List (Event saga.size)}
    {rolled : List String} (done : saga.RollsBack order trace rolled)
    (attempts : attempted other = attempted trace)
    (calls : compensations other = compensations trace)
    (quiet : ∀ event ∈ other, event.undoes) :
    saga.RollsBack order other rolled := by
  obtain ⟨⟨within, limits, called, -, names⟩, exhaustive, sequential⟩ := done
  refine ⟨⟨?_, ?_, ?_, quiet, ?_⟩, ?_, ?_⟩
  all_goals try rw [attempts]
  · exact within
  · rwa [calls]
  · rwa [calls]
  · exact names
  · exact exhaustive
  · intro policy
    obtain ⟨follows, stops, noSooner, grouped⟩ := sequential policy
    refine ⟨?_, ?_, ?_, ?_⟩ <;> simpa only [attempts, calls]

theorem compensateSequential_rollsBack (order : List (Fin saga.size)) (distinct : order.Nodup)
    (compensable : ∀ i ∈ order, (saga.stepAt i).compensate.isSome) (ctx : σ) :
    saga.RollsBack order (saga.compensateSequential order [] none 0 ctx).trace
      (saga.compensateSequential order [] none 0 ctx).rolled := by
  have running : ¬ Trips saga.policy [] := by
    rintro ⟨limit, known, suffix⟩
    have empty : limit = 0 := by simpa using List.suffix_nil.mp suffix
    cases name : saga.policy <;>
      simp [name, failureLimit, circuitBreakerThreshold, empty] at known
  obtain ⟨names, rolled, inside, sequential⟩ :=
    compensateSequential_correct order distinct compensable [] none 0 ctx [] rfl running
  rw [rolled]
  refine ⟨inside, ?_, fun _ => sequential⟩
  intro exhaustive
  rcases sequential.stops with all | ⟨limit, known, -⟩
  · rw [all]
  · cases name : saga.policy <;>
      simp [name, failureLimit, CompensationPolicy.exhaustive] at known exhaustive

theorem compensate_correct (sched : Scheduler saga.size) (executed : List (Fin saga.size))
    (distinct : executed.Nodup) (ctx : σ) :
    saga.RollsBack (saga.rollbackOrder executed) (saga.compensate sched executed ctx).trace
      (saga.compensate sched executed ctx).rolled := by
  have unique : (saga.rollbackOrder executed).Nodup := rollbackOrder_nodup distinct
  have compensable : ∀ i ∈ saga.rollbackOrder executed, (saga.stepAt i).compensate.isSome :=
    fun i member => (mem_rollbackOrder.mp member).2
  -- The optional `on_compensation_started` hook is no attempt, call or success.
  have started : ∀ {trace : List (Event saga.size)} {rolled : List String},
      saga.RollsBack (saga.rollbackOrder executed) trace rolled →
      saga.RollsBack (saga.rollbackOrder executed)
        ((if executed = [] then [] else [.onCompensationStarted]) ++ trace) rolled := by
    intro trace rolled done
    have quiet := done.attempts.quiet
    apply done.surround <;> split <;> simp +contextual [quiet]
  have sequential := compensateSequential_rollsBack (saga.rollbackOrder executed) unique
    compensable ctx
  have parallel : ∀ {trace : List (Event saga.size)} {rolled : List String},
      CompensationPolicy.sequential saga.policy = false →
      saga.Attempts (saga.rollbackOrder executed) trace rolled →
      ((attempted trace).map Prod.fst).Perm (saga.rollbackOrder executed) →
      saga.RollsBack (saga.rollbackOrder executed) trace rolled := by
    intro trace rolled concurrent inside all
    exact ⟨inside, fun _ => all, fun policy => by simp [concurrent] at policy⟩
  rw [compensate]
  cases policy : saga.policy with
  | bestEffort | stopOnError | retryWithBackoff | circuitBreaker =>
    exact started sequential
  | bestEffortParallel =>
    obtain ⟨inside, all⟩ := joinCompensations_correct sched _ unique compensable ctx
    exact started (parallel (by rw [policy]; rfl) inside all)
  | groupedParallel =>
    have whole := List.flatten_splitBy saga.sameGroup (saga.rollbackOrder executed)
    obtain ⟨names, rolled, inside, all⟩ := compensateGroups_correct sched
      ((saga.rollbackOrder executed).splitBy saga.sameGroup) (whole.symm ▸ unique)
      (whole.symm ▸ compensable) [] none ctx
    rw [whole] at inside all
    rw [List.nil_append] at rolled
    exact started (parallel (by rw [policy]; rfl) (rolled ▸ inside) all)

@[simp] def Event.failed? {n : Nat} : Event n → Option (Fin n)
  | .onStepFailed i _ _ => some i
  | _ => none

def failures {n : Nat} (trace : List (Event n)) : List (Fin n) :=
  trace.filterMap Event.failed?

@[simp] theorem failures_nil {n : Nat} : failures ([] : List (Event n)) = [] := rfl

@[simp] theorem failures_cons {n : Nat} (event : Event n) (trace : List (Event n)) :
    failures (event :: trace) = event.failed?.toList ++ failures trace := by
  rw [failures, List.filterMap_cons]
  cases event.failed? <;> rfl

@[simp] theorem failures_append {n : Nat} (first second : List (Event n)) :
    failures (first ++ second) = failures first ++ failures second := by
  simp [failures]

@[simp] theorem failures_executeCalls {n : Nat} (i : Fin n)
    (calls : List (Except AttemptError Unit)) :
    failures (calls.map (Event.executeCall i)) = [] := by
  induction calls <;> simp_all

theorem succeeded_of_undoes {n : Nat} {trace : List (Event n)}
    (quiet : ∀ event ∈ trace, event.undoes) : succeeded trace = [] := by
  refine List.filterMap_eq_nil_iff.mpr fun event member => ?_
  have undoes := quiet event member
  cases event <;> simp_all [Event.undoes]

theorem failures_of_undoes {n : Nat} {trace : List (Event n)}
    (quiet : ∀ event ∈ trace, event.undoes) : failures trace = [] := by
  refine List.filterMap_eq_nil_iff.mpr fun event member => ?_
  have undoes := quiet event member
  cases event <;> simp_all [Event.undoes]

structure Forward {n : Nat} (trace : List (Event n)) (done : List (Fin n)) : Prop where
  succeeded : succeeded trace = done
  compensations : compensations trace = []
  attempted : attempted trace = []
  failures : failures trace = []

theorem Forward.append {n : Nat} {first second : List (Event n)} {done more : List (Fin n)}
    (before : Forward first done) (after : Forward second more) :
    Forward (first ++ second) (done ++ more) := by
  constructor <;>
    simp [before.succeeded, after.succeeded, before.compensations, after.compensations,
      before.attempted, after.attempted, before.failures, after.failures]

inductive Ends (saga : Saga σ) (executed : List (Fin saga.size)) (rest : List (Fin saga.size))
    (run : Run σ saga.size) : Prop where
  | undisturbed (done : List (Fin saga.size)) (isPrefix : done <+: rest)
      (forward : Forward run.trace done)
      (executedNames : run.outcome.stepsExecuted = (executed ++ done).map saga.nameOf)
      (rolledNames : run.outcome.stepsRolled = [])
  | failed (done : List (Fin saga.size)) (k : Fin saga.size) (later : List (Fin saga.size))
      (order : rest = done ++ k :: later) (before : List (Event saga.size)) (error : String)
      (attempts : Nat) (after : List (Event saga.size))
      (trace : run.trace = before ++ .onStepFailed k error attempts :: after)
      (forward : Forward before done)
      (rollback : saga.RollsBack (saga.rollbackOrder (executed ++ done)) after
        run.outcome.stepsRolled)
      (executedNames : run.outcome.stepsExecuted = (executed ++ done).map saga.nameOf)

theorem Ends.prepend {executed front rest : List (Fin saga.size)} {run : Run σ saga.size}
    (ends : saga.Ends (executed ++ front) rest run) {head : List (Event saga.size)}
    (forward : Forward head front) :
    saga.Ends executed (front ++ rest) { run with trace := head ++ run.trace } := by
  cases ends with
  | undisturbed done isPrefix tail executedNames rolledNames =>
    refine .undisturbed (front ++ done) ?_ (forward.append tail) ?_ rolledNames
    · exact (List.prefix_append_right_inj front).mpr isPrefix
    · simpa [Run.outcome] using executedNames
  | failed done k later order before error attempts after trace tail rollback executedNames =>
    refine .failed (front ++ done) k later (by simp [order]) (head ++ before) error attempts after
      (by simp [trace]) (forward.append tail) ?_ ?_
    · simpa [Run.outcome] using rollback
    · simpa [Run.outcome] using executedNames

theorem Ends.executedNames {executed rest : List (Fin saga.size)} {run : Run σ saga.size}
    (ends : saga.Ends executed rest run) :
    run.outcome.stepsExecuted = (executed ++ succeeded run.trace).map saga.nameOf := by
  cases ends with
  | undisturbed done isPrefix forward executedNames => rw [forward.succeeded, executedNames]
  | failed done k later order before error attempts after trace forward rollback executedNames =>
    have quiet := succeeded_of_undoes rollback.attempts.quiet
    simp [trace, forward.succeeded, quiet, executedNames]

theorem Ends.untouched {executed rest : List (Fin saga.size)} {run : Run σ saga.size}
    (ends : saga.Ends executed rest run) (none : failures run.trace = []) :
    compensations run.trace = [] ∧ run.outcome.stepsRolled = [] := by
  cases ends with
  | undisturbed done isPrefix forward executedNames rolledNames =>
    exact ⟨forward.compensations, rolledNames⟩
  | failed done k later order before error attempts after trace => simp [trace] at none

theorem forward_started (saga : Saga σ) (i : Fin saga.size) (failed : List AttemptError) :
    Forward (.onStepStarted i :: (failed.map Except.error).map (Event.executeCall i)) [] := by
  constructor <;> simp [-List.map_map]

theorem runSteps_correct (sched : Scheduler saga.size) (cancelled : Nat → Bool)
    (rest executed : List (Fin saga.size)) (distinct : (executed ++ rest).Nodup) (ctx : σ) :
    saga.Ends executed rest
      (saga.runSteps sched cancelled rest executed (executed.map saga.nameOf) ctx) := by
  induction rest generalizing executed ctx with
  | nil =>
    refine .undisturbed [] (List.nil_prefix) ?_ (by simp [runSteps, Run.outcome])
      (by simp [runSteps, Run.outcome])
    constructor <;> simp [runSteps]
  | cons i rest ih =>
    rw [runSteps]
    split
    · refine .undisturbed [] (List.nil_prefix) ?_ (by simp [Run.outcome]) (by simp [Run.outcome])
      constructor <;> simp
    · obtain ⟨failed, done | gaveUp⟩ := (invokeWithPolicy_wellFormed (saga.stepAt i).retry
        (saga.stepAt i).execute ctx).shape
      · obtain ⟨last, calls, -⟩ := done
        have ok : (invokeWithPolicy (saga.stepAt i).retry (saga.stepAt i).execute ctx).outcome
            (saga.stepAt i).name (saga.stepAt i).retry = .ok () := by
          simp [Invocation.outcome, last]
        have tail := ih (executed ++ [i]) (by simpa using distinct)
          (invokeWithPolicy (saga.stepAt i).retry (saga.stepAt i).execute ctx).ctx
        simp only [ok, calls]
        have head : Forward (.onStepStarted i ::
            (failed.map Except.error ++ [Except.ok ()]).map (Event.executeCall i) ++
              [.onStepSuccess i 1]) [i] := by
          constructor <;> simp [-List.map_map]
        simpa [nameOf] using tail.prepend head
      · obtain ⟨err, last, calls, -⟩ := gaveUp
        have error : ∃ invokeError,
            (invokeWithPolicy (saga.stepAt i).retry (saga.stepAt i).execute ctx).outcome
              (saga.stepAt i).name (saga.stepAt i).retry = .error invokeError := by
          cases err <;> simp [Invocation.outcome, last]
        obtain ⟨invokeError, error⟩ := error
        have unique : executed.Nodup := (List.nodup_append.mp distinct).1
        have rollback := compensate_correct sched executed unique
          (invokeWithPolicy (saga.stepAt i).retry (saga.stepAt i).execute ctx).ctx
        simp only [error, calls]
        refine .failed [] i rest rfl _ _ _ _ rfl (forward_started saga i (failed ++ [err])) ?_ ?_
        · have quiet := rollback.attempts.quiet
          simp only [List.append_nil, Run.outcome]
          apply rollback.surround <;> simp +contextual [or_imp, quiet]
        · simp [Run.outcome]

theorem ValidOrder.pairwise {order : List (Fin saga.size)} (valid : saga.ValidOrder order) :
    order.Pairwise fun earlier later => ¬ saga.DependsOn earlier later := by
  have distinct : order.Nodup := valid.perm.nodup_iff.mpr (List.nodup_finRange _)
  rw [List.pairwise_iff_getElem]
  intro a b inside inside' before dependency
  have positions := valid.after _ _ dependency
  rw [distinct.idxOf_getElem, distinct.idxOf_getElem] at positions
  omega

theorem rollbackOrder_pairwise {executed : List (Fin saga.size)}
    (sorted : executed.Pairwise fun earlier later => ¬ saga.DependsOn earlier later) :
    (saga.rollbackOrder executed).Pairwise fun earlier later => ¬ saga.DependsOn later earlier :=
  (List.pairwise_reverse.mpr sorted).filter _

-- In a list sorted against `related`, related entries stand in order, and a prefix that has the
-- later one has the earlier one too.
theorem idxOf_lt_of_pairwise {α : Type} [DecidableEq α] {related : α → α → Prop} {front whole : List α}
    (sorted : whole.Pairwise fun earlier later => ¬ related later earlier) (front_le : front <+: whole)
    {a b : α} (edge : related a b) (listed : a ∈ whole) (reached : b ∈ front) (differs : a ≠ b) :
    front.idxOf a < front.idxOf b := by
  obtain ⟨back, rfl⟩ := front_le
  obtain ⟨sortedFront, -, across⟩ := List.pairwise_append.mp sorted
  have inFront : a ∈ front := by
    rcases List.mem_append.mp listed with inFront | inBack
    · exact inFront
    · exact absurd edge (across b reached a inBack)
  by_contra notBefore
  have positions : front.idxOf b < front.idxOf a := by
    have apart : front.idxOf a ≠ front.idxOf b := fun same => differs ((List.idxOf_inj inFront).mp same)
    omega
  have ordered := List.pairwise_iff_getElem.mp sortedFront _ _ (List.idxOf_lt_length_iff.mpr reached)
    (List.idxOf_lt_length_iff.mpr inFront) positions
  rw [List.getElem_idxOf, List.getElem_idxOf] at ordered
  exact ordered edge

structure RollbackContract (saga : Saga σ) (k : Fin saga.size) (run : Run σ saga.size) : Prop where
  order : ∃ order later, saga.executionOrder = .ok order ∧ order = succeeded run.trace ++ k :: later
  after : ∃ before error attempts rollback,
    run.trace = before ++ .onStepFailed k error attempts :: rollback ∧
      succeeded before = succeeded run.trace ∧ compensations rollback = compensations run.trace
  eligible : ∀ i ∈ compensations run.trace,
    i ∈ succeeded run.trace ∧ (saga.stepAt i).compensate.isSome
  spared : k ∉ compensations run.trace
  limited : ∀ i, (compensations run.trace).count i ≤ saga.callLimit i
  complete : CompensationPolicy.exhaustive saga.policy → ∀ i ∈ succeeded run.trace,
    (saga.stepAt i).compensate.isSome → i ∈ compensations run.trace
  reversed : CompensationPolicy.sequential saga.policy →
    saga.Sequential (saga.rollbackOrder (succeeded run.trace)) [] run.trace
  dependents : CompensationPolicy.sequential saga.policy →
    ∀ i j, saga.DependsOn i j → i ∈ succeeded run.trace → (saga.stepAt i).compensate.isSome →
      ∀ ok, (j, ok) ∈ attempted run.trace →
        ((attempted run.trace).map Prod.fst).idxOf i < ((attempted run.trace).map Prod.fst).idxOf j
  rolled : run.outcome.stepsRolled =
    ((saga.rollbackOrder (succeeded run.trace)).filter fun i =>
      (i, true) ∈ attempted run.trace).map saga.nameOf

theorem Ends.contract {order : List (Fin saga.size)} (computed : saga.executionOrder = .ok order)
    {run : Run σ saga.size} (ends : saga.Ends [] order run) {k : Fin saga.size}
    (failed : k ∈ failures run.trace) : saga.RollbackContract k run := by
  have valid := executionOrder_valid saga order computed
  have distinct : order.Nodup := valid.perm.nodup_iff.mpr (List.nodup_finRange _)
  cases ends with
  | undisturbed done isPrefix forward =>
    rw [forward.failures] at failed
    simp at failed
  | failed done k' later split before error attempts after trace forward rollback =>
    have quiet := rollback.attempts.quiet
    have successes : succeeded run.trace = done := by
      simp [trace, forward.succeeded, succeeded_of_undoes quiet]
    have undone : compensations run.trace = compensations after := by
      simp [trace, forward.compensations]
    have settled : attempted run.trace = attempted after := by
      simp [trace, forward.attempted]
    obtain rfl : k = k' := by
      simpa [trace, forward.failures, failures_of_undoes quiet] using failed
    rw [List.nil_append] at rollback
    have eligible : ∀ i ∈ compensations after, i ∈ done ∧ (saga.stepAt i).compensate.isSome :=
      fun i called => mem_rollbackOrder.mp
        (rollback.attempts.within.subset (rollback.attempts.calls i called))
    rw [split, List.nodup_append] at distinct
    have fresh : k ∉ done := fun member => distinct.2.2 k member k (by simp) rfl
    have reversed : CompensationPolicy.sequential saga.policy →
        saga.Sequential (saga.rollbackOrder done) [] run.trace := by
      intro policy
      obtain ⟨follows, stops, noSooner, grouped⟩ := rollback.sequential policy
      constructor <;> simpa only [settled, undone]
    refine ⟨⟨order, later, computed, by rw [successes, split]⟩,
      ⟨before, error, attempts, after, trace, by rw [successes, forward.succeeded], undone.symm⟩,
      ?_, ?_, ?_, ?_, ?_, ?_, ?_⟩
    · rwa [undone, successes]
    · rw [undone]
      exact fun called => fresh (eligible k called).1
    · intro i
      rw [undone]
      by_cases called : i ∈ compensations after
      · exact (rollback.attempts.limits i (rollback.attempts.calls i called)).2
      · rw [List.count_eq_zero.mpr called]
        exact Nat.zero_le _
    · intro policy i member compensable
      rw [successes] at member
      rw [undone]
      have listed := (rollback.exhaustive policy).mem_iff.mpr
        (mem_rollbackOrder.mpr ⟨member, compensable⟩)
      exact List.count_pos_iff.mp (rollback.attempts.limits i listed).1
    · rwa [successes]
    · intro policy i j dependency member compensable ok tried
      have positions := valid.after i j dependency
      have sorted : (saga.rollbackOrder done).Pairwise fun earlier later =>
          ¬ saga.DependsOn later earlier := by
        apply rollbackOrder_pairwise
        exact (List.pairwise_append.mp (split ▸ valid.pairwise)).1
      exact idxOf_lt_of_pairwise sorted (reversed policy).follows dependency
        (mem_rollbackOrder.mpr ⟨successes ▸ member, compensable⟩)
        (List.mem_map.mpr ⟨_, tried, rfl⟩) (by rintro rfl; omega)
    · rw [successes, settled]
      exact rollback.attempts.names

def shipment : Saga Unit where
  name := "shipment"
  policy := .circuitBreaker
  steps :=
    [{ name := "ship", execute := fun _ => (⟨.error "no carrier", false⟩, ())
       compensate := some fun _ => (⟨.ok (), false⟩, ()), dependsOn := ["charge"] },
     { name := "reserve", execute := fun _ => (⟨.ok (), false⟩, ())
       compensate := some fun _ => (⟨.error "stock moved", false⟩, ()) },
     { name := "charge", execute := fun _ => (⟨.ok (), false⟩, ())
       compensate := some fun _ => (⟨.ok (), false⟩, ()), dependsOn := ["reserve"] },
     { name := "book", execute := fun _ => (⟨.ok (), false⟩, ()), dependsOn := ["ship"] }]

end Firefly.Orchestration.Saga
