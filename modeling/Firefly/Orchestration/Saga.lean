import Firefly.Orchestration.StepInvoker

set_option autoImplicit false

namespace Firefly.Orchestration

open Text

inductive CompensationPolicy where
  | bestEffort | stopOnError | retryWithBackoff | circuitBreaker | bestEffortParallel
  | groupedParallel
deriving DecidableEq, Repr

def circuitBreakerThreshold : Nat := 3

structure Step (σ : Type) where
  name : String
  execute : Action σ
  compensate : Option (Action σ) := none
  retry : RetryPolicy := {}
  group : Option String := none
  dependsOn : List String := []

structure Saga (σ : Type) where
  name : String
  steps : List (Step σ) := []
  policy : CompensationPolicy := .bestEffort

inductive SagaStatus where
  | completed | compensated | failed
deriving DecidableEq, Repr

structure Outcome where
  saga : String
  status : SagaStatus
  stepsExecuted : List String
  stepsRolled : List String
  error : Option String
deriving DecidableEq

inductive SagaError where
  | step (step : String) (source : BoxError)
  | compensation (step : String) (original : SagaError) (compensate : BoxError)
  | cancelled
  | definition (message : String)
deriving DecidableEq

def SagaError.toString : SagaError → String
  | .step name source => "step " ++ debugStr name ++ ": " ++ source
  | .compensation name original compensate =>
    "saga: compensation failed at step " ++ debugStr name ++ ": " ++ compensate ++
      " (original: " ++ original.toString ++ ")"
  | .cancelled => "saga cancelled"
  | .definition message => "saga definition error: " ++ message

structure SagaFailure where
  outcome : Outcome
  error : SagaError
deriving DecidableEq

namespace Saga

variable {σ : Type}

abbrev size (saga : Saga σ) : Nat := saga.steps.length

def stepAt (saga : Saga σ) (i : Fin saga.size) : Step σ := saga.steps.get i

def nameOf (saga : Saga σ) (i : Fin saga.size) : String := (saga.stepAt i).name

def duplicateMessage (saga : Saga σ) (name : String) : String :=
  "saga " ++ debugStr saga.name ++ ": duplicate step name " ++ debugStr name ++
    " (step ids must be unique to use depends_on)"

def unknownMessage (saga : Saga σ) (name dep : String) : String :=
  "saga " ++ debugStr saga.name ++ ": step " ++ debugStr name ++ " depends on unknown step " ++
    debugStr dep

def itselfMessage (saga : Saga σ) (name : String) : String :=
  "saga " ++ debugStr saga.name ++ ": step " ++ debugStr name ++ " depends on itself"

def cycleMessage (saga : Saga σ) : String :=
  "saga " ++ debugStr saga.name ++
    ": dependency cycle among steps (every step must be reachable from a root)"

def buildIndex (saga : Saga σ) :
    List (Fin saga.size) → Std.TreeMap String (Fin saga.size) →
      Except String (Std.TreeMap String (Fin saga.size))
  | [], index => .ok index
  | i :: rest, index =>
    if saga.nameOf i ∈ index then .error (saga.duplicateMessage (saga.nameOf i))
    else saga.buildIndex rest (index.insert (saga.nameOf i) i)

structure Edges (n : Nat) where
  inDegree : Fin n → Nat
  dependents : Fin n → List (Fin n)

def Edges.push {n : Nat} (edges : Edges n) (source target : Fin n) : Edges n where
  inDegree := Function.update edges.inDegree target (edges.inDegree target + 1)
  dependents := Function.update edges.dependents source (edges.dependents source ++ [target])

def addDependencies (saga : Saga σ) (index : Std.TreeMap String (Fin saga.size))
    (i : Fin saga.size) : List String → Edges saga.size → Except String (Edges saga.size)
  | [], edges => .ok edges
  | dep :: rest, edges =>
    match index[dep]? with
    | none => .error (saga.unknownMessage (saga.nameOf i) dep)
    | some source =>
      if source = i then .error (saga.itselfMessage (saga.nameOf i))
      else saga.addDependencies index i rest (edges.push source i)

def addEdges (saga : Saga σ) (index : Std.TreeMap String (Fin saga.size)) :
    List (Fin saga.size) → Edges saga.size → Except String (Edges saga.size)
  | [], edges => .ok edges
  | i :: rest, edges =>
    match saga.addDependencies index i (saga.stepAt i).dependsOn edges with
    | .error message => .error message
    | .ok edges => saga.addEdges index rest edges

structure Drain (n : Nat) where
  inDegree : Fin n → Nat
  order : List (Fin n)
  next : List (Fin n)

def Drain.release {n : Nat} (state : Drain n) (d : Fin n) : Drain n :=
  let degree := state.inDegree d - 1
  { state with
    inDegree := Function.update state.inDegree d degree
    next := if degree = 0 then state.next ++ [d] else state.next }

def Drain.visit {n : Nat} (dependents : Fin n → List (Fin n)) (state : Drain n) (i : Fin n) :
    Drain n :=
  (dependents i).foldl Drain.release { state with order := state.order ++ [i] }

-- `ready` is never empty at more than `n` rounds, so `n + 1` rounds of fuel are enough.
def drainLayers {n : Nat} (dependents : Fin n → List (Fin n)) :
    Nat → (Fin n → Nat) → List (Fin n) → List (Fin n) → List (Fin n)
  | 0, _, order, _ => order
  | fuel + 1, inDegree, order, ready =>
    if ready = [] then order
    else
      let layer := (ready.insertionSort (· ≤ ·)).foldl (Drain.visit dependents) ⟨inDegree, order, []⟩
      drainLayers dependents fuel layer.inDegree layer.order layer.next

def executionOrder (saga : Saga σ) : Except String (List (Fin saga.size)) :=
  if saga.steps.all (fun step => step.dependsOn.isEmpty) then .ok (List.finRange saga.size)
  else
    match saga.buildIndex (List.finRange saga.size) ∅ with
    | .error message => .error message
    | .ok index =>
      match saga.addEdges index (List.finRange saga.size) ⟨fun _ => 0, fun _ => []⟩ with
      | .error message => .error message
      | .ok edges =>
        let ready := (List.finRange saga.size).filter fun i => edges.inDegree i = 0
        let order := drainLayers edges.dependents (saga.size + 1) edges.inDegree [] ready
        if order.length ≠ saga.size then .error saga.cycleMessage else .ok order

/-- What a run does that others can see: the listener hooks it fires and the calls it makes of the
user's closures. Steps are named by position; the hooks are passed that step's name. -/
inductive Event (n : Nat) where
  | onStart
  | onStepStarted (i : Fin n)
  | executeCall (i : Fin n) (result : Except AttemptError Unit)
  | onStepSuccess (i : Fin n) (attempts : Nat)
  | onStepFailed (i : Fin n) (error : String) (attempts : Nat)
  | onCompensationStarted
  | compensateCall (i : Fin n) (result : Except AttemptError Unit)
  | onStepCompensated (i : Fin n) (error : Option String)
  | onCompleted (success : Bool)
deriving DecidableEq

/-- How `join_all` interleaves a batch of futures: who acts on the shared state first, and in which
order their events become visible. -/
structure Scheduler (n : Nat) where
  completion : List (Fin n) → List (Fin n)
  shuffle : List (List (Event n)) → List (Event n)
  completion_perm : ∀ batch, (completion batch).Perm batch
  shuffle_perm : ∀ traces, (shuffle traces).Perm traces.flatten
  shuffle_keeps : ∀ traces, ∀ trace ∈ traces, List.Sublist trace (shuffle traces)

def Scheduler.inOrder (n : Nat) : Scheduler n where
  completion batch := batch
  shuffle traces := traces.flatten
  completion_perm _ := .refl _
  shuffle_perm _ := .refl _
  shuffle_keeps _ _ member := List.sublist_flatten_of_mem member

structure Compensation (σ : Type) (n : Nat) where
  trace : List (Event n)
  result : Except BoxError String
  ctx : σ

def stepFailedText : String := "step failed"

def runCompensation (saga : Saga σ) (i : Fin saga.size) (ctx : σ) : Compensation σ saga.size :=
  let step := saga.stepAt i
  match step.compensate with
  -- The rollback order is filtered to compensable steps; the source panics here.
  | none => ⟨[], .error "order is filtered to compensable steps", ctx⟩
  | some body =>
    let (calls, result, ctx) : List (Except AttemptError Unit) × Except BoxError Unit × σ :=
      if saga.policy = .retryWithBackoff then
        let invocation := invokeWithPolicy step.retry body ctx
        (invocation.calls,
          (invocation.outcome step.name step.retry).mapError
            (unwrapInvokeCause stepFailedText step.retry),
          invocation.ctx)
      else
        let (attempt, ctx) := body ctx
        ([attempt.result.mapError .failed], attempt.result, ctx)
    let error : Option String := match result with
      | .ok () => none
      | .error err => some err
    ⟨calls.map (.compensateCall i) ++ [.onStepCompensated i error],
      result.map fun _ => step.name, ctx⟩

structure Rollback (σ : Type) (n : Nat) where
  trace : List (Event n)
  rolled : List String
  firstErr : Option BoxError
  ctx : σ

def compensateSequential (saga : Saga σ) :
    List (Fin saga.size) → List String → Option BoxError → Nat → σ → Rollback σ saga.size
  | [], rolled, firstErr, _, ctx => ⟨[], rolled, firstErr, ctx⟩
  | i :: rest, rolled, firstErr, consecutiveFailures, ctx =>
    let one := saga.runCompensation i ctx
    match one.result with
    | .ok name =>
      let later := saga.compensateSequential rest (rolled ++ [name]) firstErr 0 one.ctx
      { later with trace := one.trace ++ later.trace }
    | .error err =>
      if saga.policy = .stopOnError then ⟨one.trace, rolled, some err, one.ctx⟩
      else
        let failures := consecutiveFailures + 1
        let firstErr := firstErr.or (some err)
        if saga.policy = .circuitBreaker ∧ circuitBreakerThreshold ≤ failures then
          ⟨one.trace, rolled, firstErr, one.ctx⟩
        else
          let later := saga.compensateSequential rest rolled firstErr failures one.ctx
          { later with trace := one.trace ++ later.trace }

def runEach (saga : Saga σ) : List (Fin saga.size) → σ → List (Fin saga.size × Compensation σ saga.size) × σ
  | [], ctx => ([], ctx)
  | i :: rest, ctx =>
    let one := saga.runCompensation i ctx
    let (later, ctx) := saga.runEach rest one.ctx
    ((i, one) :: later, ctx)

def collectCompensations : List (Except BoxError String) → List String × Option BoxError
  | [] => ([], none)
  | .ok name :: rest =>
    let (rolled, firstErr) := collectCompensations rest
    (name :: rolled, firstErr)
  | .error err :: rest => ((collectCompensations rest).1, some err)

-- `join_all` over one batch: the closures run in the scheduler's order, the results come back in
-- the order of the batch.
def joinCompensations (saga : Saga σ) (sched : Scheduler saga.size) (batch : List (Fin saga.size))
    (ctx : σ) : Rollback σ saga.size :=
  let (done, ctx) := saga.runEach (sched.completion batch) ctx
  let results := batch.filterMap fun i => (done.lookup i).map (·.result)
  let (rolled, firstErr) := collectCompensations results
  ⟨sched.shuffle (done.map (·.2.trace)), rolled, firstErr, ctx⟩

def sameGroup (saga : Saga σ) (i j : Fin saga.size) : Bool :=
  (saga.stepAt i).group.isSome && (saga.stepAt j).group == (saga.stepAt i).group

def compensateGroups (saga : Saga σ) (sched : Scheduler saga.size) :
    List (List (Fin saga.size)) → List String → Option BoxError → σ → Rollback σ saga.size
  | [], rolled, firstErr, ctx => ⟨[], rolled, firstErr, ctx⟩
  | group :: groups, rolled, firstErr, ctx =>
    let one := saga.joinCompensations sched group ctx
    let later := saga.compensateGroups sched groups (rolled ++ one.rolled)
      (firstErr.or one.firstErr) one.ctx
    { later with trace := one.trace ++ later.trace }

-- Contiguous steps of the rollback order that share a group label form one batch.
def compensateGrouped (saga : Saga σ) (sched : Scheduler saga.size) (order : List (Fin saga.size))
    (ctx : σ) : Rollback σ saga.size :=
  saga.compensateGroups sched (order.splitBy saga.sameGroup) [] none ctx

def rollbackOrder (saga : Saga σ) (executed : List (Fin saga.size)) : List (Fin saga.size) :=
  executed.reverse.filter fun i => (saga.stepAt i).compensate.isSome

def compensate (saga : Saga σ) (sched : Scheduler saga.size) (executed : List (Fin saga.size))
    (ctx : σ) : Rollback σ saga.size :=
  let order := saga.rollbackOrder executed
  let rollback := match saga.policy with
    | .bestEffort | .stopOnError | .retryWithBackoff | .circuitBreaker =>
      saga.compensateSequential order [] none 0 ctx
    | .bestEffortParallel => saga.joinCompensations sched order ctx
    | .groupedParallel => saga.compensateGrouped sched order ctx
  let started := if executed = [] then [] else [.onCompensationStarted]
  { rollback with trace := started ++ rollback.trace }

structure Run (σ : Type) (n : Nat) where
  trace : List (Event n)
  result : Except SagaFailure Outcome
  ctx : σ

def Run.outcome {n : Nat} (run : Run σ n) : Outcome :=
  match run.result with
  | .ok outcome => outcome
  | .error failure => failure.outcome

-- The execute loop. `cancelled` gives the token's reading at each check, by position.
def runSteps (saga : Saga σ) (sched : Scheduler saga.size) (cancelled : Nat → Bool) :
    List (Fin saga.size) → List (Fin saga.size) → List String → σ → Run σ saga.size
  | [], _, stepsExecuted, ctx =>
    { trace := [.onCompleted true]
      result := .ok
        { saga := saga.name, status := .completed, stepsExecuted, stepsRolled := [], error := none }
      ctx }
  | i :: rest, executed, stepsExecuted, ctx =>
    let step := saga.stepAt i
    if cancelled executed.length then
      { trace := [.onCompleted false]
        result := .error
          { outcome :=
              { saga := saga.name, status := .failed, stepsExecuted, stepsRolled := []
                error := some SagaError.cancelled.toString }
            error := .cancelled }
        ctx }
    else
      let invocation := invokeWithPolicy step.retry step.execute ctx
      let started := .onStepStarted i :: invocation.calls.map (.executeCall i)
      match invocation.outcome step.name step.retry with
      | .error err =>
        let stepError := SagaError.step step.name (unwrapInvokeCause stepFailedText step.retry err)
        let rollback := saga.compensate sched executed invocation.ctx
        let error := match rollback.firstErr, saga.policy with
          | some compensate, .stopOnError => .compensation step.name stepError compensate
          | _, _ => stepError
        { trace := started ++ .onStepFailed i stepError.toString err.attempts ::
            (rollback.trace ++ [.onCompleted false])
          result := .error
            { outcome :=
                { saga := saga.name, status := .compensated, stepsExecuted
                  stepsRolled := rollback.rolled, error := some stepError.toString }
              error }
          ctx := rollback.ctx }
      | .ok () =>
        let later := saga.runSteps sched cancelled rest (executed ++ [i])
          (stepsExecuted ++ [step.name]) invocation.ctx
        { later with trace := started ++ .onStepSuccess i 1 :: later.trace }

def runInner (saga : Saga σ) (sched : Scheduler saga.size) (cancelled : Nat → Bool) (ctx : σ) :
    Run σ saga.size :=
  match saga.executionOrder with
  | .error message =>
    { trace := [.onStart, .onCompleted false]
      result := .error
        { outcome :=
            { saga := saga.name, status := .failed, stepsExecuted := [], stepsRolled := []
              error := some (SagaError.definition message).toString }
          error := .definition message }
      ctx }
  | .ok order =>
    let run := saga.runSteps sched cancelled order [] [] ctx
    { run with trace := .onStart :: run.trace }

end Saga

end Firefly.Orchestration
