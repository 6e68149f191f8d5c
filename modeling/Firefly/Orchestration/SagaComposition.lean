import Firefly.Shared.Json
import Firefly.Orchestration.Saga

set_option autoImplicit false

namespace Firefly.Orchestration

open Text Json

structure StepContext where
  results : Std.TreeMap String Value := ∅
  vars : Std.TreeMap String Value := ∅
  headers : Std.TreeMap String String := ∅
  input : Value := .null
  correlationId : String := ""

def StepContext.setResult (ctx : StepContext) (step : String) (result : Value) : StepContext :=
  { ctx with results := ctx.results.insert step result }

structure SagaDataFlow where
  sourceSaga : String
  sourceStep : Option String := none
  targetKey : Option String := none
deriving DecidableEq

structure CompositionEntry where
  sagaName : String
  dependsOn : List String := []
  dataFlows : List SagaDataFlow := []
deriving DecidableEq

structure SagaComposition where
  name : String
  entries : Std.TreeMap String CompositionEntry

def SagaComposition.deps (composition : SagaComposition) : Graph :=
  composition.entries.map fun _ entry => entry.dependsOn

-- Each round removes at least one name, so as many rounds as there are names suffice.
def layerLoop : Nat → Graph → List String → List (List String) →
    Except Unit (List (List String))
  | 0, remaining, _, layers => if remaining.isEmpty then .ok layers else .error ()
  | fuel + 1, remaining, done, layers =>
    if remaining.isEmpty then .ok layers
    else
      let ready := (remaining.toList.filter fun entry => entry.2.all (· ∈ done)).map Prod.fst
      if ready = [] then .error ()
      else layerLoop fuel (ready.foldl (·.erase ·) remaining) (done ++ ready) (layers ++ [ready])

def computeLayers (deps : Graph) : Except Unit (List (List String)) :=
  layerLoop deps.size deps [] []

inductive CompositionError where
  | empty (composition : String)
  | unknownDependency (composition entry dependency : String)
  | unknownDataFlowSource (composition entry sourceSaga : String)
  | cycle (composition : String)
deriving DecidableEq

def CompositionError.toString : CompositionError → String
  | .empty composition =>
    "composition " ++ debugStr composition ++ ": must contain at least one saga entry"
  | .unknownDependency composition entry dependency =>
    "composition " ++ debugStr composition ++ ": entry " ++ debugStr entry ++
      " depends on unknown " ++ debugStr dependency
  | .unknownDataFlowSource composition entry sourceSaga =>
    "composition " ++ debugStr composition ++ ": entry " ++ debugStr entry ++
      " data flow references unknown source " ++ debugStr sourceSaga
  | .cycle composition => "composition " ++ debugStr composition ++ ": dependency cycle detected"

namespace SagaComposition

def checkEntry (composition : SagaComposition) (name : String) (entry : CompositionEntry) :
    Except CompositionError Unit :=
  match entry.dependsOn.find? (· ∉ composition.entries) with
  | some dep => .error (.unknownDependency composition.name name dep)
  | none =>
    match entry.dataFlows.find? fun flow => flow.sourceSaga ∉ composition.entries with
    | some flow => .error (.unknownDataFlowSource composition.name name flow.sourceSaga)
    | none => .ok ()

def checkEntries (composition : SagaComposition) :
    List (String × CompositionEntry) → Except CompositionError Unit
  | [] => .ok ()
  | (name, entry) :: rest =>
    match composition.checkEntry name entry with
    | .error error => .error error
    | .ok () => composition.checkEntries rest

def validate (composition : SagaComposition) : Except CompositionError Unit :=
  if composition.entries.isEmpty then .error (.empty composition.name)
  else
    match composition.checkEntries composition.entries.toList with
    | .error error => .error error
    | .ok () =>
      match computeLayers composition.deps with
      | .error () => .error (.cycle composition.name)
      | .ok _ => .ok ()

end SagaComposition

structure CompositionContext where
  correlationId : String
  compositionName : String
  sagaResults : Std.TreeMap String Outcome := ∅
  sagaStepResults : Std.TreeMap String (Std.TreeMap String Value) := ∅
  sagaInputs : Std.TreeMap String Value := ∅
  completedSagas : List String := []
  compensatedSagas : List String := []
  error : Option String := none

namespace DataFlowManager

def flowValue (stepResults : Std.TreeMap String (Std.TreeMap String Value)) (flow : SagaDataFlow) :
    Option Value :=
  match flow.sourceStep with
  | some step => stepResults[flow.sourceSaga]?.bind fun results => results[step]?
  | none => stepResults[flow.sourceSaga]?.map fun results => .object results.toList

def applyFlow (stepResults : Std.TreeMap String (Std.TreeMap String Value)) (resolved : Fields)
    (flow : SagaDataFlow) : Fields :=
  match flowValue stepResults flow with
  | none => resolved
  | some value =>
    match flow.targetKey, value with
    | some key, _ => resolved.insert key value
    | none, .object fields => fields.foldl (fun resolved field => resolved.insert field.1 field.2) resolved
    | none, _ => resolved.insert flow.sourceSaga value

def resolveInput (entry : CompositionEntry)
    (stepResults : Std.TreeMap String (Std.TreeMap String Value)) (initialInput : Value) : Value :=
  if entry.dataFlows = [] then initialInput
  else
    let start := match initialInput with
      | .object fields => fields
      | _ => []
    .object (entry.dataFlows.foldl (applyFlow stepResults) start)

end DataFlowManager

structure Registered where
  saga : Saga StepContext
  undo : Option (StepContext → Except BoxError Unit) := none

structure SagaCompositor where
  sagas : Std.TreeMap String Registered

structure Finished where
  saga : String
  outcome : Outcome
  stepResults : Std.TreeMap String Value

def Finished.completed (run : Finished) : Bool := run.outcome.status = .completed

structure Undone where
  saga : String
  ctx : StepContext
  result : Except BoxError Unit

structure Execution where
  ctx : CompositionContext
  finished : List Finished
  undone : List Undone

structure Compositing where
  compositor : SagaCompositor
  composition : SagaComposition
  initialInput : Value
  correlationId : String
  sched : (saga : Saga StepContext) → Saga.Scheduler saga.size

namespace Compositing

def notRegistered (name : String) : Outcome :=
  { saga := name, status := .failed, stepsExecuted := [], stepsRolled := []
    error := some ("saga " ++ debugStr name ++ " not registered") }

def runSaga (run : Compositing) (name : String) (input : Value) : Finished :=
  match run.compositor.sagas[name]? with
  | none => ⟨name, notRegistered name, ∅⟩
  | some registered =>
    let result := registered.saga.runInner (run.sched registered.saga) (fun _ => false)
      { input := input, correlationId := run.correlationId }
    ⟨name, result.outcome, result.ctx.results⟩

def entry (run : Compositing) (name : String) : CompositionEntry :=
  run.composition.entries.getD name { sagaName := name }

def inputOf (run : Compositing) (stepResults : Std.TreeMap String (Std.TreeMap String Value))
    (name : String) : Value :=
  DataFlowManager.resolveInput (run.entry name) stepResults run.initialInput

def failureMessage (run : Compositing) (failed : Finished) : String :=
  "saga " ++ debugStr failed.saga ++ " failed in composition " ++ debugStr run.composition.name ++
    ": " ++ failed.outcome.error.getD "unknown"

def record (ctx : CompositionContext) (one : Finished) : CompositionContext :=
  { ctx with
    sagaStepResults := ctx.sagaStepResults.insert one.saga one.stepResults
    sagaResults := ctx.sagaResults.insert one.saga one.outcome
    completedSagas := ctx.completedSagas ++ [one.saga] }

def inspect (run : Compositing) : List Finished → CompositionContext → CompositionContext
  | [], ctx => ctx
  | one :: rest, ctx =>
    let ctx := record ctx one
    if one.completed then run.inspect rest ctx
    else { ctx with error := some (run.failureMessage one) }

def runLayers (run : Compositing) :
    List (List String) → CompositionContext → List Finished → CompositionContext × List Finished
  | [], ctx, finished => (ctx, finished)
  | layer :: rest, ctx, finished =>
    let inputs := layer.map fun name => (name, run.inputOf ctx.sagaStepResults name)
    let ctx := { ctx with
      sagaInputs := inputs.foldl (fun map input => map.insert input.1 input.2) ctx.sagaInputs }
    let results := inputs.map fun input => run.runSaga input.1 input.2
    let ctx := run.inspect results ctx
    if ctx.error.isSome then (ctx, finished ++ results)
    else run.runLayers rest ctx (finished ++ results)

def undoContext (results : Option (Std.TreeMap String Value)) : StepContext :=
  match results with
  | none => {}
  | some results => results.toList.foldl (fun ctx result => ctx.setResult result.1 result.2) {}

def undoOne (run : Compositing) (ctx : CompositionContext) (name : String) : Option Undone :=
  match run.compositor.sagas[name]? with
  | none => none
  | some registered =>
    registered.undo.map fun undo =>
      let stepCtx := undoContext ctx.sagaStepResults[name]?
      ⟨name, stepCtx, undo stepCtx⟩

def rollback (run : Compositing) (ctx : CompositionContext) : CompositionContext × List Undone :=
  let toCompensate := ctx.completedSagas.filter fun name =>
    (ctx.sagaResults[name]?.map fun outcome => decide (outcome.status = .completed)).getD false
  let order := toCompensate.reverse
  ({ ctx with compensatedSagas := order }, order.filterMap (run.undoOne ctx))

def execute (run : Compositing) : Execution :=
  let ctx : CompositionContext :=
    { correlationId := run.correlationId, compositionName := run.composition.name }
  match computeLayers run.composition.deps with
  | .error () =>
    { ctx := { ctx with error := some (CompositionError.cycle run.composition.name).toString }
      finished := [], undone := [] }
  | .ok layers =>
    let (ctx, finished) := run.runLayers layers ctx []
    if ctx.error.isSome then
      let (ctx, undone) := run.rollback ctx
      { ctx, finished, undone }
    else { ctx, finished, undone := [] }

end Compositing

end Firefly.Orchestration
