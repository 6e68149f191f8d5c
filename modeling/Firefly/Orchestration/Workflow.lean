import Firefly.Shared.Runs
import Firefly.Orchestration.Saga

set_option autoImplicit false

namespace Firefly.Orchestration

open Text Runs

/-- What a body, a compensation hook and a condition return is up to the environment, so a node
only records which of them it declares. -/
structure Node where
  name : String
  dependsOn : List String := []
  compensatable : Bool := false
  condition : Option String := none
  fireAndForget : Bool := false
deriving DecidableEq

structure Workflow where
  name : String
  nodes : List Node := []
  policy : CompensationPolicy := .bestEffort

inductive WorkflowError where
  | duplicateNode (workflow node : String)
  | unknownDependency (workflow node dependency : String)
  | noProgress (workflow : String)
  | node (node : String) (source : BoxError)
  | cancelled
  | multiple (errors : List WorkflowError)

namespace WorkflowError

def toString : WorkflowError → String
  | duplicateNode workflow name =>
    "workflow " ++ debugStr workflow ++ ": duplicate node " ++ debugStr name
  | unknownDependency workflow name dependency =>
    "workflow " ++ debugStr workflow ++ ": node " ++ debugStr name ++ " depends on unknown " ++
      debugStr dependency
  | noProgress workflow =>
    "workflow " ++ debugStr workflow ++ ": no progress (dependency cycle?)"
  | node name source => "node " ++ debugStr name ++ ": " ++ source
  | cancelled => "workflow cancelled"
  | multiple errors => "\n".intercalate (errors.map toString)

def join : List WorkflowError → WorkflowError
  | [error] => error
  | errors => multiple errors

end WorkflowError

namespace Workflow

abbrev size (wf : Workflow) : Nat := wf.nodes.length

def nodeAt (wf : Workflow) (i : Fin wf.size) : Node := wf.nodes.get i

def nameOf (wf : Workflow) (i : Fin wf.size) : String := (wf.nodeAt i).name

def nodeNames (wf : Workflow) : List String := wf.nodes.map Node.name

def findNode (wf : Workflow) (name : String) : Option (Fin wf.size) :=
  (List.finRange wf.size).find? fun i => wf.nameOf i = name

def graph (wf : Workflow) : Graph :=
  wf.nodes.foldl (fun graph node => graph.insert node.name node.dependsOn) ∅

def firstDuplicate : List String → List Node → Option String
  | _, [] => none
  | names, node :: rest =>
    if node.name ∈ names then some node.name else firstDuplicate (node.name :: names) rest

def firstUnknown (names : List String) : List Node → Option (String × String)
  | [] => none
  | node :: rest =>
    match node.dependsOn.find? (· ∉ names) with
    | some dependency => some (node.name, dependency)
    | none => firstUnknown names rest

def definitionError (wf : Workflow) : Option WorkflowError :=
  match firstDuplicate [] wf.nodes with
  | some node => some (.duplicateNode wf.name node)
  | none =>
    match firstUnknown wf.nodeNames wf.nodes with
    | some (node, dependency) => some (.unknownDependency wf.name node dependency)
    | none => none

inductive Progress where
  | waiting
  | admitted
  | running
  | ended (result : Except BoxError Unit)
  | settled (result : Except WorkflowError Unit)

inductive Phase (n : Nat) where
  | head (pending : List (Fin n))
  | scheduling (ready blocking stillPending : List (Fin n))
  | wave (members : List (Fin n)) (progress : Fin n → Progress) (stillPending : List (Fin n))
  | compensating (order : List String) (failure : WorkflowError) (joins : Bool)
  | joining (result : Except WorkflowError Unit)
  | returned (result : Except WorkflowError Unit)

inductive Event (n : Nat) where
  | skipped (i : Fin n)
  | spawned (i : Fin n)
  | bodyStarted (i : Fin n)
  | bodyEnded (i : Fin n) (result : Except BoxError Unit)
  | completed (i : Fin n)
  | failed (i : Fin n)
  | compensated (i : Fin n) (result : Except BoxError Unit)
  | taskEnded (i : Fin n)
  | tokenCancelled
deriving DecidableEq

structure State (n : Nat) where
  phase : Phase n
  done : List String := []
  completedOrder : List String := []
  internal : Bool := false
  token : Bool := false
  tasks : List (Fin n) := []
  trace : List (Event n) := []

inductive Choice (n : Nat) where
  | checkPending
  | schedule (holds : Bool)
  | launch
  | poll (i : Fin n) (holds : Bool)
  | start (i : Fin n)
  | finish (i : Fin n) (result : Except BoxError Unit)
  | settle (i : Fin n)
  | gather
  | compensate (result : Except BoxError Unit)
  | joinAsync
  | endTask (i : Fin n)
  | cancelToken

def conditionHolds (wf : Workflow) (i : Fin wf.size) (holds : Bool) : Bool :=
  match (wf.nodeAt i).condition with
  | none => true
  | some _ => holds

def isReady (wf : Workflow) (done : List String) (i : Fin wf.size) : Bool :=
  (wf.nodeAt i).dependsOn.all fun dep => dep ∈ done

def Progress.isSettled : Progress → Bool
  | .settled _ => true
  | _ => false

def Progress.error? : Progress → Option WorkflowError
  | .settled (.error err) => some err
  | _ => none

def Progress.succeeded : Progress → Bool
  | .settled (.ok ()) => true
  | _ => false

def State.record {n : Nat} (s : State n) (event : Event n) : State n :=
  { s with trace := s.trace ++ [event] }

def State.goto {n : Nat} (s : State n) (phase : Phase n) : State n := { s with phase := phase }

def rollback {n : Nat} (s : State n) (failure : WorkflowError) (joins : Bool) : State n :=
  s.goto (.compensating s.completedOrder.reverse failure joins)

def stepCheckPending (wf : Workflow) (s : State wf.size) : Option (State wf.size) :=
  match s.phase with
  | .head [] => some (s.goto (.joining (.ok ())))
  | .head pending =>
    let (ready, stillPending) := pending.partition (wf.isReady s.done)
    if ready = [] then some (rollback s (.noProgress wf.name) false)
    else some (s.goto (.scheduling ready [] stillPending))
  | _ => none

def stepSchedule (wf : Workflow) (s : State wf.size) (holds : Bool) : Option (State wf.size) :=
  match s.phase with
  | .scheduling (i :: ready) blocking stillPending =>
    if (wf.nodeAt i).fireAndForget then
      let s := { s with done := wf.nameOf i :: s.done }.goto (.scheduling ready blocking stillPending)
      if wf.conditionHolds i holds then some ({ s with tasks := i :: s.tasks }.record (.spawned i))
      else some (s.record (.skipped i))
    else some (s.goto (.scheduling ready (blocking ++ [i]) stillPending))
  | _ => none

def stepLaunch {n : Nat} (s : State n) : Option (State n) :=
  match s.phase with
  | .scheduling [] blocking stillPending =>
    some (s.goto (.wave blocking (fun _ => .waiting) stillPending))
  | _ => none

def stepPoll (wf : Workflow) (s : State wf.size) (i : Fin wf.size) (holds : Bool) :
    Option (State wf.size) :=
  match s.phase with
  | .wave members progress stillPending =>
    match progress i with
    | .waiting =>
      let move := fun next => s.goto (.wave members (Function.update progress i next) stillPending)
      if i ∉ members then none
      else if s.token || s.internal then some (move (.settled (.error .cancelled)))
      else if wf.conditionHolds i holds then some (move .admitted)
      else some ((move (.settled (.ok ()))).record (.skipped i))
    | _ => none
  | _ => none

def stepStart {n : Nat} (s : State n) (i : Fin n) : Option (State n) :=
  match s.phase with
  | .wave members progress stillPending =>
    match progress i with
    | .admitted =>
      some ((s.goto (.wave members (Function.update progress i .running) stillPending)).record
        (.bodyStarted i))
    | _ => none
  | _ => none

def stepFinish {n : Nat} (s : State n) (i : Fin n) (result : Except BoxError Unit) :
    Option (State n) :=
  match s.phase with
  | .wave members progress stillPending =>
    match progress i with
    | .running =>
      some ((s.goto (.wave members (Function.update progress i (.ended result)) stillPending)).record
        (.bodyEnded i result))
    | _ => none
  | _ => none

def stepSettle (wf : Workflow) (s : State wf.size) (i : Fin wf.size) : Option (State wf.size) :=
  match s.phase with
  | .wave members progress stillPending =>
    let move := fun result =>
      Phase.wave members (Function.update progress i (.settled result)) stillPending
    match progress i with
    | .ended (.ok ()) =>
      let log := if (wf.nodeAt i).compensatable then [wf.nameOf i] else []
      some (({ s with completedOrder := s.completedOrder ++ log }.goto (move (.ok ()))).record
        (.completed i))
    | .ended (.error source) =>
      some (({ s with internal := true }.goto (move (.error (.node (wf.nameOf i) source)))).record
        (.failed i))
    | _ => none
  | _ => none

def stepGather (wf : Workflow) (s : State wf.size) : Option (State wf.size) :=
  match s.phase with
  | .wave members progress stillPending =>
    if members.all fun i => (progress i).isSettled then
      let finished := members.filter fun i => (progress i).succeeded
      let s := { s with done := s.done ++ finished.map wf.nameOf }
      match members.filterMap fun i => (progress i).error? with
      | [] => some (s.goto (.head stillPending))
      | errors => some (rollback s (.join errors) true)
    else none
  | _ => none

def stepCompensate (wf : Workflow) (s : State wf.size) (result : Except BoxError Unit) :
    Option (State wf.size) :=
  match s.phase with
  | .compensating order failure joins =>
    let leave := if joins then .joining (.error failure) else .returned (.error failure)
    match order with
    | [] => some (s.goto leave)
    | name :: rest =>
      match wf.findNode name with
      | none => some (s.goto (.compensating rest failure joins))
      | some i =>
        if (wf.nodeAt i).compensatable then
          let s := s.record (.compensated i result)
          match result with
          | .ok () => some (s.goto (.compensating rest failure joins))
          | .error _ =>
            if wf.policy = .stopOnError then some (s.goto leave)
            else some (s.goto (.compensating rest failure joins))
        else some (s.goto (.compensating rest failure joins))
  | _ => none

def stepJoinAsync {n : Nat} (s : State n) : Option (State n) :=
  match s.phase with
  | .joining result => if s.tasks = [] then some (s.goto (.returned result)) else none
  | _ => none

def step (wf : Workflow) (s : State wf.size) : Choice wf.size → Option (State wf.size)
  | .checkPending => wf.stepCheckPending s
  | .schedule holds => wf.stepSchedule s holds
  | .launch => stepLaunch s
  | .poll i holds => wf.stepPoll s i holds
  | .start i => stepStart s i
  | .finish i result => stepFinish s i result
  | .settle i => wf.stepSettle s i
  | .gather => wf.stepGather s
  | .compensate result => wf.stepCompensate s result
  | .joinAsync => stepJoinAsync s
  | .endTask i =>
    if i ∈ s.tasks then some ({ s with tasks := s.tasks.erase i }.record (.taskEnded i)) else none
  | .cancelToken => some ({ s with token := true }.record .tokenCancelled)

def init (wf : Workflow) : State wf.size :=
  match wf.definitionError with
  | some error => { phase := .returned (.error error) }
  | none => { phase := .head (List.finRange wf.size) }

def runInner (wf : Workflow) (choices : List (Choice wf.size)) : Option (State wf.size) :=
  run wf.step wf.init choices

end Workflow

end Firefly.Orchestration
