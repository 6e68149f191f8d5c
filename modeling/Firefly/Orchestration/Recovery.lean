import Firefly.Shared.Runs
import Firefly.Orchestration.Persistence

set_option autoImplicit false

-- Any number of `recover_stale` passes share one store and one clock. A pass is a small state
-- machine whose steps are the points between which others may run: taking the cutoff, `list_stale`,
-- `claim_stale`, the start and the end of a handler, `save`. Instants are nanoseconds.

namespace Firefly.Orchestration

open Runs

inductive RecoveryAction where
  | markFailed | resume | compensate | skip
deriving DecidableEq, Repr

inductive RecoveryHandler where
  | resume | compensate
deriving DecidableEq, Repr

structure RecoveryService where
  decider : Option (ExecutionState Int → RecoveryAction) := none
  resume : Bool := false
  compensate : Bool := false

def RecoveryService.decide (service : RecoveryService) (candidate : ExecutionState Int) :
    RecoveryAction :=
  service.decider.elim .markFailed fun decider => decider candidate

def RecoveryService.installed (service : RecoveryService) : RecoveryHandler → Bool
  | .resume => service.resume
  | .compensate => service.compensate

namespace RecoveryHandler

def claimStatus : RecoveryHandler → ExecutionStatus
  | resume => .running
  | compensate => .compensating

def missing : RecoveryHandler → BoxError
  | resume => "no resume handler installed"
  | compensate => "no compensate handler installed"

def status : RecoveryHandler → Except BoxError Unit → ExecutionStatus
  | resume, .ok () => .completed
  | compensate, .ok () => .compensated
  | _, .error _ => .failed

end RecoveryHandler

namespace Recovery

inductive Stage where
  | scanning
  | claimed (handler : RecoveryHandler) (state : ExecutionState Int)
  | running (handler : RecoveryHandler) (state : ExecutionState Int)
  | returned (handler : RecoveryHandler) (state : ExecutionState Int)
      (outcome : Except BoxError Unit)

inductive Phase where
  | idle
  | begun (cutoff : Int)
  | looping (cutoff : Int) (candidates : List (ExecutionState Int)) (recovered : Nat)
      (stage : Stage)
  | finished (recovered : Nat)

structure State where
  now : Int
  memory : MemoryPersistence Int
  passes : Nat → Phase
  -- The claims won so far, as pass and correlation id.
  claims : List (Nat × String)
  -- The increments of `recovered` so far, as pass and correlation id.
  counted : List (Nat × String)

inductive Choice where
  | tick (elapsed : Nat)
  | begin (pass : Nat)
  | list (pass : Nat) (scan : Iteration (ExecutionState Int))
  | next (pass : Nat)
  | start (pass : Nat)
  | finish (pass : Nat) (outcome : Except BoxError Unit)
  | save (pass : Nat)

end Recovery

structure Recovery where
  staleThreshold : Nat
  services : Nat → RecoveryService

namespace Recovery

def State.setPass (s : State) (pass : Nat) (phase : Phase) : State :=
  { s with passes := Function.update s.passes pass phase }

def claim (s : State) (pass : Nat) (cutoff : Int) (candidate : ExecutionState Int)
    (status : ExecutionStatus) : Option (ExecutionState Int) × State :=
  let (won, memory) := s.memory.claimStale candidate.correlationId cutoff status s.now
  (won, { s with
    memory := memory
    claims := s.claims ++ (won.map fun state => (pass, state.correlationId)).toList })

def State.count (s : State) (pass : Nat) (correlationId : String) : State :=
  { s with counted := s.counted ++ [(pass, correlationId)] }

def next (recovery : Recovery) (s : State) (pass : Nat) (cutoff : Int)
    (candidates : List (ExecutionState Int)) (recovered : Nat) : State :=
  match candidates with
  | [] => s.setPass pass (.finished recovered)
  | candidate :: rest =>
    let claimFor (handler : RecoveryHandler) : State :=
      match claim s pass cutoff candidate handler.claimStatus with
      | (none, s) => s.setPass pass (.looping cutoff rest recovered .scanning)
      | (some state, s) => s.setPass pass (.looping cutoff rest recovered (.claimed handler state))
    match (recovery.services pass).decide candidate with
    | .skip => s.setPass pass (.looping cutoff rest recovered .scanning)
    | .markFailed =>
      match claim s pass cutoff candidate .failed with
      | (none, s) => s.setPass pass (.looping cutoff rest recovered .scanning)
      | (some state, s) =>
        (s.count pass state.correlationId).setPass pass (.looping cutoff rest (recovered + 1) .scanning)
    | .resume => claimFor .resume
    | .compensate => claimFor .compensate

def step (recovery : Recovery) (s : State) : Choice → Option State
  | .tick elapsed => some { s with now := s.now + elapsed }
  | .begin pass =>
    match s.passes pass with
    | .idle => some (s.setPass pass (.begun (s.now - recovery.staleThreshold)))
    | _ => none
  | .list pass scan =>
    match s.passes pass with
    | .begun cutoff =>
      some (s.setPass pass (.looping cutoff (s.memory.listStale cutoff scan) 0 .scanning))
    | _ => none
  | .next pass =>
    match s.passes pass with
    | .looping cutoff candidates recovered .scanning =>
      some (recovery.next s pass cutoff candidates recovered)
    | _ => none
  | .start pass =>
    match s.passes pass with
    | .looping cutoff candidates recovered (.claimed handler state) =>
      let stage := if (recovery.services pass).installed handler then Stage.running handler state
        else .returned handler state (.error handler.missing)
      some (s.setPass pass (.looping cutoff candidates recovered stage))
    | _ => none
  | .finish pass outcome =>
    match s.passes pass with
    | .looping cutoff candidates recovered (.running handler state) =>
      some (s.setPass pass (.looping cutoff candidates recovered (.returned handler state outcome)))
    | _ => none
  | .save pass =>
    match s.passes pass with
    | .looping cutoff candidates recovered (.returned handler state outcome) =>
      let state := state.transition s.now (handler.status outcome)
      let saved := { s with memory := s.memory.save state }
      some ((saved.count pass state.correlationId).setPass pass
        (.looping cutoff candidates (recovered + 1) .scanning))
    | _ => none

def init (now : Int) (memory : MemoryPersistence Int) : State where
  now := now
  memory := memory
  passes _ := .idle
  claims := []
  counted := []

def State.handling (s : State) (pass : Nat) : Option String :=
  match s.passes pass with
  | .looping _ _ _ (.running _ state) => some state.correlationId
  | _ => none

def Exclusive (s : State) : Prop :=
  ∀ first second execution, s.handling first = some execution →
    s.handling second = some execution → first = second

def times (log : List (Nat × String)) (execution : String) : Nat :=
  (log.filter fun entry => entry.2 = execution).length

def CountsClaims (s : State) : Prop :=
  ∀ execution, times s.counted execution ≤ times s.claims execution

def State.recovered (s : State) (pass : Nat) : Nat :=
  match s.passes pass with
  | .looping _ _ recovered _ | .finished recovered => recovered
  | _ => 0

def CountsTrue (s : State) : Prop :=
  ∀ pass, s.recovered pass = (s.counted.filter fun entry => entry.1 = pass).length

end Recovery

end Firefly.Orchestration
