import Firefly.Shared.Runs

set_option autoImplicit false

-- The main task, the server tasks and what triggers a shutdown take their steps in any order.

namespace Firefly.Lifecycle

open Runs

inductive Outcome where
  | ok
  | err (source : String)
  | forever
deriving DecidableEq, Repr

inductive ServerOutcome where
  | returns (outcome : Outcome)
  | panics
deriving DecidableEq, Repr

structure Server where
  name : String
  outcome : ServerOutcome
deriving DecidableEq, Repr

structure Application where
  starts : List Outcome
  servers : List Server
  stops : List Outcome
  trapSignals : Bool

inductive LifecycleError where
  | cancelled
  | startHook (index : Nat) (source : String)
  | stopHook (index : Nat) (source : String)
  | server (name source : String)
  | drainTimedOut (pending : Nat)
deriving DecidableEq, Repr

inductive RunError where
  | one (error : LifecycleError)
  | joined (errors : List LifecycleError)
deriving DecidableEq, Repr

def join : List LifecycleError → Except RunError Unit
  | [] => .ok ()
  | [error] => .error (.one error)
  | errors => .error (.joined errors)

def flattened : Except RunError Unit → List LifecycleError
  | .ok () => []
  | .error (.one error) => [error]
  | .error (.joined errors) => errors

inductive Trigger where
  | handle
  | signal
  | exit
deriving DecidableEq, Repr

inductive Event where
  | startInvoked (index : Nat)
  | startEnded (index : Nat) (outcome : Outcome)
  | serverEnded (index : Nat) (outcome : ServerOutcome)
  | drainSent (trigger : Trigger)
  | drainEnded
  | stopInvoked (index : Nat)
  | stopEnded (index : Nat) (outcome : Outcome)
  | stopCancelled (index : Nat)
deriving DecidableEq, Repr

/-- Where the main task is. `rest` are the outcomes of the start hooks from `index` on; `left` counts
the stop hooks that have not ended, of which the last is running; `bounded` tells if they have a
deadline. -/
inductive Phase where
  | starting (index : Nat) (rest : List Outcome)
  | blocked
  | draining
  | stopping (bounded : Bool) (left : Nat)
  | returned (result : Except RunError Unit)

/-- `results` is the channel of the server tasks. `log` is no variable of the source: what has
happened, in order. -/
structure State where
  phase : Phase
  running : List Nat
  results : List (String × Outcome)
  finishedServers : Nat
  shutdown : Bool
  signalled : Bool
  elapsed : Bool
  errs : List LifecycleError
  log : List Event

namespace State

def record (s : State) (events : List Event) : State := { s with log := s.log ++ events }

def fail (s : State) (errors : List LifecycleError) : State := { s with errs := s.errs ++ errors }

def enterStops (bounded : Bool) (left : Nat) (s : State) : State :=
  match left with
  | 0 => { s with phase := .returned (join s.errs) }
  | i + 1 => { s with phase := .stopping bounded (i + 1) }.record [.stopInvoked i]

def enterStarts (app : Application) (index : Nat) (rest : List Outcome) (s : State) : State :=
  match rest with
  | [] => { s with phase := .blocked, running := List.range app.servers.length }
  | _ :: _ => { s with phase := .starting index rest }.record [.startInvoked index]

def serverErrors : String × Outcome → List LifecycleError
  | (name, .err source) => [.server name source]
  | _ => []

def receive (s : State) (result : String × Outcome) (rest : List (String × Outcome)) : State :=
  { s with results := rest, finishedServers := s.finishedServers + 1 }.fail (serverErrors result)

def drain (s : State) (trigger : Trigger) : State :=
  { s with phase := .draining, elapsed := false }.record [.drainSent trigger]

end State

def start (app : Application) : State :=
  State.enterStarts app 0 app.starts
    { phase := .blocked, running := [], results := [], finishedServers := 0, shutdown := false
      signalled := false, elapsed := false, errs := [], log := [] }

inductive Choice where
  | startEnds
  | serverEnds (index : Nat)
  | stopEnds
  | shutdown
  | signal
  | deadline
  | select (trigger : Trigger)
  | drain
  | stopElapsed
deriving DecidableEq, Repr

def startEnds (app : Application) (s : State) : Option State :=
  match s.phase with
  | .starting index (.ok :: rest) =>
    some ((s.record [.startEnded index .ok]).enterStarts app (index + 1) rest)
  | .starting index (.err source :: _) =>
    some (((s.record [.startEnded index (.err source)]).fail [.startHook index source]).enterStops false
      app.stops.length)
  | _ => none

-- A task that panics sends nothing. The channel has room for every result.
def serverEnds (app : Application) (index : Nat) (s : State) : Option State :=
  if index ∈ s.running then
    match app.servers[index]? with
    | none => none
    | some server =>
      let s := { s with running := s.running.filter (· ≠ index) }.record [.serverEnded index server.outcome]
      match server.outcome with
      | .returns .forever => none
      | .returns outcome => some { s with results := s.results ++ [(server.name, outcome)] }
      | .panics => some s
  else none

def stopEnds (app : Application) (s : State) : Option State :=
  match s.phase with
  | .stopping bounded (i + 1) =>
    match app.stops[i]? with
    | some .ok => some ((s.record [.stopEnded i .ok]).enterStops bounded i)
    | some (.err source) =>
      some (((s.record [.stopEnded i (.err source)]).fail [.stopHook i source]).enterStops bounded i)
    | _ => none
  | _ => none

def elapsedText : String := "deadline has elapsed"

def stopElapsed (s : State) : Option State :=
  match s.phase with
  | .stopping true (i + 1) =>
    if s.elapsed then
      some (((s.record [.stopCancelled i]).fail [.stopHook i elapsedText]).enterStops true i)
    else none
  | _ => none

def selectBranch (app : Application) (s : State) (trigger : Trigger) : Option State :=
  match s.phase, trigger with
  | .blocked, .handle => if s.shutdown then some ((s.fail [.cancelled]).drain .handle) else none
  | .blocked, .signal => if s.signalled && app.trapSignals then some (s.drain .signal) else none
  | .blocked, .exit =>
    match s.results with
    | [] => none
    | result :: rest => some ((s.receive result rest).drain .exit)
  | _, _ => none

-- The channel is read before the deadline is looked at.
def drainTurn (app : Application) (s : State) : Option State :=
  match s.phase with
  | .draining =>
    if s.finishedServers < app.servers.length then
      match s.results with
      | result :: rest => some (s.receive result rest)
      | [] =>
        if s.elapsed then
          some (((s.record [.drainEnded]).fail
            [.drainTimedOut (app.servers.length - s.finishedServers)]).enterStops true app.stops.length)
        else none
    else some ((s.record [.drainEnded]).enterStops true app.stops.length)
  | _ => none

-- The handlers are installed when the task blocks.
def signal (s : State) : Option State :=
  match s.phase with
  | .blocked => some { s with signalled := true }
  | _ => none

def deadline (s : State) : Option State :=
  match s.phase with
  | .draining => some { s with elapsed := true }
  | .stopping true _ => some { s with elapsed := true }
  | _ => none

def step (app : Application) (s : State) : Choice → Option State
  | .startEnds => startEnds app s
  | .serverEnds index => serverEnds app index s
  | .stopEnds => stopEnds app s
  | .shutdown => some { s with shutdown := true }
  | .signal => signal s
  | .deadline => deadline s
  | .select trigger => selectBranch app s trigger
  | .drain => drainTurn app s
  | .stopElapsed => stopElapsed s

end Firefly.Lifecycle
