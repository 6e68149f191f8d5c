import Firefly.Shared.Runs

set_option autoImplicit false

namespace Firefly.Resilience

inductive CircuitState where
  | closed | opened | halfOpen
deriving DecidableEq, Repr

def CircuitState.toString : CircuitState → String
  | .closed => "closed"
  | .opened => "open"
  | .halfOpen => "half-open"

structure CircuitConfig where
  failureThreshold : Nat := 5
  window : Nat := 1000000000
  openDuration : Nat := 30000000000
  -- The floating-point test `failed / len >= rate` of the configured rate.
  failureRateThreshold : Option (Nat → Nat → Bool) := none
  windowSize : Nat := 10
  halfOpenMaxCalls : Nat := 1

structure BreakerInner where
  state : CircuitState := .closed
  failures : List Nat := []
  openedAt : Option Nat := none
  outcomes : List Bool := []
  halfOpenCalls : Nat := 0
  halfOpenSuccesses : Nat := 0
deriving DecidableEq

structure CircuitBreaker where
  failureThreshold : Nat
  window : Nat
  openDuration : Nat
  failureRateThreshold : Option (Nat → Nat → Bool)
  windowSize : Nat
  halfOpenMaxCalls : Nat
  hasProbe : 0 < halfOpenMaxCalls

namespace CircuitBreaker

def new (cfg : CircuitConfig) : CircuitBreaker where
  failureThreshold := if cfg.failureThreshold = 0 then 5 else cfg.failureThreshold
  window := cfg.window
  openDuration := if cfg.openDuration = 0 then 30000000000 else cfg.openDuration
  failureRateThreshold := cfg.failureRateThreshold
  windowSize := if cfg.windowSize = 0 then 10 else cfg.windowSize
  halfOpenMaxCalls := max cfg.halfOpenMaxCalls 1
  hasProbe := by omega

-- The gate of `before_call`. There is no result when the lookup of `opened_at` panics.
def allow (cb : CircuitBreaker) (now : Nat) (inner : BreakerInner) : Option (Bool × BreakerInner) :=
  let gate (inner : BreakerInner) : Bool × BreakerInner :=
    match inner.state with
    | .closed => (true, inner)
    | .opened => (false, inner)
    | .halfOpen =>
      if inner.halfOpenCalls < cb.halfOpenMaxCalls then
        (true, { inner with halfOpenCalls := inner.halfOpenCalls + 1 })
      else (false, inner)
  if inner.state = .opened then
    inner.openedAt.map fun openedAt =>
      -- `duration_since` saturates at zero
      if now - openedAt ≥ cb.openDuration then
        gate { inner with state := .halfOpen, halfOpenCalls := 0, halfOpenSuccesses := 0 }
      else gate inner
  else some (gate inner)

def tripped (cb : CircuitBreaker) (inner : BreakerInner) : Bool :=
  match cb.failureRateThreshold with
  | some reaches =>
    if inner.outcomes.length < cb.windowSize then false
    else reaches (inner.outcomes.filter (!·)).length inner.outcomes.length
  | none => cb.failureThreshold ≤ inner.failures.length

def pushOutcome (cb : CircuitBreaker) (failed : Bool) (outcomes : List Bool) : List Bool :=
  (if outcomes.length = cb.windowSize then outcomes.drop 1 else outcomes) ++ [!failed]

def pushFailure (cb : CircuitBreaker) (now : Nat) (failures : List Nat) : List Nat :=
  if cb.failureRateThreshold.isSome then failures
  else if cb.window = 0 ∨ now < cb.window then failures ++ [now]
  else (failures ++ [now]).filter (now - cb.window ≤ ·)

def record (cb : CircuitBreaker) (now : Nat) (failed : Bool) (inner : BreakerInner) : BreakerInner :=
  let inner := { inner with outcomes := cb.pushOutcome failed inner.outcomes }
  if failed then
    if inner.state = .halfOpen then
      { inner with
        state := .opened
        openedAt := some now
        failures := []
        halfOpenCalls := 0
        halfOpenSuccesses := 0 }
    else
      let inner := { inner with failures := cb.pushFailure now inner.failures }
      if cb.tripped inner then { inner with state := .opened, openedAt := some now, failures := [] }
      else inner
  else if inner.state = .halfOpen then
    let inner := { inner with halfOpenSuccesses := inner.halfOpenSuccesses + 1 }
    if cb.halfOpenMaxCalls ≤ inner.halfOpenSuccesses then
      { inner with
        state := .closed
        failures := []
        outcomes := []
        halfOpenCalls := 0
        halfOpenSuccesses := 0 }
    else inner
  else if cb.window = 0 then { inner with failures := [] }
  else inner

inductive CallStatus where
  | idle | rejected | running | finished | dropped
deriving DecidableEq, Repr

inductive Event where
  | admitted (call : Nat)
  | reported (call : Nat) (failed : Bool)
deriving DecidableEq, Repr

structure State where
  now : Nat := 0
  inner : BreakerInner := {}
  calls : Nat → CallStatus := fun _ => .idle
  -- What happened since the state of the breaker last changed.
  phase : List Event := []

inductive Choice where
  | tick (elapsed : Nat)
  | before (call : Nat)
  | finish (call : Nat) (failed : Bool)
  | drop (call : Nat)
deriving DecidableEq

def State.setCall (s : State) (call : Nat) (status : CallStatus) : State :=
  { s with calls := Function.update s.calls call status }

def State.advance (s : State) (inner : BreakerInner) (events : List Event) : State :=
  { s with
    inner := inner
    phase := if inner.state = s.inner.state then s.phase ++ events else events }

-- Every future of `execute`, or pair of manual calls, is a call; its future may be dropped while it
-- runs. The events of the call that changes the state belong to the phase it opens only when it is
-- admitted there.
def step (cb : CircuitBreaker) (s : State) : Choice → Option State
  | .tick elapsed => some { s with now := s.now + elapsed }
  | .before call =>
    if s.calls call = .idle then
      match cb.allow s.now s.inner with
      | none => none
      | some (true, inner) =>
        some ((s.advance inner [.admitted call]).setCall call .running)
      | some (false, inner) => some ((s.advance inner []).setCall call .rejected)
    else none
  | .finish call failed =>
    if s.calls call = .running then
      let inner := cb.record s.now failed s.inner
      let events := if inner.state = s.inner.state then [Event.reported call failed] else []
      some ((s.advance inner events).setCall call .finished)
    else none
  | .drop call => if s.calls call = .running then some (s.setCall call .dropped) else none

end CircuitBreaker

end Firefly.Resilience
