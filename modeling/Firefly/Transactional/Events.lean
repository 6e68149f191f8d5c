import Firefly.Transactional.Manager

set_option autoImplicit false

namespace Firefly.Transactional.Events

inductive Program (ε : Type) where
  | done (result : Except TxError Unit)
  | statement (sql : String) (next : Program ε)
  | publish (event : ε) (next : Program ε)
  | call (propagation : Propagation) (shouldRollback : TxError → Bool) (body : Program ε)
    (next : Except TxError Unit → Program ε)

structure Listener (ε : Type) where
  phase : Option TransactionPhase
  dispatcher : Program ε

structure BufferedEvent (ε : Type) where
  number : Nat
  event : ε

inductive Note (ε : Type) where
  | published (buffered : BufferedEvent ε) (scope tx : Nat) (passed : List TransactionPhase)
    (within : List Nat)
  | dispatched (scope : Nat) (phase : TransactionPhase)
  | delivered (number listener : Nat) (phase : TransactionPhase)
  | ended (call : Nat) (failed : Bool) (report : Except TxError Bool)

structure Scope (ε : Type) where
  call : Nat
  events : List (BufferedEvent ε) := []
  passed : List TransactionPhase := []

structure World (ε σ : Type) where
  session : σ
  buffer : Option (Scope ε) := none
  owning : List Nat := []
  within : List Nat := []
  calls : Nat := 0
  numbers : Nat := 0
  log : List (Note ε) := []

inductive Standing where
  | own
  | savepoint
  | joined
  | suspended
deriving DecidableEq, Repr

-- The calls whose rollback undoes what is done now.
def Standing.within (call : Nat) (around : List Nat) : Standing → List Nat
  | .own => [call]
  | .savepoint => call :: around
  | .joined => around
  | .suspended => []

structure Setting (ε σ τ : Type) where
  listeners : ε → List (Listener ε)
  manager : TransactionManager σ τ
  standing : τ → Standing
  execute : String → σ → σ

variable {ε σ τ : Type}

def Setting.owns (setting : Setting ε σ τ) (token : τ) : Bool :=
  setting.standing token = .own

def World.record (w : World ε σ) (note : Note ε) : World ε σ :=
  { w with log := w.log ++ [note] }

def toRun (listeners : ε → List (Listener ε)) (phase : TransactionPhase)
    (events : List (BufferedEvent ε)) : List (Nat × Nat × Listener ε) :=
  events.flatMap fun buffered =>
    (((listeners buffered.event).zipIdx.filter fun entry => entry.1.phase = some phase).map
      fun entry => (buffered.number, entry.2, entry.1))

-- Without a transaction the listeners run as if it had committed.
def fallsBack (listener : Listener ε) : Bool :=
  match listener.phase with
  | some .beforeCommit | some .afterCommit | some .afterCompletion => true
  | some .afterRollback | none => false

section Dispatch

variable (setting : Setting ε σ τ) (dispatch : Listener ε → World ε σ → Option (World ε σ))

def publishEvent (event : ε) (w : World ε σ) : Option (World ε σ) := do
  let listeners := setting.listeners event
  let w ← (listeners.filter (·.phase.isNone)).foldlM (fun w listener => dispatch listener w) w
  if listeners.any (·.phase.isSome) then
    match w.buffer with
    | some scope =>
      let buffered : BufferedEvent ε := { number := w.numbers, event }
      let tx := w.owning.head?.getD scope.call
      return World.record
        { w with
          buffer := some { scope with events := scope.events ++ [buffered] }
          numbers := w.numbers + 1 } (.published buffered scope.call tx scope.passed w.within)
    | none => (listeners.filter fallsBack).foldlM (fun w listener => dispatch listener w) w
  else return w

def deliver (phase : TransactionPhase) (w : World ε σ) (entry : Nat × Nat × Listener ε) :
    Option (World ε σ) :=
  dispatch entry.2.2 (w.record (.delivered entry.1 entry.2.1 phase))

-- The events are those in the buffer now, not those that the listeners add.
def dispatchPhase (phase : TransactionPhase) (w : World ε σ) : Option (World ε σ) :=
  match w.buffer with
  | none => some w
  | some scope =>
    (toRun setting.listeners phase scope.events).foldlM (deliver dispatch phase)
      (World.record { w with buffer := some { scope with passed := scope.passed ++ [phase] } }
        (.dispatched scope.call phase))

structure Executed (ε σ : Type) where
  failed : Bool
  answer : Except TxError TxOutcome
  after : World ε σ

def execute (propagation : Propagation) (shouldRollback : TxError → Bool) (ownsScope : Bool)
    (call : Nat) (f : World ε σ → Option (Except TxError Unit × World ε σ)) (w : World ε σ) :
    Option (Executed ε σ) :=
  match setting.manager.enter propagation w.session with
  | (.error error, session) =>
    some { failed := true, answer := .error error, after := { w with session } }
  | (.ok token, session) => do
    let owning := if setting.owns token then call :: w.owning else w.owning
    let within := (setting.standing token).within call w.within
    let (result, inside) ← f { w with session, owning, within }
    let outcome := outcomeOf shouldRollback result
    let inside ←
      if ownsScope && !outcome.rolledBack then dispatchPhase setting dispatch .beforeCommit inside
      else some inside
    let (answer, session) := setting.manager.leave token (.ok outcome) inside.session
    return {
      failed := outcome.rolledBack
      answer
      after := { inside with session, owning := w.owning, within := w.within } }

def valueOf : Except TxError TxOutcome → Except TxError Unit
  | .ok outcome => outcome.value
  | .error error => .error error

def transactionalWithOn (propagation : Propagation) (shouldRollback : TxError → Bool)
    (f : World ε σ → Option (Except TxError Unit × World ε σ)) (w : World ε σ) :
    Option (Except TxError Unit × World ε σ) := do
  let ownsScope := w.buffer.isNone
  let call := w.calls
  let buffer := if ownsScope then some { call } else w.buffer
  let executed ← execute setting dispatch propagation shouldRollback ownsScope call f
    { w with calls := call + 1, buffer }
  let report := executed.answer.map (·.rolledBack)
  let w := executed.after.record (.ended call executed.failed report)
  if ownsScope then
    let w ← dispatchPhase setting dispatch (completionPhase report) w
    let w ← dispatchPhase setting dispatch .afterCompletion w
    return (valueOf executed.answer, { w with buffer := none })
  else return (valueOf executed.answer, w)

def Program.runWith : Program ε → World ε σ → Option (Except TxError Unit × World ε σ)
  | .done result, w => some (result, w)
  | .statement sql next, w => next.runWith { w with session := setting.execute sql w.session }
  | .publish event next, w => do
    let w ← publishEvent setting dispatch event w
    next.runWith w
  | .call propagation shouldRollback body next, w => do
    let (result, w) ←
      transactionalWithOn setting dispatch propagation shouldRollback body.runWith w
    (next result).runWith w

end Dispatch

def dispatchAt (setting : Setting ε σ τ) : Nat → Listener ε → World ε σ → Option (World ε σ)
  | 0, _, _ => none
  | depth + 1, listener, w =>
    (listener.dispatcher.runWith setting (dispatchAt setting depth) w).map (·.2)

def run (setting : Setting ε σ τ) (depth : Nat) (program : Program ε) (w : World ε σ) :
    Option (Except TxError Unit × World ε σ) :=
  program.runWith setting (dispatchAt setting depth) w

end Firefly.Transactional.Events
