import Mathlib

set_option autoImplicit false

namespace Firefly.Transactional

inductive Propagation where
  | required
  | requiresNew
  | nested
  | supports
  | notSupported
  | mandatory
  | never
deriving DecidableEq, Repr

inductive TxError where
  | database (message : String)
  | application (message : String)
deriving DecidableEq, Repr

structure TxOutcome where
  value : Except TxError Unit
  rolledBack : Bool
deriving DecidableEq

structure TransactionManager (σ τ : Type) where
  enter : Propagation → σ → Except TxError τ × σ
  leave : τ → Except TxError TxOutcome → σ → Except TxError TxOutcome × σ

inductive TransactionPhase where
  | beforeCommit
  | afterCommit
  | afterRollback
  | afterCompletion
deriving DecidableEq, Repr

-- An infrastructure error is treated as a rollback.
def completionPhase : Except TxError Bool → TransactionPhase
  | .ok false => .afterCommit
  | .ok true | .error _ => .afterRollback

variable {σ τ : Type}

def TransactionManager.execute (manager : TransactionManager σ τ) (propagation : Propagation)
    (op : σ → Except TxError TxOutcome × σ) (s : σ) : Except TxError TxOutcome × σ :=
  match manager.enter propagation s with
  | (.error error, s) => (.error error, s)
  | (.ok token, s) =>
    let (result, s) := op s
    manager.leave token result s

def outcomeOf (shouldRollback : TxError → Bool) (result : Except TxError Unit) : TxOutcome :=
  { value := result
    rolledBack :=
      match result with
      | .ok () => false
      | .error error => shouldRollback error }

def transactionalWithOn (manager : TransactionManager σ τ) (propagation : Propagation)
    (shouldRollback : TxError → Bool) (f : σ → Except TxError Unit × σ) (s : σ) :
    Except TxError Unit × σ :=
  let op (s : σ) : Except TxError TxOutcome × σ :=
    let (result, s) := f s
    (.ok (outcomeOf shouldRollback result), s)
  match manager.execute propagation op s with
  | (.ok outcome, s) => (outcome.value, s)
  | (.error error, s) => (.error error, s)

/-- A program: a call hands its result to what comes next, which may swallow an error or not. -/
inductive Program where
  | done (result : Except TxError Unit)
  | statement (sql : String) (next : Program)
  | call (propagation : Propagation) (shouldRollback : TxError → Bool) (body : Program)
    (next : Except TxError Unit → Program)

def Program.run (manager : TransactionManager σ τ) (execute : String → σ → σ) :
    Program → σ → Except TxError Unit × σ
  | .done result, s => (result, s)
  | .statement sql next, s => next.run manager execute (execute sql s)
  | .call propagation shouldRollback body next, s =>
    let (result, s) :=
      transactionalWithOn manager propagation shouldRollback (body.run manager execute) s
    (next result).run manager execute s

section Calls

variable {manager : TransactionManager σ τ} {propagation : Propagation}
  {shouldRollback : TxError → Bool} {f : σ → Except TxError Unit × σ} {s s₁ s₃ : σ}

theorem call_of_refused {error : TxError} (refused : manager.enter propagation s = (.error error, s₁)) :
    transactionalWithOn manager propagation shouldRollback f s = (.error error, s₁) := by
  simp [transactionalWithOn, TransactionManager.execute, refused]

theorem call_of_entered {token : τ} (entered : manager.enter propagation s = (.ok token, s₁))
    (left : manager.leave token (.ok (outcomeOf shouldRollback (f s₁).1)) (f s₁).2 =
      (.ok (outcomeOf shouldRollback (f s₁).1), s₃)) :
    transactionalWithOn manager propagation shouldRollback f s = ((f s₁).1, s₃) := by
  simp only [transactionalWithOn, TransactionManager.execute, entered, left]
  rfl

end Calls

def Program.Along (manager : TransactionManager σ τ) (execute : String → σ → σ)
    (starts : Propagation → σ → Prop) (ends : τ → TxOutcome → σ → Prop) : Program → σ → Prop
  | .done _, _ => True
  | .statement sql next, s => next.Along manager execute starts ends (execute sql s)
  | .call propagation shouldRollback body next, s =>
    starts propagation s ∧
      (∀ token s₁, manager.enter propagation s = (.ok token, s₁) →
        body.Along manager execute starts ends s₁ ∧
          ends token (outcomeOf shouldRollback (body.run manager execute s₁).1)
            (body.run manager execute s₁).2) ∧
      (next (transactionalWithOn manager propagation shouldRollback
          (body.run manager execute) s).1).Along manager execute starts ends
        (transactionalWithOn manager propagation shouldRollback (body.run manager execute) s).2

end Firefly.Transactional
