import Firefly.Shared.Text
import Firefly.Orchestration.Model

set_option autoImplicit false

namespace Firefly.Orchestration

open Text

/-- What one call of a user closure does: the result it resolves to, and whether it is still running
when a per-attempt deadline fires. -/
structure Attempt where
  result : Except BoxError Unit
  late : Bool := false
deriving DecidableEq

-- User code acts on the shared state `σ` (the step context and the world behind it). Both the plain
-- and the context-aware closures of the source are of this shape.
abbrev Action (σ : Type) := σ → Attempt × σ

inductive AttemptError where
  | failed (source : BoxError)
  | timedOut
deriving DecidableEq

inductive StepInvokeError where
  | failed (step : String) (attempts : Nat) (source : BoxError)
  | timedOut (step : String) (timeoutMs attempts : Nat)
deriving DecidableEq

namespace StepInvokeError

def attempts : StepInvokeError → Nat
  | failed _ attempts _ => attempts
  | timedOut _ _ attempts => attempts

def intoSource : StepInvokeError → Option BoxError
  | failed _ _ source => some source
  | timedOut .. => none

def toString : StepInvokeError → String
  | failed step attempts source =>
    "step " ++ debugStr step ++ " failed after " ++ Nat.repr attempts ++ " attempt(s): " ++ source
  | timedOut step timeoutMs attempts =>
    "step " ++ debugStr step ++ " timed out after " ++ Nat.repr timeoutMs ++ "ms on " ++
      Nat.repr attempts ++ " attempt(s)"

end StepInvokeError

variable {σ : Type}

def runAttempt (timeoutMs : Nat) (action : Action σ) (ctx : σ) : Except AttemptError Unit × σ :=
  let (attempt, ctx) := action ctx
  if timeoutMs ≠ 0 ∧ attempt.late then (.error .timedOut, ctx)
  else
    match attempt.result with
    | .ok () => (.ok (), ctx)
    | .error source => (.error (.failed source), ctx)

structure Invocation (σ : Type) where
  calls : List (Except AttemptError Unit)
  last : Except AttemptError Unit
  ctx : σ

-- `more` counts the attempts left after the current one.
def attemptLoop (timeoutMs : Nat) (action : Action σ) : Nat → σ → Invocation σ
  | more, ctx =>
    match runAttempt timeoutMs action ctx with
    | (.ok (), ctx) => ⟨[.ok ()], .ok (), ctx⟩
    | (.error err, ctx) =>
      match more with
      | 0 => ⟨[.error err], .error err, ctx⟩
      | more + 1 =>
        let rest := attemptLoop timeoutMs action more ctx
        { rest with calls := .error err :: rest.calls }

def Invocation.outcome (invocation : Invocation σ) (step : String) (policy : RetryPolicy) :
    Except StepInvokeError Unit :=
  match invocation.last with
  | .ok () => .ok ()
  | .error .timedOut => .error (.timedOut step policy.timeoutMs policy.attempts)
  | .error (.failed source) => .error (.failed step policy.attempts source)

def invokeWithPolicy (policy : RetryPolicy) (action : Action σ) (ctx : σ) : Invocation σ :=
  attemptLoop policy.timeoutMs action (policy.attempts - 1) ctx

structure Invocation.WellFormed (invocation : Invocation σ) (attempts : Nat) : Prop where
  shape : ∃ failures : List AttemptError,
    (invocation.last = .ok () ∧ invocation.calls = failures.map .error ++ [.ok ()] ∧
      failures.length < attempts) ∨
    (∃ err, invocation.last = .error err ∧ invocation.calls = (failures ++ [err]).map .error ∧
      failures.length + 1 = attempts)

theorem Invocation.WellFormed.length {invocation : Invocation σ} {attempts : Nat}
    (formed : invocation.WellFormed attempts) :
    1 ≤ invocation.calls.length ∧ invocation.calls.length ≤ attempts := by
  obtain ⟨failures, ⟨-, calls, bound⟩ | ⟨err, -, calls, bound⟩⟩ := formed.shape
  · simp [calls]
    omega
  · simp [calls]
    omega

theorem attemptLoop_wellFormed (timeoutMs : Nat) (action : Action σ) (more : Nat) (ctx : σ) :
    (attemptLoop timeoutMs action more ctx).WellFormed (more + 1) := by
  induction more generalizing ctx with
  | zero =>
    rw [attemptLoop]
    rcases runAttempt timeoutMs action ctx with ⟨_ | err, ctx⟩
    · rename_i err
      exact ⟨[], .inr ⟨err, rfl, rfl, rfl⟩⟩
    · exact ⟨[], .inl ⟨rfl, rfl, by simp⟩⟩
  | succ more ih =>
    rw [attemptLoop]
    rcases runAttempt timeoutMs action ctx with ⟨err | _, ctx⟩
    · obtain ⟨failures, done | failed⟩ := (ih ctx).shape
      · obtain ⟨last, calls, bound⟩ := done
        exact ⟨err :: failures, .inl ⟨last, by simp [calls], by simpa using bound⟩⟩
      · obtain ⟨final, last, calls, bound⟩ := failed
        exact ⟨err :: failures, .inr ⟨final, last, by simp [calls], by simp [bound]⟩⟩
    · exact ⟨[], .inl ⟨rfl, rfl, by simp⟩⟩

theorem RetryPolicy.attempts_pos (policy : RetryPolicy) : 0 < policy.attempts := by
  simp [RetryPolicy.attempts]

theorem invokeWithPolicy_wellFormed (policy : RetryPolicy) (action : Action σ) (ctx : σ) :
    (invokeWithPolicy policy action ctx).WellFormed policy.attempts := by
  have loop := attemptLoop_wellFormed policy.timeoutMs action (policy.attempts - 1) ctx
  rwa [Nat.sub_add_cancel policy.attempts_pos] at loop

def unwrapInvokeCause (fallback : String) (retry : RetryPolicy) (err : StepInvokeError) : BoxError :=
  if retry.attempts = 1 ∧ retry.timeoutMs = 0 then err.intoSource.getD fallback
  else err.toString

end Firefly.Orchestration
