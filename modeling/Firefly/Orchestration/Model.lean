import Mathlib
import Firefly.Shared.Layering

set_option autoImplicit false

namespace Firefly.Orchestration

abbrev BoxError := String

abbrev Graph := Std.TreeMap String (List String)

inductive ExecutionStatus where
  | pending | running | waiting | suspended | completed | failed | cancelled | timedOut
  | trying | confirming | confirmed | canceling | canceled | compensating | compensated
deriving DecidableEq, Repr

namespace ExecutionStatus

def all : List ExecutionStatus :=
  [pending, running, waiting, suspended, completed, failed, cancelled, timedOut, trying,
    confirming, confirmed, canceling, canceled, compensating, compensated]

def isTerminal : ExecutionStatus → Bool
  | completed | failed | cancelled | timedOut | confirmed | canceled | compensated => true
  | _ => false

def asStr : ExecutionStatus → String
  | pending => "PENDING"
  | running => "RUNNING"
  | waiting => "WAITING"
  | suspended => "SUSPENDED"
  | completed => "COMPLETED"
  | failed => "FAILED"
  | cancelled => "CANCELLED"
  | timedOut => "TIMED_OUT"
  | trying => "TRYING"
  | confirming => "CONFIRMING"
  | confirmed => "CONFIRMED"
  | canceling => "CANCELING"
  | canceled => "CANCELED"
  | compensating => "COMPENSATING"
  | compensated => "COMPENSATED"

def parse (s : String) : Option ExecutionStatus :=
  all.find? fun status => status.asStr = s

theorem parse_asStr (status : ExecutionStatus) : parse status.asStr = some status := by
  cases status <;> decide

theorem asStr_injective : Function.Injective asStr := by
  intro a b same
  have parsed := congrArg parse same
  simpa [parse_asStr] using parsed

end ExecutionStatus

inductive ExecutionPattern where
  | saga | workflow | tcc
deriving DecidableEq, Repr

def ExecutionPattern.asStr : ExecutionPattern → String
  | .saga => "SAGA"
  | .workflow => "WORKFLOW"
  | .tcc => "TCC"

theorem ExecutionPattern.asStr_injective : Function.Injective ExecutionPattern.asStr := by
  intro a b same
  cases a <;> cases b <;> first | rfl | exact absurd same (by decide)

inductive TccPhase where
  | tryPhase | confirm | cancel
deriving DecidableEq, Repr

/-- The backoff and jitter fields only choose how long the engine sleeps between two attempts. -/
structure RetryPolicy where
  maxAttempts : Nat := 1
  timeoutMs : Nat := 0
deriving DecidableEq, Repr

def RetryPolicy.attempts (policy : RetryPolicy) : Nat := max policy.maxAttempts 1

end Firefly.Orchestration

namespace Firefly.Orchestration

open Layering

def depsOf (graph : Graph) (name : String) : List String := graph.getD name []

def Sound (graph : Graph) : Prop :=
  Closed graph.keys (depsOf graph) ∧ Acyclic graph.keys (depsOf graph)

theorem mem_keys_iff {β : Type} {map : Std.TreeMap String β} {key : String} :
    key ∈ map.keys ↔ ∃ value, map[key]? = some value := by
  rw [Std.TreeMap.mem_keys, Std.TreeMap.mem_iff_isSome_getElem?, Option.isSome_iff_exists]

theorem nodup_keys {β : Type} (map : Std.TreeMap String β) : map.keys.Nodup := by
  have distinct := Std.TreeMap.distinct_keys (t := map)
  refine List.Pairwise.imp ?_ distinct
  intro a b differs same
  exact differs (by simp [same])

theorem depsOf_eq {graph : Graph} {name : String} {deps : List String}
    (listed : graph[name]? = some deps) : depsOf graph name = deps := by
  rw [depsOf, Std.TreeMap.getD_eq_getD_getElem?, listed]
  rfl

theorem perm_of_left {β : Type} {graph : Graph} {remaining : Std.TreeMap String β}
    {removed : List String} (distinct : removed.Nodup) (nodes : ∀ name ∈ removed, name ∈ graph.keys)
    (members : ∀ name, name ∈ remaining.keys ↔ name ∉ removed ∧ name ∈ graph.keys) :
    (removed ++ remaining.keys).Perm graph.keys := by
  refine (List.perm_ext_iff_of_nodup ?_ (nodup_keys graph)).mpr ?_
  · rw [List.nodup_append]
    refine ⟨distinct, nodup_keys remaining, ?_⟩
    rintro a gone b left rfl
    exact ((members a).mp left).1 gone
  · intro name
    rw [List.mem_append, members]
    by_cases gone : name ∈ removed
    · simp [gone, nodes name gone]
    · simp [gone]

theorem isEmpty_iff_keys {β : Type} (map : Std.TreeMap String β) :
    map.isEmpty ↔ map.keys = [] := by
  rw [← List.length_eq_zero_iff, Std.TreeMap.length_keys, Std.TreeMap.isEmpty_eq_size_eq_zero,
    beq_iff_eq]

end Firefly.Orchestration
