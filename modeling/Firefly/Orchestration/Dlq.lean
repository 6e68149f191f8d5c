import Firefly.Shared.Json

set_option autoImplicit false

namespace Firefly.Orchestration.Dlq

open Json

structure DeadLetterEntry (τ : Type) where
  id : String
  executionName : String
  correlationId : String
  stepId : Option String
  errorType : String
  errorMessage : String
  timestamp : τ
  retryCount : UInt32
  input : Value
deriving DecidableEq

structure DeadLetterCapture where
  executionName : String
  correlationId : String
  stepId : Option String := none
  errorType : String := "Error"
  errorMessage : String
  input : Value := .null
deriving DecidableEq

variable {τ : Type}

structure MemoryDeadLetterStore (τ : Type) where
  entries : Std.TreeMap String (DeadLetterEntry τ)
  keyed : ∀ (id : String) (entry : DeadLetterEntry τ), entries[id]? = some entry → entry.id = id

namespace MemoryDeadLetterStore

def empty : MemoryDeadLetterStore τ where
  entries := ∅
  keyed _ _ found := by simp at found

def add (store : MemoryDeadLetterStore τ) (entry : DeadLetterEntry τ) : MemoryDeadLetterStore τ where
  entries := store.entries.insert entry.id entry
  keyed := by
    intro id found stored
    rw [Std.TreeMap.getElem?_insert] at stored
    split at stored
    next same =>
      obtain rfl := Option.some.inj stored
      exact Std.LawfulEqCmp.eq_of_compare same
    next => exact store.keyed id found stored

def get (store : MemoryDeadLetterStore τ) (id : String) : Option (DeadLetterEntry τ) :=
  store.entries[id]?

def delete (store : MemoryDeadLetterStore τ) (id : String) : Bool × MemoryDeadLetterStore τ where
  fst := (store.get id).isSome
  snd :=
    { entries := store.entries.erase id
      keyed := by
        intro other found stored
        rw [Std.TreeMap.getElem?_erase] at stored
        split at stored
        next => cases stored
        next => exact store.keyed other found stored }

@[simp] theorem get_add (store : MemoryDeadLetterStore τ) (entry : DeadLetterEntry τ) (id : String) :
    (store.add entry).get id = if entry.id = id then some entry else store.get id := by
  simp [add, get, Std.TreeMap.getElem?_insert]

@[simp] theorem delete_fst (store : MemoryDeadLetterStore τ) (id : String) :
    (store.delete id).1 = (store.get id).isSome := rfl

@[simp] theorem get_delete (store : MemoryDeadLetterStore τ) (id other : String) :
    (store.delete id).2.get other = if id = other then none else store.get other := by
  simp [delete, get, Std.TreeMap.getElem?_erase]

theorem id_of_get {store : MemoryDeadLetterStore τ} {id : String} {entry : DeadLetterEntry τ}
    (found : store.get id = some entry) : entry.id = id :=
  store.keyed id entry found

end MemoryDeadLetterStore

def capture (failure : DeadLetterCapture) (id : String) (now : τ) : DeadLetterEntry τ where
  id := id
  executionName := failure.executionName
  correlationId := failure.correlationId
  stepId := failure.stepId
  errorType := failure.errorType
  errorMessage := failure.errorMessage
  timestamp := now
  retryCount := 0
  input := failure.input

-- Without overflow checks the counter wraps around.
def DeadLetterEntry.retried (entry : DeadLetterEntry τ) : DeadLetterEntry τ :=
  { entry with retryCount := entry.retryCount + 1 }

@[simp] theorem DeadLetterEntry.retried_id (entry : DeadLetterEntry τ) :
    entry.retried.id = entry.id := rfl

inductive Event where
  | captured (id : String)
  | marked (id : String) (result : Bool)
  | deleted (id : String) (result : Bool)
deriving DecidableEq, Repr

structure State (τ : Type) where
  store : MemoryDeadLetterStore τ
  callers : Nat → Option (DeadLetterEntry τ)
  log : List Event

def start (store : MemoryDeadLetterStore τ) : State τ where
  store := store
  callers := fun _ => none
  log := []

inductive Choice (τ : Type) where
  | capture (caller : Nat) (failure : DeadLetterCapture) (id : String) (now : τ)
  | markRetried (caller : Nat) (id : String)
  | add (caller : Nat)
  | delete (caller : Nat) (id : String)
deriving DecidableEq

def State.perform (s : State τ) : Choice τ → State τ
  | .capture _ failure id now =>
    { s with
      store := s.store.add (Dlq.capture failure id now)
      log := s.log ++ [.captured id] }
  | .markRetried caller id =>
    match s.store.get id with
    | none => { s with log := s.log ++ [.marked id false] }
    | some entry => { s with callers := Function.update s.callers caller (some entry) }
  | .add caller =>
    match s.callers caller with
    | none => s
    | some entry =>
      { s with
        store := s.store.add entry.retried
        callers := Function.update s.callers caller none
        log := s.log ++ [.marked entry.id true] }
  | .delete _ id =>
    { s with
      store := (s.store.delete id).2
      log := s.log ++ [.deleted id (s.store.delete id).1] }

-- A caller makes one call after the other.
def State.step (s : State τ) : Choice τ → Option (State τ)
  | .add caller => some (s.perform (.add caller))
  | .capture caller failure id now =>
    some (if (s.callers caller).isSome then s else s.perform (.capture caller failure id now))
  | .markRetried caller id =>
    some (if (s.callers caller).isSome then s else s.perform (.markRetried caller id))
  | .delete caller id =>
    some (if (s.callers caller).isSome then s else s.perform (.delete caller id))

end Firefly.Orchestration.Dlq
