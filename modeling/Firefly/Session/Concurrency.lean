import Mathlib

set_option autoImplicit false

namespace Firefly.Session

inductive Strategy where
  | evictOldest
  | rejectNew
deriving DecidableEq, Repr

def Strategy.fromStrLenient (s : String) : Strategy :=
  if s = "reject-new" then .rejectNew else .evictOldest

structure ConcurrencyPolicy where
  maxSessions : Int
  strategy : Strategy
deriving DecidableEq, Repr

def ConcurrencyPolicy.default : ConcurrencyPolicy :=
  { maxSessions := -1, strategy := .evictOldest }

abbrev Entry := String × Int

def older (one other : Entry) : Prop :=
  one.2 < other.2 ∨ one.2 = other.2 ∧ one.1 ≤ other.1

instance : DecidableRel older := fun _ _ => inferInstanceAs (Decidable (_ ∨ _))

abbrev MemorySessionRegistry := String → List Entry

namespace MemorySessionRegistry

def new : MemorySessionRegistry := fun _ => []

def register (registry : MemorySessionRegistry) (principal sessionId : String) (createdAt : Int) :
    MemorySessionRegistry :=
  Function.update registry principal
    ((registry principal).filter (·.1 ≠ sessionId) ++ [(sessionId, createdAt)])

def deregister (registry : MemorySessionRegistry) (principal sessionId : String) :
    MemorySessionRegistry :=
  Function.update registry principal ((registry principal).filter (·.1 ≠ sessionId))

theorem register_same (registry : MemorySessionRegistry) (principal sessionId : String)
    (createdAt : Int) :
    registry.register principal sessionId createdAt principal =
      (registry principal).filter (·.1 ≠ sessionId) ++ [(sessionId, createdAt)] :=
  Function.update_self ..

theorem register_other (registry : MemorySessionRegistry) {principal other : String}
    (sessionId : String) (createdAt : Int) (differs : other ≠ principal) :
    registry.register principal sessionId createdAt other = registry other :=
  Function.update_of_ne differs ..

def listSessions (registry : MemorySessionRegistry) (principal : String) : List Entry :=
  (registry principal).insertionSort older

def count (registry : MemorySessionRegistry) (principal : String) : Nat :=
  (registry principal).length

end MemorySessionRegistry

inductive Phase where
  | registering
  | deleting (victim : String) (rest : List String)
  | deregistering (victim : String) (rest : List String)
deriving DecidableEq, Repr

structure Login where
  principal : String
  sessionId : String
  createdAt : Int
  phase : Phase
deriving DecidableEq, Repr

inductive Event where
  | evicted (victim : String) (sessions : List Entry)
  | ended (sessionId : String) (accepted : Bool) (sessions : List Entry)
deriving DecidableEq, Repr

structure Controller where
  registry : MemorySessionRegistry
  store : Option (List String)
  logins : Nat → Option Login
  log : List Event

def Controller.start (store : Option (List String)) : Controller :=
  { registry := .new, store, logins := fun _ => none, log := [] }

inductive Choice where
  | login (caller : Nat) (principal sessionId : String) (createdAt : Int)
  | advance (caller : Nat) (failing : Bool)
  | logout (principal sessionId : String)
deriving DecidableEq, Repr

def evicting (store : Option (List String)) : List String → Phase
  | [] => .registering
  | victim :: rest => if store.isSome then .deleting victim rest else .deregistering victim rest

namespace Controller

def enter (s : Controller) (caller : Nat) (login : Login) : Controller :=
  { s with logins := Function.update s.logins caller (some login) }

def onLogin (policy : ConcurrencyPolicy) (s : Controller) (caller : Nat)
    (principal sessionId : String) (createdAt : Int) : Controller :=
  if policy.maxSessions < 0 then
    s.enter caller { principal, sessionId, createdAt, phase := .registering }
  else
    let existing := (s.registry.listSessions principal).filter (·.1 ≠ sessionId)
    let cap := policy.maxSessions.toNat
    if existing.length < cap then
      s.enter caller { principal, sessionId, createdAt, phase := .registering }
    else if policy.strategy = .rejectNew then
      { s with log := s.log ++ [.ended sessionId false (s.registry principal)] }
    else
      let toEvict := existing.length + 1 - cap
      s.enter caller
        { principal, sessionId, createdAt
          phase := evicting s.store ((existing.take toEvict).map Prod.fst) }

def advance (s : Controller) (caller : Nat) (failing : Bool) (login : Login) : Controller :=
  match login.phase with
  | .registering =>
    let registry := s.registry.register login.principal login.sessionId login.createdAt
    { s with
      registry
      logins := Function.update s.logins caller none
      log := s.log ++ [.ended login.sessionId true (registry login.principal)] }
  | .deleting victim rest =>
    { s with
      store := if failing then s.store else s.store.map (List.filter (· ≠ victim))
      logins := Function.update s.logins caller
        (some { login with phase := .deregistering victim rest }) }
  | .deregistering victim rest =>
    { s with
      registry := s.registry.deregister login.principal victim
      logins := Function.update s.logins caller (some { login with phase := evicting s.store rest })
      log := s.log ++ [.evicted victim (s.registry login.principal)] }

def step (policy : ConcurrencyPolicy) (s : Controller) : Choice → Option Controller
  | .login caller principal sessionId createdAt =>
    some (if (s.logins caller).isSome then s
      else s.onLogin policy caller principal sessionId createdAt)
  | .advance caller failing =>
    match s.logins caller with
    | none => some s
    | some login => some (s.advance caller failing login)
  | .logout principal sessionId =>
    some { s with registry := s.registry.deregister principal sessionId }

structure Capped (policy : ConcurrencyPolicy) (s : Controller) : Prop where
  cap : (∀ caller, s.logins caller = none) →
    ∀ principal, s.registry.count principal ≤ policy.maxSessions.toNat
  honest : ∀ sessionId accepted sessions, Event.ended sessionId accepted sessions ∈ s.log →
    (accepted = true ↔ ∃ createdAt, (sessionId, createdAt) ∈ sessions)
  oldest : ∀ victim sessions, Event.evicted victim sessions ∈ s.log →
    ∀ createdAt, (victim, createdAt) ∈ sessions → ∀ other ∈ sessions, older (victim, createdAt) other

def Serial (policy : ConcurrencyPolicy) (s : Controller) : Choice → Prop
  | .login _ principal _ _ =>
    (∀ caller login, s.logins caller = some login → login.principal ≠ principal) ∧
      (policy.strategy = .evictOldest → policy.maxSessions ≠ 0)
  | _ => True

end Controller

end Firefly.Session
