import Firefly.Shared.Runs

set_option autoImplicit false

namespace Firefly.Scheduling.Locks

abbrev Name := List Char

/-- An exchange with the backend can fail before it takes effect there, or lose the answer. -/
inductive Fault where
  | request
  | answer
deriving DecidableEq, Repr

/-- What several processes share. Lifetimes and times are milliseconds of the backend's clock. -/
structure DistributedLock (β : Type) where
  tryAcquire : β → (process : Nat) → Name → (ttl now : Nat) → Option Fault → β × Except Unit Bool
  release : β → (process : Nat) → Name → (now : Nat) → Option Fault → β × Except Unit Unit
  crash : β → (process : Nat) → β
  -- When a lease that was just acquired runs out, if it does.
  expiry : (ttl now : Nat) → Option Nat

structure InProcessLock where
  held : Name → Option Nat

def InProcessLock.new : InProcessLock := { held := fun _ => none }

def InProcessLock.tryAcquire (lock : InProcessLock) (name : Name) (ttl now : Nat) :
    InProcessLock × Except Unit Bool :=
  if (lock.held name).any (fun expiry => now < expiry) then (lock, .ok false)
  else ({ held := Function.update lock.held name (some (now + ttl)) }, .ok true)

def InProcessLock.release (lock : InProcessLock) (name : Name) : InProcessLock × Except Unit Unit :=
  ({ held := Function.update lock.held name none }, .ok ())

def inProcess : DistributedLock (Nat → InProcessLock) where
  tryAcquire locks process name ttl now _ :=
    let (lock, result) := (locks process).tryAcquire name ttl now
    (Function.update locks process lock, result)
  release locks process name _ _ :=
    let (lock, result) := (locks process).release name
    (Function.update locks process lock, result)
  crash locks process := Function.update locks process .new
  expiry ttl now := some (now + ttl)

/-- A server, with what a key holds at a time. `setNxPx` is `SET key token NX PX px` and
`compareAndDelete` the release script. -/
structure Redis (σ : Type) where
  get : σ → (now : Nat) → Name → Option Name
  setNxPx : σ → (now : Nat) → (key token : Name) → (px : Nat) → σ × Bool
  compareAndDelete : σ → (now : Nat) → (key token : Name) → σ
  reply : ∀ s now key token px, (setNxPx s now key token px).2 = true ↔ get s now key = none
  get_setNxPx : ∀ s now key token px later other, now ≤ later →
    get (setNxPx s now key token px).1 later other =
      if (setNxPx s now key token px).2 = true ∧ other = key then
        if later < now + px then some token else none
      else get s later other
  get_compareAndDelete : ∀ s now key token later other, now ≤ later →
    get (compareAndDelete s now key token) later other =
      if get s now key = some token ∧ other = key then none else get s later other

structure RedisLock where
  keyPrefix : Name
  token : Nat ↪ Name

def RedisLock.key (lock : RedisLock) (name : Name) : Name := lock.keyPrefix ++ name

def maxU64 : Nat := 2 ^ 64 - 1

def px (ttl : Nat) : Nat := max (min ttl maxU64) 1

def RedisLock.tryAcquire {σ : Type} (redis : Redis σ) (lock : RedisLock) (s : σ) (process : Nat)
    (name : Name) (ttl now : Nat) : Option Fault → σ × Except Unit Bool
  | some .request => (s, .error ())
  | some .answer => ((redis.setNxPx s now (lock.key name) (lock.token process) (px ttl)).1, .error ())
  | none =>
    let (s, reply) := redis.setNxPx s now (lock.key name) (lock.token process) (px ttl)
    (s, .ok reply)

def RedisLock.release {σ : Type} (redis : Redis σ) (lock : RedisLock) (s : σ) (process : Nat)
    (name : Name) (now : Nat) : Option Fault → σ × Except Unit Unit
  | some .request => (s, .error ())
  | some .answer => (redis.compareAndDelete s now (lock.key name) (lock.token process), .error ())
  | none => (redis.compareAndDelete s now (lock.key name) (lock.token process), .ok ())

def redisLock {σ : Type} (redis : Redis σ) (lock : RedisLock) : DistributedLock σ where
  tryAcquire := lock.tryAcquire redis
  release := lock.release redis
  crash s _ := s
  expiry ttl now := some (now + px ttl)

/-- A server, with the session that holds an advisory lock. -/
structure Postgres (σ : Type) where
  holder : σ → (key : Int) → Option Nat
  tryAdvisoryLock : σ → (session : Nat) → (key : Int) → σ × Bool
  close : σ → (session : Nat) → σ
  reply : ∀ s session key, (tryAdvisoryLock s session key).2 = true ↔
    holder s key = none ∨ holder s key = some session
  holder_tryAdvisoryLock : ∀ s session key other,
    holder (tryAdvisoryLock s session key).1 other =
      if (tryAdvisoryLock s session key).2 = true ∧ other = key then some session else holder s other
  holder_close : ∀ s session key,
    holder (close s session) key = if holder s key = some session then none else holder s key

structure Held where
  process : Nat
  name : Name
  session : Nat
deriving DecidableEq

structure PostgresAdvisoryLock (σ : Type) where
  held : List Held
  sessions : Nat
  server : σ

def Held.isFor (process : Nat) (name : Name) (h : Held) : Bool := h.process = process ∧ h.name = name

section Postgres

variable {σ : Type} (postgres : Postgres σ) (advisoryKey : Name → Int)

-- Whatever goes wrong after the connection is made, the client is dropped and its session ends.
def PostgresAdvisoryLock.tryAcquire (lock : PostgresAdvisoryLock σ) (process : Nat) (name : Name) :
    Option Fault → PostgresAdvisoryLock σ × Except Unit Bool
  | some .request => (lock, .error ())
  | fault =>
    let session := lock.sessions
    let (server, acquired) := postgres.tryAdvisoryLock lock.server session (advisoryKey name)
    if fault = none ∧ acquired then
      ({ held := ⟨process, name, session⟩ :: lock.held.filter fun h => !h.isFor process name,
         sessions := session + 1, server }, .ok true)
    else
      ({ lock with sessions := session + 1, server := postgres.close server session },
        if fault = none then .ok false else .error ())

def PostgresAdvisoryLock.release (lock : PostgresAdvisoryLock σ) (process : Nat) (name : Name)
    (fault : Option Fault) : PostgresAdvisoryLock σ × Except Unit Unit :=
  match lock.held.find? (Held.isFor process name) with
  | none => (lock, .ok ())
  | some h =>
    ({ lock with
        held := lock.held.filter fun h => !h.isFor process name
        server := postgres.close lock.server h.session },
      if fault = none then .ok () else .error ())

def PostgresAdvisoryLock.crash (lock : PostgresAdvisoryLock σ) (process : Nat) : PostgresAdvisoryLock σ :=
  { lock with
    held := lock.held.filter fun h => h.process ≠ process
    server := (lock.held.filter fun h => h.process = process).foldl
      (fun server h => postgres.close server h.session) lock.server }

def postgresAdvisoryLock : DistributedLock (PostgresAdvisoryLock σ) where
  tryAcquire lock process name _ _ := lock.tryAcquire postgres advisoryKey process name
  release lock process name _ := lock.release postgres process name
  crash lock := lock.crash postgres
  expiry _ _ := none

end Postgres

structure TaskLock where
  name : Name
  ttl : Nat

structure Task where
  process : Nat
  lock : Option TaskLock

structure Body where
  task : Nat
  expires : Option Nat
  ended : Bool
deriving DecidableEq

structure Cluster (β : Type) where
  now : Nat
  backend : β
  bodies : List Body

inductive Event where
  | advance (time : Nat)
  | tick (task : Nat) (fault : Option Fault)
  | finish (task : Nat)
  | release (task : Nat) (fault : Option Fault)
  | crash (process : Nat)

variable {β : Type}

def Cluster.step (L : DistributedLock β) (tasks : Nat → Task) (c : Cluster β) : Event → Option (Cluster β)
  | .advance time => if c.now ≤ time then some { c with now := time } else none
  | .tick task fault =>
    if task ∈ c.bodies.map Body.task then none
    else
      match (tasks task).lock with
      | none => some { c with bodies := ⟨task, none, false⟩ :: c.bodies }
      | some lock =>
        match L.tryAcquire c.backend (tasks task).process lock.name lock.ttl c.now fault with
        | (backend, .ok true) =>
          some { c with backend, bodies := ⟨task, L.expiry lock.ttl c.now, false⟩ :: c.bodies }
        -- The tick is skipped.
        | (backend, _) => some { c with backend }
  | .finish task =>
    if ∃ b ∈ c.bodies, b.task = task ∧ b.ended = false then
      some { c with bodies := c.bodies.map fun b => if b.task = task then { b with ended := true } else b }
    else none
  | .release task fault =>
    if ∃ b ∈ c.bodies, b.task = task ∧ b.ended = true then
      let bodies := c.bodies.filter fun b => b.task ≠ task
      match (tasks task).lock with
      | none => some { c with bodies }
      | some lock =>
        some { c with bodies, backend := (L.release c.backend (tasks task).process lock.name c.now fault).1 }
    else none
  | .crash process =>
    some { c with
      backend := L.crash c.backend process
      bodies := c.bodies.filter fun b => (tasks b.task).process ≠ process }

end Firefly.Scheduling.Locks
