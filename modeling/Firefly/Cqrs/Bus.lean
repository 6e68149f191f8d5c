import Mathlib

set_option autoImplicit false

namespace Firefly.Cqrs

inductive AuthorizationSeverity where
  | warning
  | error
  | critical
deriving DecidableEq, Repr

structure AuthorizationError where
  resource : String
  message : String
  errorCode : String
  severity : AuthorizationSeverity
  deniedAction : Option String
deriving DecidableEq, Repr

structure AuthorizationResult where
  authorized : Bool
  errors : List AuthorizationError
  summary : Option String
deriving DecidableEq, Repr

inductive CqrsError where
  | noHandler (typeName : String)
  | validation (message : String)
  | authorization (result : AuthorizationResult)
  | serialization (message : String)
  | handler (message : String)
deriving DecidableEq, Repr

/-- The capabilities that an envelope captures from its message. A duration is in nanoseconds. -/
structure Messages (M C : Type) where
  typeId : M → Nat
  typeName : M → String
  validate : M → Except CqrsError Unit
  cacheTtl : M → Option Nat
  cacheJson : M → Except CqrsError (List UInt8)
  authorize : M → Option C → AuthorizationResult

structure Envelope (M C : Type) where
  message : M
  context : Option C
  cacheTtlOverride : Option (Option Nat)
  cacheKeyOverride : Option String

section Bus

variable {M C R : Type} (messages : Messages M C) (hash : List UInt8 → String)

def cacheTtl (env : Envelope M C) : Option Nat :=
  match env.cacheTtlOverride with
  | some overridden => overridden
  | none => messages.cacheTtl env.message

def keyOf (env : Envelope M C) : Except CqrsError String :=
  match env.cacheKeyOverride with
  | some key => .ok key
  | none =>
    match messages.cacheJson env.message with
    | .error e => .error e
    | .ok json => .ok (messages.typeName env.message ++ ":" ++ hash json)

structure CacheEntry (R : Type) where
  value : R
  expiresAt : Option Nat

abbrev QueryCache (R : Type) := Std.TreeMap String (CacheEntry R)

def QueryCache.lookup (cache : QueryCache R) (now : Nat) (key : String) : Option R :=
  match cache[key]? with
  | none => none
  | some entry =>
    match entry.expiresAt with
    | some expiresAt => if now > expiresAt then none else some entry.value
    | none => some entry.value

-- A zero ttl caches forever.
def QueryCache.store (cache : QueryCache R) (now : Nat) (key : String) (value : R) (ttl : Nat) :
    QueryCache R :=
  cache.insert key { value, expiresAt := if ttl > 0 then some (now + ttl) else none }

theorem lookup_entry {cache : QueryCache R} {now : Nat} {key : String} {hit : R}
    (found : cache.lookup now key = some hit) :
    ∃ entry, cache[key]? = some entry ∧ entry.value = hit := by
  unfold QueryCache.lookup at found
  split at found
  next => cases found
  next entry held =>
    refine ⟨entry, held, ?_⟩
    split at found
    next =>
      split at found
      next => cases found
      next => exact Option.some.inj found
    next => exact Option.some.inj found

inductive Check where
  | validation
  | authorization (enabled : Bool)
deriving DecidableEq, Repr

inductive Middleware where
  | check (check : Check)
  | queryCache
deriving DecidableEq, Repr

structure Times where
  asked : Nat
  stored : Nat

abbrev DynHandler (M C R : Type) :=
  Envelope M C → Times → QueryCache R → Except CqrsError R × QueryCache R

def runCheck : Check → Envelope M C → Except CqrsError Unit
  | .validation, env => messages.validate env.message
  | .authorization enabled, env =>
    if enabled then
      let result := messages.authorize env.message env.context
      if result.authorized then .ok () else .error (.authorization result)
    else .ok ()

def wrap : Middleware → DynHandler M C R → DynHandler M C R
  | .check check, next => fun env times cache =>
    match runCheck messages check env with
    | .error e => (.error e, cache)
    | .ok () => next env times cache
  | .queryCache, next => fun env times cache =>
    match cacheTtl messages env with
    | none => next env times cache
    | some ttl =>
      match keyOf messages hash env with
      | .error _ => next env times cache
      | .ok key =>
        match cache.lookup times.asked key with
        | some hit => (.ok hit, cache)
        | none =>
          match next env times cache with
          | (.error e, cache) => (.error e, cache)
          | (.ok result, cache) => (.ok result, cache.store times.stored key result ttl)

structure Bus (M C R : Type) where
  handlers : Nat → Option (M → Option C → Except CqrsError R)
  middlewares : List Middleware

def dispatchEnvelope (bus : Bus M C R) : DynHandler M C R := fun env times cache =>
  match bus.handlers (messages.typeId env.message) with
  | none => (.error (.noHandler (messages.typeName env.message)), cache)
  | some handler =>
    bus.middlewares.foldr (wrap messages hash)
      (fun env _ cache => (handler env.message env.context, cache)) env times cache

structure Dispatch (M C : Type) where
  envelope : Envelope M C
  times : Times

def answers (bus : Bus M C R) : QueryCache R → List (Dispatch M C) → List (Except CqrsError R)
  | _, [] => []
  | cache, dispatch :: later =>
    let (answer, cache) := dispatchEnvelope messages hash bus dispatch.envelope dispatch.times cache
    answer :: answers bus cache later

def cachedBus (handlers : Nat → Option (M → Option C → Except CqrsError R))
    (outer inner : List Check) : Bus M C R where
  handlers
  middlewares := outer.map .check ++ .queryCache :: inner.map .check

def uncachedBus (handlers : Nat → Option (M → Option C → Except CqrsError R))
    (outer inner : List Check) : Bus M C R where
  handlers
  middlewares := outer.map .check ++ inner.map .check

end Bus

end Firefly.Cqrs
