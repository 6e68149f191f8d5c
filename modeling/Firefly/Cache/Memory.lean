import Mathlib
import Firefly.Shared.Recency
import Firefly.Shared.Runs

set_option autoImplicit false

namespace Firefly.Cache

inductive CacheError where
  | notFound
  | codec (message : String)
  | backend (message : String)
deriving DecidableEq, Repr

def CacheError.isNotFound : CacheError → Bool
  | .notFound => true
  | _ => false

def startsWith (key start : String) : Bool :=
  start.toList.isPrefixOf key.toList

end Firefly.Cache

namespace Firefly.Cache

structure MemEntry where
  value : List UInt8
  exp : Option Nat
  lastAccess : Nat
deriving DecidableEq, Repr

def pastDeadline (now : Nat) : Option Nat → Bool
  | some exp => exp < now
  | none => false

def MemEntry.expired (now : Nat) (entry : MemEntry) : Bool :=
  pastDeadline now entry.exp

-- A zero `ttl` means no expiry.
def deadline (now : Nat) (ttl : Option Nat) : Option Nat :=
  (ttl.filter fun duration => duration ≠ 0).map fun duration => now + duration

structure MemoryAdapter where
  entries : Std.TreeMap String MemEntry := ∅
  maxEntries : Option Nat := none
  accessSeq : Nat := 0

namespace MemoryAdapter

def withMaxEntries (maxEntries : Nat) : MemoryAdapter :=
  { maxEntries := if 0 < maxEntries then some maxEntries else none }

def victim (entries : Std.TreeMap String MemEntry) : Option (String × MemEntry) :=
  entries.toList.argmin fun pair => pair.2.lastAccess

-- Each turn of the loop removes one entry.
def evict (max : Nat) : Nat → Std.TreeMap String MemEntry → Std.TreeMap String MemEntry
  | 0, entries => entries
  | turns + 1, entries =>
    if entries.size > max then
      match victim entries with
      | some (key, _) => evict max turns (entries.erase key)
      | none => entries
    else entries

def enforceBound (maxEntries : Option Nat) (entries : Std.TreeMap String MemEntry) :
    Std.TreeMap String MemEntry :=
  match maxEntries with
  | none => entries
  | some max => evict max entries.size entries

def get (now : Nat) (cache : MemoryAdapter) (key : String) :
    Except CacheError (List UInt8) × MemoryAdapter :=
  let seq := cache.accessSeq
  let cache := { cache with accessSeq := seq + 1 }
  match cache.entries[key]? with
  | none => (.error .notFound, cache)
  | some entry =>
    if !entry.expired now then
      (.ok entry.value,
        { cache with entries := cache.entries.insert key { entry with lastAccess := seq } })
    else (.error .notFound, { cache with entries := cache.entries.erase key })

def insert (now : Nat) (cache : MemoryAdapter) (key : String) (value : List UInt8)
    (ttl : Option Nat) (seq : Nat) : MemoryAdapter :=
  { cache with
    entries := enforceBound cache.maxEntries
      (cache.entries.insert key { value, exp := deadline now ttl, lastAccess := seq }) }

def set (now : Nat) (cache : MemoryAdapter) (key : String) (value : List UInt8)
    (ttl : Option Nat) : MemoryAdapter :=
  let seq := cache.accessSeq
  insert now { cache with accessSeq := seq + 1 } key value ttl seq

def delete (cache : MemoryAdapter) (key : String) : MemoryAdapter :=
  { cache with entries := cache.entries.erase key }

def clear (cache : MemoryAdapter) : MemoryAdapter :=
  { cache with entries := ∅ }

def setIfAbsent (now : Nat) (cache : MemoryAdapter) (key : String) (value : List UInt8)
    (ttl : Option Nat) : Bool × MemoryAdapter :=
  let seq := cache.accessSeq
  let cache := { cache with accessSeq := seq + 1 }
  match cache.entries[key]? with
  | some entry =>
    if !entry.expired now then (false, cache) else (true, insert now cache key value ttl seq)
  | none => (true, insert now cache key value ttl seq)

def exists' (now : Nat) (cache : MemoryAdapter) (key : String) : Bool × MemoryAdapter :=
  match cache.entries[key]? with
  | none => (false, cache)
  | some entry =>
    if !entry.expired now then (true, cache)
    else (false, { cache with entries := cache.entries.erase key })

def deletePrefix (cache : MemoryAdapter) (start : String) : Nat × MemoryAdapter :=
  ((cache.entries.filter fun key _ => startsWith key start).size,
    { cache with entries := cache.entries.filter fun key _ => !startsWith key start })

end MemoryAdapter

inductive MemoryCall where
  | get (key : String)
  | set (key : String) (value : List UInt8) (ttl : Option Nat)
  | setIfAbsent (key : String) (value : List UInt8) (ttl : Option Nat)
  | exists (key : String)
  | delete (key : String)
  | deletePrefix (start : String)
  | clear
deriving DecidableEq, Repr

inductive Answer where
  | done
  | found (value : List UInt8)
  | missing
  | flag (yes : Bool)
  | count (removed : Nat)
deriving DecidableEq, Repr

def MemoryAdapter.perform (now : Nat) (cache : MemoryAdapter) :
    MemoryCall → Answer × MemoryAdapter
  | .get key =>
    match cache.get now key with
    | (.ok value, cache) => (.found value, cache)
    | (.error _, cache) => (.missing, cache)
  | .set key value ttl => (.done, cache.set now key value ttl)
  | .setIfAbsent key value ttl =>
    let (stored, cache) := cache.setIfAbsent now key value ttl
    (.flag stored, cache)
  | .exists key =>
    let (held, cache) := cache.exists' now key
    (.flag held, cache)
  | .delete key => (.done, cache.delete key)
  | .deletePrefix start =>
    let (removed, cache) := cache.deletePrefix start
    (.count removed, cache)
  | .clear => (.done, cache.clear)

end Firefly.Cache
