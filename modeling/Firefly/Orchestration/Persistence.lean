import Firefly.Orchestration.Model
import Firefly.Orchestration.Timestamps
import Firefly.Shared.Json
import Firefly.Shared.Text

set_option autoImplicit false

namespace Firefly.Orchestration

open Json

structure ExecutionState (τ : Type) where
  correlationId : String
  name : String
  pattern : ExecutionPattern
  status : ExecutionStatus
  startedAt : τ
  updatedAt : τ
  completedAt : Option τ := none
  payload : Value := .object []
deriving DecidableEq

variable {τ : Type}

def ExecutionState.isTerminal (state : ExecutionState τ) : Bool := state.status.isTerminal

def ExecutionState.transition (state : ExecutionState τ) (now : τ) (status : ExecutionStatus) :
    ExecutionState τ :=
  { state with
    status := status
    updatedAt := now
    completedAt := if status.isTerminal then some now else state.completedAt }

@[simp] theorem ExecutionState.transition_correlationId (state : ExecutionState τ) (now : τ)
    (status : ExecutionStatus) : (state.transition now status).correlationId = state.correlationId :=
  rfl

@[simp] theorem ExecutionState.transition_updatedAt (state : ExecutionState τ) (now : τ)
    (status : ExecutionStatus) : (state.transition now status).updatedAt = now := rfl

@[simp] theorem ExecutionState.transition_isTerminal (state : ExecutionState τ) (now : τ)
    (status : ExecutionStatus) : (state.transition now status).isTerminal = status.isTerminal := rfl

structure ExecutionFilter where
  status : Option ExecutionStatus := none
  pattern : Option ExecutionPattern := none
deriving DecidableEq

def ExecutionFilter.matchesState (filter : ExecutionFilter) (state : ExecutionState τ) : Bool :=
  (filter.status.all fun status => state.status = status) &&
    filter.pattern.all fun pattern => state.pattern = pattern

/-- An order in which a hash map or a table scan happens to deliver its entries. -/
structure Iteration (α : Type) where
  order : List α → List α
  perm : ∀ entries, (order entries).Perm entries

def Iteration.stored (α : Type) : Iteration α where
  order := id
  perm _ := .refl _

structure MemoryPersistence (τ : Type) where
  store : Std.TreeMap String (ExecutionState τ)
  keyed : ∀ (key : String) (state : ExecutionState τ), store[key]? = some state →
    state.correlationId = key

namespace MemoryPersistence

def empty : MemoryPersistence τ where
  store := ∅
  keyed _ _ found := by simp at found

theorem mem_values {memory : MemoryPersistence τ} {state : ExecutionState τ} :
    state ∈ memory.store.toList.map Prod.snd ↔
      memory.store[state.correlationId]? = some state := by
  constructor
  · intro member
    obtain ⟨⟨key, state⟩, listed, rfl⟩ := List.mem_map.mp member
    have found := Std.TreeMap.mem_toList_iff_getElem?_eq_some.mp listed
    rwa [memory.keyed key state found]
  · intro found
    exact List.mem_map.mpr ⟨(state.correlationId, state),
      Std.TreeMap.mem_toList_iff_getElem?_eq_some.mpr found, rfl⟩

def save (memory : MemoryPersistence τ) (state : ExecutionState τ) : MemoryPersistence τ where
  store := memory.store.insert state.correlationId state
  keyed key other found := by
    rw [Std.TreeMap.getElem?_insert] at found
    split at found
    · rename_i same
      obtain rfl : state = other := by simpa using found
      simpa using same
    · exact memory.keyed key other found

def load (memory : MemoryPersistence τ) (correlationId : String) : Option (ExecutionState τ) :=
  memory.store[correlationId]?

def delete (memory : MemoryPersistence τ) (correlationId : String) : Bool × MemoryPersistence τ :=
  (memory.store[correlationId]?.isSome,
    { store := memory.store.erase correlationId
      keyed := by
        intro key state found
        rw [Std.TreeMap.getElem?_erase] at found
        split at found
        · simp at found
        · exact memory.keyed key state found })

section Ordered

variable [LinearOrder τ]

def list (memory : MemoryPersistence τ) (filter : ExecutionFilter)
    (scan : Iteration (ExecutionState τ)) : List (ExecutionState τ) :=
  ((scan.order (memory.store.toList.map Prod.snd)).filter filter.matchesState).mergeSort
    fun a b => decide (a.startedAt ≤ b.startedAt)

def stale (before : τ) (state : ExecutionState τ) : Bool :=
  !state.isTerminal && state.updatedAt < before

def listStale (memory : MemoryPersistence τ) (before : τ) (scan : Iteration (ExecutionState τ)) :
    List (ExecutionState τ) :=
  (scan.order (memory.store.toList.map Prod.snd)).filter (stale before)

def claimStale (memory : MemoryPersistence τ) (correlationId : String) (before : τ)
    (claimedStatus : ExecutionStatus) (now : τ) :
    Option (ExecutionState τ) × MemoryPersistence τ :=
  match memory.store[correlationId]? with
  | none => (none, memory)
  | some state =>
    if state.isTerminal || before ≤ state.updatedAt then (none, memory)
    else
      let claimed := state.transition now claimedStatus
      -- the entry is changed in place: `keyed` makes it the one it was found under
      (some claimed, memory.save claimed)

-- `older_than` is read as the cutoff `now - older_than`.
def cleanup (memory : MemoryPersistence τ) (cutoff : τ) : Nat × MemoryPersistence τ :=
  let doomed := (memory.store.toList.map Prod.snd).filter fun state =>
    state.isTerminal && (state.completedAt.getD state.updatedAt < cutoff)
  (doomed.length,
    doomed.foldl (fun memory state => (memory.delete state.correlationId).2) memory)

theorem claimStale_cases (memory : MemoryPersistence τ) (correlationId : String) (before : τ)
    (claimedStatus : ExecutionStatus) (now : τ) :
    (∃ state, memory.store[correlationId]? = some state ∧ stale before state ∧
      memory.claimStale correlationId before claimedStatus now =
        (some (state.transition now claimedStatus),
          memory.save (state.transition now claimedStatus))) ∨
    (memory.claimStale correlationId before claimedStatus now = (none, memory) ∧
      ∀ state, memory.store[correlationId]? = some state → stale before state = false) := by
  rw [claimStale]
  cases found : memory.store[correlationId]? with
  | none => exact .inr ⟨rfl, by simp⟩
  | some state =>
    by_cases fresh : state.isTerminal || decide (before ≤ state.updatedAt)
    · right
      refine ⟨if_pos fresh, fun other same => ?_⟩
      obtain rfl : state = other := by simpa using same
      rw [stale]
      rcases Bool.or_eq_true_iff.mp fresh with terminal | late
      · simp [terminal]
      · simp [not_lt.mpr (of_decide_eq_true late)]
    · left
      refine ⟨state, rfl, ?_, if_neg fresh⟩
      simp only [Bool.or_eq_true, decide_eq_true_eq, not_or, not_le] at fresh
      simp [stale, fresh.1, fresh.2]

end Ordered

end MemoryPersistence

structure PersistenceError where
  message : String
deriving DecidableEq, Repr

/-- The reading of timestamps and of JSON, and the printing of JSON, done by libraries. -/
structure Codec where
  parseFromRfc3339 : String → Except String Timestamp
  toJson : Value → Except String String
  fromJson : String → Except String Value

structure ExecutionRow where
  correlationId : String
  name : String
  pattern : String
  status : String
  terminal : Int
  startedAt : String
  updatedAt : String
  completedAt : Option String
  payload : String
deriving DecidableEq, Repr

structure SqlitePersistence where
  table : Std.TreeMap String ExecutionRow := ∅

section Codec

variable (codec : Codec)

def decodeTs (raw : String) : Except PersistenceError Timestamp :=
  (codec.parseFromRfc3339 raw).mapError fun e =>
    ⟨"bad timestamp " ++ Text.debugStr raw ++ ": " ++ e⟩

def patternOf (text : String) : Except PersistenceError ExecutionPattern :=
  if text = "SAGA" then .ok .saga
  else if text = "WORKFLOW" then .ok .workflow
  else if text = "TCC" then .ok .tcc
  else .error ⟨"bad pattern " ++ Text.debugStr text⟩

def statusOf (text : String) : Except PersistenceError ExecutionStatus :=
  match ExecutionStatus.parse text with
  | some status => .ok status
  | none => .error ⟨"bad status " ++ Text.debugStr text⟩

def rowToState (row : ExecutionRow) : Except PersistenceError (ExecutionState Timestamp) := do
  let pattern ← patternOf row.pattern
  let status ← statusOf row.status
  let startedAt ← decodeTs codec row.startedAt
  let updatedAt ← decodeTs codec row.updatedAt
  let completedAt ← row.completedAt.mapM (decodeTs codec)
  let payload ← (codec.fromJson row.payload).mapError fun e => ⟨"bad payload: " ++ e⟩
  return { correlationId := row.correlationId, name := row.name, pattern, status, startedAt,
           updatedAt, completedAt, payload }

def collectStates (rows : List ExecutionRow) :
    Except PersistenceError (List (ExecutionState Timestamp)) :=
  rows.mapM (rowToState codec)

def rowOf (state : ExecutionState Timestamp) (payload : String) : ExecutionRow where
  correlationId := state.correlationId
  name := state.name
  pattern := state.pattern.asStr
  status := state.status.asStr
  terminal := if state.status.isTerminal then 1 else 0
  startedAt := encodeTs state.startedAt
  updatedAt := encodeTs state.updatedAt
  completedAt := state.completedAt.map encodeTs
  payload

namespace SqlitePersistence

def save (sqlite : SqlitePersistence) (state : ExecutionState Timestamp) :
    Except PersistenceError SqlitePersistence := do
  let payload ← (codec.toJson state.payload).mapError fun e => ⟨"encode payload: " ++ e⟩
  return { table := sqlite.table.insert state.correlationId (rowOf state payload) }

-- `SELECT .. WHERE correlation_id = ?1`, of which the last row is taken.
def load (sqlite : SqlitePersistence) (correlationId : String) :
    Except PersistenceError (Option (ExecutionState Timestamp)) :=
  (collectStates codec sqlite.table[correlationId]?.toList).map List.getLast?

def selects (filter : ExecutionFilter) (row : ExecutionRow) : Bool :=
  (filter.status.all fun status => row.status = status.asStr) &&
    filter.pattern.all fun pattern => row.pattern = pattern.asStr

def list (sqlite : SqlitePersistence) (filter : ExecutionFilter) (scan : Iteration ExecutionRow) :
    Except PersistenceError (List (ExecutionState Timestamp)) :=
  collectStates codec (((scan.order (sqlite.table.toList.map Prod.snd)).filter
    (selects filter)).mergeSort fun a b => decide (a.startedAt ≤ b.startedAt))

def staleRow (before : Timestamp) (row : ExecutionRow) : Bool :=
  row.terminal = 0 && row.updatedAt < encodeTs before

def listStale (sqlite : SqlitePersistence) (before : Timestamp) (scan : Iteration ExecutionRow) :
    Except PersistenceError (List (ExecutionState Timestamp)) :=
  collectStates codec ((scan.order (sqlite.table.toList.map Prod.snd)).filter (staleRow before))

def claimStale (sqlite : SqlitePersistence) (correlationId : String) (before : Timestamp)
    (claimedStatus : ExecutionStatus) (now : Timestamp) :
    Except PersistenceError (Option (ExecutionState Timestamp)) × SqlitePersistence :=
  let completedAt := if claimedStatus.isTerminal then some (encodeTs now) else none
  match sqlite.table[correlationId]?.filter (staleRow before) with
  | none => (.ok none, sqlite)
  | some row =>
    let claimed := { row with
      status := claimedStatus.asStr
      terminal := if claimedStatus.isTerminal then 1 else 0
      updatedAt := encodeTs now
      completedAt := completedAt.or row.completedAt }
    let sqlite : SqlitePersistence := { table := sqlite.table.insert correlationId claimed }
    (sqlite.load codec correlationId, sqlite)

def delete (sqlite : SqlitePersistence) (correlationId : String) : Bool × SqlitePersistence :=
  (sqlite.table.contains correlationId, { table := sqlite.table.erase correlationId })

def doomedRow (cutoff : Timestamp) (row : ExecutionRow) : Bool :=
  row.terminal = 1 && row.completedAt.getD row.updatedAt < encodeTs cutoff

def cleanup (sqlite : SqlitePersistence) (cutoff : Timestamp) : Nat × SqlitePersistence :=
  ((sqlite.table.filter fun _ row => doomedRow cutoff row).size,
    { table := sqlite.table.filter fun _ row => !doomedRow cutoff row })

end SqlitePersistence

end Codec

end Firefly.Orchestration
