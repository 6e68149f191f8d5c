import Firefly.Orchestration.Persistence
import Firefly.Shared.Runs
import Firefly.Shared.StableSort

set_option autoImplicit false

namespace Firefly.Orchestration.Adapters

open Runs StableSort

inductive Call where
  | save (state : ExecutionState Timestamp)
  | load (correlationId : String)
  | list (filter : ExecutionFilter)
  | listStale (before : Timestamp)
  | claimStale (correlationId : String) (before : Timestamp) (claimedStatus : ExecutionStatus)
    (now : Timestamp)
  | delete (correlationId : String)
  | cleanup (cutoff : Timestamp)
deriving DecidableEq

inductive Answer where
  | saved
  | loaded (state : Option (ExecutionState Timestamp))
  | listed (states : List (ExecutionState Timestamp))
  | stale (states : List (ExecutionState Timestamp))
  | claimed (state : Option (ExecutionState Timestamp))
  | deleted (present : Bool)
  | cleaned (removed : Nat)
deriving DecidableEq

def Answer.Same : Answer → Answer → Prop
  | .listed one, .listed other =>
    one.Perm other ∧ one.map (·.startedAt) = other.map (·.startedAt)
  | .stale one, .stale other => one.Perm other
  | one, other => one = other

structure Scans where
  states : Iteration (ExecutionState Timestamp)
  rows : Iteration ExecutionRow

def onMemory (scan : Iteration (ExecutionState Timestamp)) (memory : MemoryPersistence Timestamp) :
    Call → Answer × MemoryPersistence Timestamp
  | .save state => (.saved, memory.save state)
  | .load correlationId => (.loaded (memory.load correlationId), memory)
  | .list filter => (.listed (memory.list filter scan), memory)
  | .listStale before => (.stale (memory.listStale before scan), memory)
  | .claimStale correlationId before claimedStatus now =>
    let (state, memory) := memory.claimStale correlationId before claimedStatus now
    (.claimed state, memory)
  | .delete correlationId =>
    let (present, memory) := memory.delete correlationId
    (.deleted present, memory)
  | .cleanup cutoff =>
    let (removed, memory) := memory.cleanup cutoff
    (.cleaned removed, memory)

section Codec

variable (codec : Codec)

def onSqlite (scan : Iteration ExecutionRow) (sqlite : SqlitePersistence) :
    Call → Except PersistenceError Answer × SqlitePersistence
  | .save state =>
    match sqlite.save codec state with
    | .ok sqlite => (.ok .saved, sqlite)
    | .error e => (.error e, sqlite)
  | .load correlationId => ((sqlite.load codec correlationId).map .loaded, sqlite)
  | .list filter => ((sqlite.list codec filter scan).map .listed, sqlite)
  | .listStale before => ((sqlite.listStale codec before scan).map .stale, sqlite)
  | .claimStale correlationId before claimedStatus now =>
    let (state, sqlite) := sqlite.claimStale codec correlationId before claimedStatus now
    (state.map .claimed, sqlite)
  | .delete correlationId =>
    let (present, sqlite) := sqlite.delete correlationId
    (.ok (.deleted present), sqlite)
  | .cleanup cutoff =>
    let (removed, sqlite) := sqlite.cleanup cutoff
    (.ok (.cleaned removed), sqlite)

structure State where
  memory : MemoryPersistence Timestamp
  sqlite : SqlitePersistence
  answers : List (Answer × Except PersistenceError Answer)

def start : State := { memory := .empty, sqlite := {}, answers := [] }

def step (s : State) (choice : Call × Scans) : Option State :=
  let (answer, memory) := onMemory choice.2.states s.memory choice.1
  let (answer', sqlite) := onSqlite codec choice.2.rows s.sqlite choice.1
  some { memory, sqlite, answers := s.answers ++ [(answer, answer')] }

structure Agree (s : State) : Prop where
  answers : ∀ pair ∈ s.answers, ∃ answer, pair.2 = .ok answer ∧ pair.1.Same answer
  terminal : ∀ (key : String) (row : ExecutionRow), s.sqlite.table[key]? = some row →
    ∃ status : ExecutionStatus, row.status = status.asStr ∧
      row.terminal = if status.isTerminal then 1 else 0

def Sound (state : ExecutionState Timestamp) : Prop :=
  ∃ text, codec.toJson state.payload = .ok text ∧ codec.fromJson text = .ok state.payload

def payloadText (state : ExecutionState Timestamp) : String :=
  match codec.toJson state.payload with
  | .ok text => text
  | .error _ => ""

def rowFor (state : ExecutionState Timestamp) : ExecutionRow := rowOf state (payloadText codec state)

structure Coupled (memory : MemoryPersistence Timestamp) (sqlite : SqlitePersistence) : Prop where
  rows : ∀ key : String, sqlite.table[key]? = memory.store[key]?.map (rowFor codec)
  sound : ∀ (key : String) (state : ExecutionState Timestamp), memory.store[key]? = some state →
    Sound codec state

variable {codec}

section Rows

variable {state : ExecutionState Timestamp}

theorem fromJson_payloadText (sound : Sound codec state) :
    codec.fromJson (payloadText codec state) = .ok state.payload := by
  obtain ⟨text, printed, parsed⟩ := sound
  rw [payloadText, printed]
  exact parsed

theorem patternOf_asStr (pattern : ExecutionPattern) : patternOf pattern.asStr = .ok pattern := by
  cases pattern <;> decide

theorem statusOf_asStr (status : ExecutionStatus) : statusOf status.asStr = .ok status := by
  rw [statusOf, ExecutionStatus.parse_asStr]

variable (instants : ∀ ts, codec.parseFromRfc3339 (encodeTs ts) = .ok ts)

include instants

theorem decodeTs_encodeTs (ts : Timestamp) : decodeTs codec (encodeTs ts) = .ok ts := by
  rw [decodeTs, instants]
  rfl

theorem rowToState_rowFor (sound : Sound codec state) :
    rowToState codec (rowFor codec state) = .ok state := by
  have completed : (state.completedAt.map encodeTs).mapM (decodeTs codec) =
      (.ok state.completedAt : Except PersistenceError (Option Timestamp)) := by
    cases state.completedAt with
    | none => rfl
    | some ts => simp [decodeTs_encodeTs instants]
  simp only [rowToState, rowFor, rowOf, patternOf_asStr, statusOf_asStr, decodeTs_encodeTs instants,
    completed, fromJson_payloadText sound]
  rfl

theorem collectStates_rowFor {states : List (ExecutionState Timestamp)}
    (sound : ∀ state ∈ states, Sound codec state) :
    collectStates codec (states.map (rowFor codec)) = .ok states := by
  induction states with
  | nil => rfl
  | cons state states ih =>
    have rest := ih fun other member => sound other (.tail _ member)
    rw [collectStates] at rest
    rw [collectStates, List.map_cons, List.mapM_cons,
      rowToState_rowFor instants (sound state List.mem_cons_self), rest]
    rfl

end Rows

section Conditions

variable (codec) (state : ExecutionState Timestamp)

theorem selects_rowFor (filter : ExecutionFilter) :
    SqlitePersistence.selects filter (rowFor codec state) = filter.matchesState state := by
  have status (s : ExecutionStatus) : state.status.asStr = s.asStr ↔ state.status = s :=
    ExecutionStatus.asStr_injective.eq_iff
  have pattern (p : ExecutionPattern) : state.pattern.asStr = p.asStr ↔ state.pattern = p :=
    ExecutionPattern.asStr_injective.eq_iff
  simp only [SqlitePersistence.selects, ExecutionFilter.matchesState, rowFor, rowOf, status, pattern]

theorem encoded_lt (a b : Timestamp) :
    decide (encodeTs a < encodeTs b) = decide (a < b) :=
  decide_eq_decide.mpr Timestamp.encodeTs_lt_iff

theorem terminal_zero (status : ExecutionStatus) :
    decide ((if status.isTerminal then (1 : Int) else 0) = 0) = !status.isTerminal := by
  cases status <;> rfl

theorem terminal_one (status : ExecutionStatus) :
    decide ((if status.isTerminal then (1 : Int) else 0) = 1) = status.isTerminal := by
  cases status <;> rfl

theorem staleRow_rowFor (before : Timestamp) :
    SqlitePersistence.staleRow before (rowFor codec state) =
      MemoryPersistence.stale before state := by
  change (decide ((if state.status.isTerminal then (1 : Int) else 0) = 0) &&
    decide (encodeTs state.updatedAt < encodeTs before)) = _
  rw [terminal_zero, encoded_lt]
  rfl

theorem doomedRow_rowFor (cutoff : Timestamp) :
    SqlitePersistence.doomedRow cutoff (rowFor codec state) =
      (state.isTerminal && (state.completedAt.getD state.updatedAt < cutoff : Bool)) := by
  have completion : (state.completedAt.map encodeTs).getD (encodeTs state.updatedAt) =
      encodeTs (state.completedAt.getD state.updatedAt) := by
    cases state.completedAt <;> rfl
  change (decide ((if state.status.isTerminal then (1 : Int) else 0) = 1) &&
    decide ((state.completedAt.map encodeTs).getD (encodeTs state.updatedAt) < encodeTs cutoff)) = _
  rw [terminal_one, completion, encoded_lt]
  rfl

theorem rowFor_transition (now : Timestamp) (status : ExecutionStatus) :
    rowFor codec (state.transition now status) =
      { rowFor codec state with
        status := status.asStr
        terminal := if status.isTerminal then 1 else 0
        updatedAt := encodeTs now
        completedAt := (if status.isTerminal then some (encodeTs now) else none).or
          (rowFor codec state).completedAt } := by
  cases terminal : status.isTerminal <;>
    simp [rowFor, rowOf, payloadText, ExecutionState.transition, terminal]

end Conditions

theorem encodeTs_le_iff {a b : Timestamp} : encodeTs a ≤ encodeTs b ↔ a ≤ b := by
  rw [← not_lt, Timestamp.encodeTs_lt_iff, not_lt]

section Scans

variable {memory : MemoryPersistence Timestamp} {sqlite : SqlitePersistence}

theorem nodup_toList {β : Type} (map : Std.TreeMap String β) : map.toList.Nodup := by
  apply Std.TreeMap.distinct_keys_toList.imp
  rintro first second apart rfl
  exact apart Std.ReflCmp.compare_self

theorem Coupled.toList_perm (coupled : Coupled codec memory sqlite) :
    sqlite.table.toList.Perm (memory.store.toList.map (Prod.map id (rowFor codec))) := by
  have distinct : (memory.store.toList.map (Prod.map id (rowFor codec))).Nodup := by
    apply List.Nodup.of_map Prod.fst
    rw [List.map_map]
    have keys : Prod.fst ∘ Prod.map id (rowFor codec) =
        (Prod.fst : String × ExecutionState Timestamp → String) := rfl
    rw [keys, Std.TreeMap.map_fst_toList_eq_keys]
    exact Std.TreeMap.nodup_keys
  rw [List.perm_ext_iff_of_nodup (nodup_toList _) distinct]
  rintro ⟨key, row⟩
  rw [Std.TreeMap.mem_toList_iff_getElem?_eq_some, coupled.rows, Option.map_eq_some_iff]
  simp only [List.mem_map, Prod.exists, Prod.map_apply, id, Prod.mk.injEq,
    Std.TreeMap.mem_toList_iff_getElem?_eq_some]
  constructor
  · rintro ⟨state, found, same⟩
    exact ⟨key, state, found, rfl, same⟩
  · rintro ⟨key, state, found, rfl, same⟩
    exact ⟨state, found, same⟩

-- However the table is scanned, the rows are those of the stored states in some order.
theorem Coupled.scanned (coupled : Coupled codec memory sqlite) (scan : Iteration ExecutionRow) :
    ∃ states : List (ExecutionState Timestamp),
      scan.order (sqlite.table.toList.map Prod.snd) = states.map (rowFor codec) ∧
        states.Perm (memory.store.toList.map Prod.snd) := by
  have rows : (scan.order (sqlite.table.toList.map Prod.snd)).Perm
      ((memory.store.toList.map Prod.snd).map (rowFor codec)) := by
    have values := coupled.toList_perm.map Prod.snd
    rw [List.map_map] at values ⊢
    exact (scan.perm _).trans values
  have split : Relation.Comp (· = List.map (rowFor codec) ·) List.Perm
      (scan.order (sqlite.table.toList.map Prod.snd)) (memory.store.toList.map Prod.snd) := by
    rw [List.eq_map_comp_perm]
    exact rows
  exact split

theorem Coupled.sound_values (coupled : Coupled codec memory sqlite)
    {states : List (ExecutionState Timestamp)}
    (stored : ∀ state ∈ states, state ∈ memory.store.toList.map Prod.snd) :
    ∀ state ∈ states, Sound codec state := fun state member =>
  coupled.sound state.correlationId state (MemoryPersistence.mem_values.mp (stored state member))

end Scans

section Calls

variable {memory : MemoryPersistence Timestamp} {sqlite : SqlitePersistence}

variable (codec) in
def Matched (memory : Answer × MemoryPersistence Timestamp)
    (sqlite : Except PersistenceError Answer × SqlitePersistence) : Prop :=
  (∃ answer, sqlite.1 = .ok answer ∧ memory.1.Same answer) ∧ Coupled codec memory.2 sqlite.2

theorem Coupled.saved (coupled : Coupled codec memory sqlite) {state : ExecutionState Timestamp}
    (sound : Sound codec state) :
    Coupled codec (memory.save state)
      { table := sqlite.table.insert state.correlationId (rowFor codec state) } where
  rows key := by
    simp only [MemoryPersistence.save, Std.TreeMap.getElem?_insert]
    split
    · rfl
    · exact coupled.rows key
  sound key other found := by
    simp only [MemoryPersistence.save, Std.TreeMap.getElem?_insert] at found
    split at found
    · obtain rfl := Option.some.inj found
      exact sound
    · exact coupled.sound key other found

theorem save_matched (coupled : Coupled codec memory sqlite) {state : ExecutionState Timestamp}
    (sound : Sound codec state) (scans : Scans) :
    Matched codec (onMemory scans.states memory (.save state))
      (onSqlite codec scans.rows sqlite (.save state)) := by
  obtain ⟨text, printed, parsed⟩ := id sound
  have row : rowFor codec state = rowOf state text := by
    rw [rowFor, payloadText, printed]
  have inserted : sqlite.save codec state =
      .ok { table := sqlite.table.insert state.correlationId (rowFor codec state) } := by
    rw [SqlitePersistence.save, printed, row]
    rfl
  simp only [onMemory, onSqlite, inserted]
  exact ⟨⟨.saved, rfl, rfl⟩, coupled.saved sound⟩

theorem delete_matched (coupled : Coupled codec memory sqlite) (correlationId : String)
    (scans : Scans) :
    Matched codec (onMemory scans.states memory (.delete correlationId))
      (onSqlite codec scans.rows sqlite (.delete correlationId)) := by
  have present : memory.store[correlationId]?.isSome = sqlite.table.contains correlationId := by
    rw [Std.TreeMap.contains_eq_isSome_getElem?, coupled.rows, Option.isSome_map]
  refine ⟨⟨_, rfl, congrArg Answer.deleted present⟩, ⟨?_, ?_⟩⟩
  · intro key
    simp only [onMemory, MemoryPersistence.delete, onSqlite, SqlitePersistence.delete,
      Std.TreeMap.getElem?_erase]
    split
    · rfl
    · exact coupled.rows key
  · intro key state found
    simp only [onMemory, MemoryPersistence.delete, Std.TreeMap.getElem?_erase] at found
    split at found
    · simp at found
    · exact coupled.sound key state found

section Reading

variable (instants : ∀ ts, codec.parseFromRfc3339 (encodeTs ts) = .ok ts)

include instants

theorem load_eq (coupled : Coupled codec memory sqlite) (correlationId : String) :
    sqlite.load codec correlationId = .ok (memory.load correlationId) := by
  rw [SqlitePersistence.load, MemoryPersistence.load, coupled.rows]
  cases found : memory.store[correlationId]? with
  | none => rfl
  | some state =>
    have sound : ∀ other ∈ [state], Sound codec other := by
      simpa using coupled.sound correlationId state found
    have read := collectStates_rowFor instants sound
    rw [List.map_singleton] at read
    rw [Option.map_some, Option.toList_some, read]
    rfl

theorem list_matched (coupled : Coupled codec memory sqlite) (filter : ExecutionFilter)
    (scans : Scans) :
    Matched codec (onMemory scans.states memory (.list filter))
      (onSqlite codec scans.rows sqlite (.list filter)) := by
  obtain ⟨states, rows, perm⟩ := coupled.scanned scans.rows
  have selected : SqlitePersistence.selects filter ∘ rowFor codec = filter.matchesState :=
    funext fun state => selects_rowFor codec state filter
  have sorted : (((states.map (rowFor codec)).filter (SqlitePersistence.selects filter)).mergeSort
      fun a b => decide (a.startedAt ≤ b.startedAt)) =
        (sortByKey (·.startedAt) (states.filter filter.matchesState)).map (rowFor codec) := by
    rw [List.filter_map, selected]
    exact @sortByKey_map (ExecutionState Timestamp) Timestamp _ (·.startedAt) ExecutionRow String _
      (·.startedAt) (rowFor codec) (fun _ _ => encodeTs_le_iff) _
  have stored : ∀ state ∈ sortByKey (·.startedAt) (states.filter filter.matchesState),
      state ∈ memory.store.toList.map Prod.snd := fun state member =>
    perm.subset (List.mem_of_mem_filter ((List.mergeSort_perm _ _).subset member))
  have read : sqlite.list codec filter scans.rows =
      .ok (sortByKey (·.startedAt) (states.filter filter.matchesState)) := by
    rw [SqlitePersistence.list, rows, sorted]
    exact collectStates_rowFor instants (coupled.sound_values stored)
  have same : ((scans.states.order (memory.store.toList.map Prod.snd)).filter
      filter.matchesState).Perm (states.filter filter.matchesState) :=
    ((scans.states.perm _).trans perm.symm).filter _
  refine ⟨⟨.listed (sortByKey (·.startedAt) (states.filter filter.matchesState)), ?_, ?_, ?_⟩,
    coupled⟩
  · simp only [onSqlite, read]
    rfl
  · exact (List.mergeSort_perm _ _).trans (same.trans (List.mergeSort_perm _ _).symm)
  · exact sortByKey_keys same

theorem listStale_matched (coupled : Coupled codec memory sqlite) (before : Timestamp)
    (scans : Scans) :
    Matched codec (onMemory scans.states memory (.listStale before))
      (onSqlite codec scans.rows sqlite (.listStale before)) := by
  obtain ⟨states, rows, perm⟩ := coupled.scanned scans.rows
  have selected : SqlitePersistence.staleRow before ∘ rowFor codec =
      MemoryPersistence.stale before := funext fun state => staleRow_rowFor codec state before
  have stored : ∀ state ∈ states.filter (MemoryPersistence.stale before),
      state ∈ memory.store.toList.map Prod.snd := fun state member =>
    perm.subset (List.mem_of_mem_filter member)
  have read : sqlite.listStale codec before scans.rows =
      .ok (states.filter (MemoryPersistence.stale before)) := by
    rw [SqlitePersistence.listStale, rows, List.filter_map, selected]
    exact collectStates_rowFor instants (coupled.sound_values stored)
  refine ⟨⟨.stale (states.filter (MemoryPersistence.stale before)), ?_, ?_⟩, coupled⟩
  · simp only [onSqlite, read]
    rfl
  · exact ((scans.states.perm _).trans perm.symm).filter _

theorem claimStale_matched (coupled : Coupled codec memory sqlite) (correlationId : String)
    (before : Timestamp) (status : ExecutionStatus) (now : Timestamp) (scans : Scans) :
    Matched codec (onMemory scans.states memory (.claimStale correlationId before status now))
      (onSqlite codec scans.rows sqlite (.claimStale correlationId before status now)) := by
  rcases memory.claimStale_cases correlationId before status now with
    ⟨state, found, stale, claimed⟩ | ⟨refused, fresh⟩
  · have key : state.correlationId = correlationId := memory.keyed correlationId state found
    have row : sqlite.table[correlationId]?.filter (SqlitePersistence.staleRow before) =
        some (rowFor codec state) := by
      rw [coupled.rows, found, Option.map_some, Option.filter_some, staleRow_rowFor, if_pos stale]
    have after : Coupled codec (memory.save (state.transition now status))
        { table := sqlite.table.insert correlationId
            (rowFor codec (state.transition now status)) } := by
      rw [← key]
      exact coupled.saved (coupled.sound correlationId state found)
    have loaded : (memory.save (state.transition now status)).load correlationId =
        some (state.transition now status) := by
      simp [MemoryPersistence.load, MemoryPersistence.save, key]
    have updated : sqlite.claimStale codec correlationId before status now =
        (.ok (some (state.transition now status)),
          { table := sqlite.table.insert correlationId
              (rowFor codec (state.transition now status)) }) := by
      have read := load_eq instants after correlationId
      rw [loaded] at read
      simp only [SqlitePersistence.claimStale, row, ← rowFor_transition]
      rw [read]
    simp only [onMemory, claimed, onSqlite, updated]
    exact ⟨⟨_, rfl, rfl⟩, after⟩
  · have none_there : sqlite.table[correlationId]?.filter (SqlitePersistence.staleRow before) =
        none := by
      rw [coupled.rows]
      cases found : memory.store[correlationId]? with
      | none => rfl
      | some state =>
        rw [Option.map_some, Option.filter_some, staleRow_rowFor, fresh state found]
        rfl
    simp only [onMemory, refused, onSqlite, SqlitePersistence.claimStale, none_there]
    exact ⟨⟨_, rfl, rfl⟩, coupled⟩

end Reading

def doomed (cutoff : Timestamp) (state : ExecutionState Timestamp) : Bool :=
  state.isTerminal && (state.completedAt.getD state.updatedAt < cutoff : Bool)

theorem deleteAll_store (states : List (ExecutionState Timestamp))
    (memory : MemoryPersistence Timestamp) (key : String) :
    (states.foldl (fun memory state => (memory.delete state.correlationId).2) memory).store[key]? =
      if key ∈ states.map (·.correlationId) then none else memory.store[key]? := by
  induction states generalizing memory with
  | nil => simp
  | cons state states ih =>
    rw [List.foldl_cons, ih]
    simp only [MemoryPersistence.delete, Std.TreeMap.getElem?_erase, List.map_cons, List.mem_cons]
    by_cases here : key = state.correlationId
    · simp [here]
    · have apart : compare state.correlationId key ≠ .eq := fun same =>
        here (Std.LawfulEqCmp.eq_of_compare same).symm
      simp [here, apart]

theorem cleanup_store (memory : MemoryPersistence Timestamp) (cutoff : Timestamp) (key : String) :
    (memory.cleanup cutoff).2.store[key]? =
      memory.store[key]?.filter fun state => !doomed cutoff state := by
  have listed : (memory.cleanup cutoff).2.store[key]? =
      if key ∈ ((memory.store.toList.map Prod.snd).filter (doomed cutoff)).map (·.correlationId)
      then none else memory.store[key]? := deleteAll_store _ memory key
  have removed : key ∈ ((memory.store.toList.map Prod.snd).filter (doomed cutoff)).map
      (·.correlationId) ↔ ∃ state, memory.store[key]? = some state ∧ doomed cutoff state := by
    simp only [List.mem_map (f := fun state : ExecutionState Timestamp => state.correlationId),
      List.mem_filter, MemoryPersistence.mem_values]
    constructor
    · rintro ⟨state, ⟨found, gone⟩, rfl⟩
      exact ⟨state, found, gone⟩
    · rintro ⟨state, found, gone⟩
      have own := memory.keyed key state found
      exact ⟨state, ⟨by rwa [own], gone⟩, own⟩
  rw [listed]
  cases found : memory.store[key]? with
  | none => simp
  | some state =>
    have out : key ∈ ((memory.store.toList.map Prod.snd).filter (doomed cutoff)).map
        (·.correlationId) ↔ doomed cutoff state := by
      rw [removed, found]
      simp
    rw [Option.filter_some]
    cases gone : doomed cutoff state
    · rw [if_neg (by rw [out, gone]; exact Bool.false_ne_true)]
      rfl
    · rw [if_pos (by rw [out, gone])]
      rfl

theorem cleanup_matched (coupled : Coupled codec memory sqlite) (cutoff : Timestamp)
    (scans : Scans) :
    Matched codec (onMemory scans.states memory (.cleanup cutoff))
      (onSqlite codec scans.rows sqlite (.cleanup cutoff)) := by
  have removed : (memory.cleanup cutoff).1 = (sqlite.cleanup cutoff).1 := by
    have size : (sqlite.cleanup cutoff).1 =
        (sqlite.table.toList.filter fun pair => SqlitePersistence.doomedRow cutoff pair.2).length := by
      rw [SqlitePersistence.cleanup, ← Std.TreeMap.length_toList, Std.TreeMap.toList_filter]
    have rows := (coupled.toList_perm.filter fun pair =>
      SqlitePersistence.doomedRow cutoff pair.2).length_eq
    have states : (memory.cleanup cutoff).1 =
        ((memory.store.toList.map Prod.snd).filter (doomed cutoff)).length := rfl
    have same : (fun pair : String × ExecutionRow => SqlitePersistence.doomedRow cutoff pair.2) ∘
        Prod.map id (rowFor codec) = doomed cutoff ∘ Prod.snd :=
      funext fun pair => doomedRow_rowFor codec pair.2 cutoff
    rw [size, rows, List.filter_map, List.length_map, same, states, List.filter_map,
      List.length_map]
  refine ⟨⟨_, rfl, congrArg Answer.cleaned removed⟩, ⟨?_, ?_⟩⟩
  · intro key
    simp only [onMemory, onSqlite, SqlitePersistence.cleanup, Std.TreeMap.getElem?_filter',
      cleanup_store, coupled.rows, Option.filter_map]
    congr 1
    cases memory.store[key]? with
    | none => rfl
    | some state =>
      rw [Option.filter_some, Option.filter_some, Function.comp_apply, doomedRow_rowFor]
      rfl
  · intro key state found
    simp only [onMemory, cleanup_store, Option.filter_eq_some_iff] at found
    exact coupled.sound key state found.1

end Calls

structure Inv (codec : Codec) (s : State) : Prop where
  coupled : Coupled codec s.memory s.sqlite
  answers : ∀ pair ∈ s.answers, ∃ answer, pair.2 = .ok answer ∧ pair.1.Same answer

theorem Inv.agree {s : State} (inv : Inv codec s) : Agree s where
  answers := inv.answers
  terminal key row found := by
    rw [inv.coupled.rows, Option.map_eq_some_iff] at found
    obtain ⟨state, -, rfl⟩ := found
    exact ⟨state.status, rfl, rfl⟩

theorem inv_start : Inv codec start where
  coupled := ⟨fun key => by simp [start, MemoryPersistence.empty],
    fun key state found => by simp [start, MemoryPersistence.empty] at found⟩
  answers := by simp [start]

theorem call_matched (instants : ∀ ts, codec.parseFromRfc3339 (encodeTs ts) = .ok ts)
    {memory : MemoryPersistence Timestamp} {sqlite : SqlitePersistence}
    (coupled : Coupled codec memory sqlite) (call : Call)
    (sound : ∀ state, call = .save state → Sound codec state) (scans : Scans) :
    Matched codec (onMemory scans.states memory call) (onSqlite codec scans.rows sqlite call) := by
  cases call with
  | save state => exact save_matched coupled (sound state rfl) scans
  | load correlationId =>
    refine ⟨⟨_, ?_, rfl⟩, coupled⟩
    simp only [onSqlite, load_eq instants coupled]
    rfl
  | list filter => exact list_matched instants coupled filter scans
  | listStale before => exact listStale_matched instants coupled before scans
  | claimStale correlationId before status now =>
    exact claimStale_matched instants coupled correlationId before status now scans
  | delete correlationId => exact delete_matched coupled correlationId scans
  | cleanup cutoff => exact cleanup_matched coupled cutoff scans

theorem adapters_agree (codec : Codec)
    (instants : ∀ ts, codec.parseFromRfc3339 (encodeTs ts) = .ok ts) (calls : List (Call × Scans))
    (payloads : ∀ state, (∃ scans, (Call.save state, scans) ∈ calls) → Sound codec state) :
    Always (step codec) Agree start calls ∧
      ∀ a b : Timestamp, encodeTs a < encodeTs b ↔ a < b := by
  refine ⟨?_, fun a b => Timestamp.encodeTs_lt_iff⟩
  have along : Along (step codec) (fun _ choice => choice ∈ calls) start calls :=
    along_of_forall (fun choice member _ => member) start
  apply Always.mono fun _ inv => Inv.agree inv
  refine along.always (Inv codec) ?_ inv_start
  rintro s ⟨call, scans⟩ s' member inv stepped
  obtain rfl := Option.some.inj stepped
  obtain ⟨answer, coupled⟩ := call_matched instants inv.coupled call
    (fun state same => payloads state ⟨scans, same ▸ member⟩) scans
  refine ⟨coupled, ?_⟩
  intro pair member
  rcases List.mem_append.mp member with before | last
  · exact inv.answers pair before
  · rw [List.mem_singleton.mp last]
    exact answer

end Codec

def emptyPayloads : Codec where
  parseFromRfc3339 := Timestamp.read
  toJson _ := .ok "\x7b\x7d"
  fromJson _ := .ok (.object [])

def epoch : Timestamp := ⟨0, 0, by decide, by decide, by decide⟩

def later : Timestamp := ⟨60, 5, by decide, by decide, by decide⟩

def running : ExecutionState Timestamp :=
  { correlationId := "c-1", name := "ship", pattern := .saga, status := .running,
    startedAt := epoch, updatedAt := epoch }

theorem running_claimed :
    Always (step emptyPayloads) Agree start
        [(.save running, ⟨.stored _, .stored _⟩), (.claimStale "c-1" later .failed later,
          ⟨.stored _, .stored _⟩)] ∧
      ∀ a b : Timestamp, encodeTs a < encodeTs b ↔ a < b := by
  have instants (ts) : emptyPayloads.parseFromRfc3339 (encodeTs ts) = .ok ts := by
    simp only [emptyPayloads, Timestamp.read_encodeTs]
  refine adapters_agree emptyPayloads instants _ ?_
  rintro state ⟨scans, member⟩
  rcases List.mem_cons.mp member with saved | member
  · rw [Call.save.inj (congrArg Prod.fst saved)]
    exact ⟨_, rfl, rfl⟩
  · exact absurd (congrArg Prod.fst (List.mem_singleton.mp member)) (by simp)

end Firefly.Orchestration.Adapters
