import Firefly.Eventsourcing.SqlStore

set_option autoImplicit false

namespace Firefly.Eventsourcing.StoreAgreement

open Sql

inductive Cursor where
  | start
  | returned (position : Nat)
  | other (cursor : String)

def Cursor.memory : Cursor → Option String
  | .start => none
  | .returned position => some (MemoryEventStore.eventId position)
  | .other cursor => some cursor

def Cursor.sql : Cursor → Option String
  | .start => none
  | .returned position => some (SqlEventStore.eventId (position + 1))
  | .other cursor => some cursor

inductive Call where
  | append (aggregateId : String) (expectedVersion : Int) (events : List DomainEvent)
  | load (aggregateId : String)
  | loadAfter (aggregateId : String) (sinceVersion : Int)
  | streamAll (afterEventId : Cursor) (limit : Nat) (tenant : Option String)

inductive Reply where
  | appended (result : Except EventSourcingError Unit)
  | events (result : Except EventSourcingError (List DomainEvent))
  | page (result : Except EventSourcingError (List StreamedEvent))

def memoryReply (store : MemoryEventStore) : Call → Reply × MemoryEventStore
  | .append aggregateId expectedVersion events =>
    let (result, store) := store.append aggregateId expectedVersion events
    (.appended result, store)
  | .load aggregateId => (.events (store.load aggregateId), store)
  | .loadAfter aggregateId sinceVersion => (.events (store.loadAfter aggregateId sinceVersion), store)
  | .streamAll afterEventId limit tenant =>
    (.page (store.streamAll afterEventId.memory limit tenant), store)

def sqlReply (codec : EventCodec) (store : SqlEventStore) : Call → Reply × SqlEventStore
  | .append aggregateId expectedVersion events =>
    let (result, store) := store.append codec aggregateId expectedVersion events
    (.appended result, store)
  | .load aggregateId => (.events (store.load codec aggregateId), store)
  | .loadAfter aggregateId sinceVersion =>
    (.events (store.loadAfter codec aggregateId sinceVersion), store)
  | .streamAll afterEventId limit tenant =>
    (.page (store.streamAll codec afterEventId.sql limit tenant), store)

def replies {σ : Type} (reply : σ → Call → Reply × σ) : σ → List Call → List Reply
  | _, [] => []
  | store, call :: calls =>
    let (answer, store) := reply store call
    answer :: replies reply store calls

abbrev Log := List (Nat × DomainEvent)

def Log.stream (log : Log) (id : String) : List DomainEvent :=
  (log.filter fun entry => entry.2.aggregateId = id).map Prod.snd

structure Mirrors (codec : EventCodec) (log : Log) (inner : MemoryState) (rows : List EventRow) :
    Prop where
  numbered : Counted (fun entry => (entry.1 : Int) + 1) 0 log
  all : inner.all = log.map fun entry => (MemoryEventStore.eventId entry.1, entry.2)
  next : inner.nextSeq = log.length
  streams : ∀ id, inner.streams.getD id [] = log.stream id
  stamped : ∀ id, Stamped id 0 (log.stream id)
  rows : rows = log.map fun entry => SqlEventStore.eventRow codec (entry.1 + 1) entry.2
  reads : ∀ entry ∈ log, codec.fromJson (codec.toJson entry.2) = .ok entry.2

theorem mirrors_empty (codec : EventCodec) : Mirrors codec [] {} [] where
  numbered := counted_nil _ _
  all := rfl
  next := rfl
  streams id := by simp [Log.stream]
  stamped id := by simp [Log.stream, stamped_nil]
  rows := rfl
  reads := by simp

theorem Log.stream_concat (log : Log) (id : String) (entry : Nat × DomainEvent) :
    Log.stream (log ++ [entry]) id =
      if entry.2.aggregateId = id then log.stream id ++ [entry.2] else log.stream id := by
  rw [Log.stream, List.filter_append, List.map_append]
  split
  · rename_i own
    simp [own, Log.stream]
  · rename_i other
    simp [other, Log.stream]

section Appends

variable {codec : EventCodec} {log : Log} {inner : MemoryState} {rows : List EventRow}

theorem Mirrors.push (mirrors : Mirrors codec log inner rows) {event : DomainEvent}
    (version : event.version = (log.stream event.aggregateId).length + 1)
    (reads : codec.fromJson (codec.toJson event) = .ok event) :
    Mirrors codec (log ++ [(log.length, event)])
      (MemoryEventStore.push event.aggregateId inner event)
      (rows ++ [SqlEventStore.eventRow codec (log.length + 1) event]) where
  numbered := counted_append.mpr ⟨mirrors.numbered, counted_singleton.mpr (by simp)⟩
  all := by simp [MemoryEventStore.push, mirrors.all, mirrors.next]
  next := by simp [MemoryEventStore.push, mirrors.next]
  streams id := by
    rw [Log.stream_concat, MemoryEventStore.push, Std.TreeMap.getD_insert]
    by_cases own : event.aggregateId = id
    · subst own
      simp [mirrors.streams]
    · simp [own, mirrors.streams]
  stamped id := by
    rw [Log.stream_concat]
    split
    · rename_i own
      refine stamped_append.mpr ⟨mirrors.stamped id, stamped_singleton.mpr ⟨own, ?_⟩⟩
      subst own
      simpa using version
    · exact mirrors.stamped id
  rows := by simp [mirrors.rows]
  reads := by
    intro entry member
    rcases List.mem_append.mp member with before | last
    · exact mirrors.reads entry before
    · rw [List.mem_singleton.mp last]
      exact reads

theorem rows_of (mirrors : Mirrors codec log inner rows) (id : String) :
    rows.filter (fun row => row.aggregateId = id) =
      (log.filter fun entry => entry.2.aggregateId = id).map fun entry =>
        SqlEventStore.eventRow codec (entry.1 + 1) entry.2 := by
  rw [mirrors.rows, List.filter_map]
  rfl

theorem Mirrors.latestVersion (mirrors : Mirrors codec log inner rows) (id : String) :
    SqlEventStore.latestVersion rows id = (log.stream id).length := by
  rw [SqlEventStore.latestVersion, rows_of mirrors, List.map_map,
    ← (stamped_iff.mp (mirrors.stamped id)).2.coalesceMax, Log.stream, List.map_map]
  rfl

theorem Mirrors.globalHead (mirrors : Mirrors codec log inner rows) :
    SqlEventStore.globalHead rows = log.length := by
  rw [SqlEventStore.globalHead, mirrors.rows, List.map_map]
  exact mirrors.numbered.coalesceMax

theorem Mirrors.pushAll (mirrors : Mirrors codec log inner rows) {id : String}
    {events : List DomainEvent} (stamped : Stamped id (log.stream id).length events)
    (reads : ∀ event ∈ events, codec.fromJson (codec.toJson event) = .ok event) :
    ∃ (log' : Log) (rows' : List EventRow),
      SqlEventStore.insertAll codec log.length events rows = some rows' ∧
      Mirrors codec log' (events.foldl (MemoryEventStore.push id) inner) rows' ∧
      log'.length = log.length + events.length := by
  induction events generalizing log inner rows with
  | nil => exact ⟨log, rows, rfl, mirrors, rfl⟩
  | cons event events ih =>
    obtain ⟨first, rest⟩ := stamped_append.mp
      (show Stamped id (log.stream id).length ([event] ++ events) from stamped)
    obtain ⟨rfl, version⟩ := stamped_singleton.mp first
    have fresh : SqlEventStore.insertRow rows
        (SqlEventStore.eventRow codec (log.length + 1) event) =
        some (rows ++ [SqlEventStore.eventRow codec (log.length + 1) event]) := by
      apply SqlEventStore.insertRow_fresh
      intro other member same
      -- A row of the same aggregate holds one of the events counted so far.
      have placed : other ∈ rows.filter fun row => row.aggregateId = event.aggregateId :=
        List.mem_filter.mpr ⟨member, decide_eq_true same⟩
      rw [rows_of mirrors] at placed
      obtain ⟨entry, found, rfl⟩ := List.mem_map.mp placed
      have bounds := (stamped_iff.mp (mirrors.stamped event.aggregateId)).2.bounds
        (List.mem_map_of_mem found)
      simp only [SqlEventStore.eventRow]
      omega
    have pushed := mirrors.push version (reads event (by simp))
    obtain ⟨log', rows', inserted, mirrored, longer⟩ := ih pushed
      (by simpa [Log.stream_concat] using rest) (fun other member => reads other (by simp [member]))
    refine ⟨log', rows', ?_, mirrored, ?_⟩
    · rw [SqlEventStore.insertAll, fresh]
      simpa using inserted
    · rw [longer, List.length_append, List.length_cons, List.length_cons, List.length_nil]
      omega

end Appends

theorem mapM_ok {α β : Type} {read : α → Except EventSourcingError β} {value : α → β} {xs : List α}
    (ok : ∀ x ∈ xs, read x = .ok (value x)) : xs.mapM read = .ok (xs.map value) := by
  induction xs with
  | nil => rfl
  | cons x xs ih =>
    rw [List.mapM_cons, ok x (by simp), ih fun other member => ok other (by simp [member])]
    rfl

section Reads

variable {codec : EventCodec} {log : Log} {inner : MemoryState} {rows : List EventRow}

theorem decode_entry (upcasters : List EventUpcaster) (mirrors : Mirrors codec log inner rows)
    {entry : Nat × DomainEvent} (member : entry ∈ log) :
    SqlEventStore.decode codec ⟨rows, upcasters⟩ (SqlEventStore.eventRow codec (entry.1 + 1) entry.2) =
      .ok (applyUpcasters entry.2 upcasters) := by
  have payload : (SqlEventStore.eventRow codec (entry.1 + 1) entry.2).payload =
    codec.toJson entry.2 := rfl
  rw [SqlEventStore.decode, payload, mirrors.reads entry member]

theorem decode_stream (upcasters : List EventUpcaster) (mirrors : Mirrors codec log inner rows)
    (id : String) (keep : DomainEvent → Bool) :
    (orderBy EventRow.version (((log.filter fun entry => entry.2.aggregateId = id).filter
      fun entry => keep entry.2).map fun entry =>
        SqlEventStore.eventRow codec (entry.1 + 1) entry.2)).mapM
          (SqlEventStore.decode codec ⟨rows, upcasters⟩) =
      .ok (((log.stream id).filter keep).map (applyUpcasters · upcasters)) := by
  rw [orderBy_sorted, List.mapM_map, mapM_ok, Log.stream, List.filter_map, List.map_map]
  · rfl
  · intro entry member
    exact decode_entry upcasters mirrors (List.mem_filter.mp (List.mem_filter.mp member).1).1
  · have ordered := (stamped_iff.mp (mirrors.stamped id)).2.pairwise
    rw [Log.stream, List.pairwise_map] at ordered
    exact List.pairwise_map.mpr ((ordered.filter _).imp fun below => le_of_lt below)

theorem Mirrors.load (upcasters : List EventUpcaster) (mirrors : Mirrors codec log inner rows)
    (id : String) :
    SqlEventStore.load codec ⟨rows, upcasters⟩ id = MemoryEventStore.load ⟨inner, upcasters⟩ id := by
  have whole := decode_stream upcasters mirrors id fun _ => true
  simp only [List.filter_true] at whole
  rw [SqlEventStore.load, MemoryEventStore.load, MemoryEventStore.streamOf, mirrors.streams,
    rows_of mirrors]
  by_cases empty : log.stream id = []
  · have none : (log.filter fun entry => entry.2.aggregateId = id) = [] := by
      rwa [Log.stream, List.map_eq_nil_iff] at empty
    simp [empty, none]
  · have some : (log.filter fun entry => entry.2.aggregateId = id) ≠ [] := by
      rwa [Log.stream, List.map_eq_nil_iff] at empty
    simp only [orderBy_eq_nil, List.map_eq_nil_iff, if_neg some, if_neg empty]
    exact whole

theorem Mirrors.loadAfter (upcasters : List EventUpcaster)
    (mirrors : Mirrors codec log inner rows) (id : String) (since : Int) :
    SqlEventStore.loadAfter codec ⟨rows, upcasters⟩ id since =
      MemoryEventStore.loadAfter ⟨inner, upcasters⟩ id since := by
  rw [MemoryEventStore.loadAfter, MemoryEventStore.streamOf, mirrors.streams,
    ← decode_stream upcasters mirrors id fun event => since < event.version, SqlEventStore.loadAfter]
  congr 2
  rw [mirrors.rows, List.filter_map, List.filter_filter]
  congr 1
  refine List.filter_congr fun entry _ => ?_
  simp [SqlEventStore.eventRow, Bool.and_comm]

theorem memoryPage_eq (upcasters : List EventUpcaster) {limit : Nat} (tenant : Option String)
    (entries : List (String × DomainEvent)) {out : List StreamedEvent} (room : out.length < limit) :
    MemoryEventStore.page upcasters limit tenant entries out = out ++
      ((entries.filter fun entry => MemoryEventStore.tenantMatches tenant entry.2).take
        (limit - out.length)).map fun entry => ⟨entry.1, applyUpcasters entry.2 upcasters⟩ := by
  induction entries generalizing out with
  | nil => simp [MemoryEventStore.page]
  | cons entry entries ih =>
    rw [MemoryEventStore.page]
    by_cases own : MemoryEventStore.tenantMatches tenant entry.2
    · rw [if_pos own, List.filter_cons, if_pos own]
      obtain ⟨rest, open'⟩ : ∃ rest, limit - out.length = rest + 1 := ⟨limit - out.length - 1, by omega⟩
      rw [open', List.take_succ_cons, List.map_cons]
      simp only [List.length_append, List.length_singleton]
      split
      · have full : rest = 0 := by omega
        simp [full]
      · rw [ih (by simp only [List.length_append, List.length_singleton]; omega)]
        have left : limit - (out ++ [(⟨entry.1, applyUpcasters entry.2 upcasters⟩ : StreamedEvent)]).length
            = rest := by
          simp only [List.length_append, List.length_singleton]
          omega
        rw [left, List.append_assoc]
        rfl
    · rw [if_neg own, List.filter_cons, if_neg own, ih room]

def Cursor.after : Cursor → Nat
  | .returned position => position + 1
  | _ => 0

def Cursor.Shared : Cursor → Prop
  | .start => True
  | .returned position => position + 1 < 2 ^ 63
  | .other _ => False

theorem cursorToSeq_shared {cursor : Cursor} (shared : cursor.Shared) :
    SqlEventStore.cursorToSeq cursor.sql = cursor.after := by
  cases cursor with
  | start => rfl
  | returned position =>
    exact_mod_cast SqlEventStore.cursorToSeq_eventId (Nat.succ_pos position) shared
  | other cursor => exact shared.elim

theorem Mirrors.findIdx (mirrors : Mirrors codec log inner rows) (position : Nat) :
    inner.all.findIdx? (fun entry => entry.1 = MemoryEventStore.eventId position) =
      if position < log.length then some position else none := by
  have number : ∀ (i : Nat) (inside : i < log.length), log[i].1 = i := by
    intro i inside
    have counted : (log[i].1 : Int) + 1 = 0 + i + 1 := mirrors.numbered i log[i] (by simp)
    omega
  rw [mirrors.all]
  split
  · rename_i inside
    rw [List.findIdx?_eq_some_iff_getElem]
    refine ⟨by simpa using inside, by simp [number position inside], ?_⟩
    intro j before
    simp only [List.getElem_map, decide_eq_true_eq, number j (by omega)]
    intro same
    exact absurd (Decimal.paddedString_injective 20 same) (by omega)
  · rename_i outside
    rw [List.findIdx?_eq_none_iff]
    intro entry member
    obtain ⟨logged, found, rfl⟩ := List.mem_map.mp member
    obtain ⟨i, inside, rfl⟩ := List.getElem_of_mem found
    rw [number i inside, decide_eq_false_iff_not]
    intro same
    exact absurd (Decimal.paddedString_injective 20 same) (by omega)

theorem Mirrors.memoryStream (upcasters : List EventUpcaster)
    (mirrors : Mirrors codec log inner rows) {cursor : Cursor} (shared : cursor.Shared)
    {limit : Nat} (positive : 0 < limit) (tenant : Option String) :
    MemoryEventStore.streamAll ⟨inner, upcasters⟩ cursor.memory limit tenant =
      .ok ((((log.drop cursor.after).filter fun entry =>
        MemoryEventStore.tenantMatches tenant entry.2).take limit).map fun entry =>
          ⟨MemoryEventStore.eventId entry.1, applyUpcasters entry.2 upcasters⟩) := by
  have paged : MemoryEventStore.page upcasters limit tenant (inner.all.drop cursor.after) [] =
      (((log.drop cursor.after).filter fun entry =>
        MemoryEventStore.tenantMatches tenant entry.2).take limit).map fun entry =>
          ⟨MemoryEventStore.eventId entry.1, applyUpcasters entry.2 upcasters⟩ := by
    rw [memoryPage_eq upcasters tenant _ (by simpa using positive), mirrors.all, ← List.map_drop,
      List.filter_map, ← List.map_take, List.map_map]
    rfl
  rw [← paged]
  cases cursor with
  | start => rfl
  | returned position =>
    simp only [Cursor.memory, MemoryEventStore.streamAll, mirrors.findIdx]
    split
    · rename_i none
      have past : log.length ≤ position := by
        by_contra inside
        rw [if_pos (by omega)] at none
        simp at none
      rw [List.drop_eq_nil_of_le (by rw [mirrors.all, List.length_map, Cursor.after]; omega)]
      rfl
    · rename_i found
      split at found
      · obtain rfl := Option.some.inj found
        rfl
      · simp at found
  | other cursor => exact shared.elim

theorem Mirrors.sqlStream (upcasters : List EventUpcaster)
    (mirrors : Mirrors codec log inner rows) {cursor : Cursor} (shared : cursor.Shared)
    {limit : Nat} (isUsize : limit < 2 ^ 64) (few : log.length < 2 ^ 63) (tenant : Option String) :
    SqlEventStore.streamAll codec ⟨rows, upcasters⟩ cursor.sql limit tenant =
      .ok ((((log.drop cursor.after).filter fun entry =>
        MemoryEventStore.tenantMatches tenant entry.2).take limit).map fun entry =>
          ⟨SqlEventStore.eventId (entry.1 + 1), applyUpcasters entry.2 upcasters⟩) := by
  have kept : rows.filter (fun row => (cursor.after : Int) < row.globalSeq &&
      SqlEventStore.tenantMatches tenant row) =
      ((log.drop cursor.after).filter fun entry =>
        MemoryEventStore.tenantMatches tenant entry.2).map fun entry =>
          SqlEventStore.eventRow codec (entry.1 + 1) entry.2 := by
    rw [mirrors.rows, List.filter_map, ← mirrors.numbered.filter, List.filter_filter]
    congr 1
    refine List.filter_congr fun entry _ => ?_
    rw [Bool.and_comm]
    simp only [Function.comp, SqlEventStore.eventRow]
    congr 1
    exact decide_eq_decide.mpr ⟨fun _ => by omega, fun _ => by omega⟩
  have ordered : (((log.drop cursor.after).filter fun entry =>
      MemoryEventStore.tenantMatches tenant entry.2).map fun entry =>
        SqlEventStore.eventRow codec (entry.1 + 1) entry.2).Pairwise
          fun a b => a.globalSeq ≤ b.globalSeq := by
    rw [List.pairwise_map]
    exact ((mirrors.numbered.pairwise.drop).filter _).imp fun below => le_of_lt below
  rw [SqlEventStore.streamAll, SqlEventStore.page, cursorToSeq_shared shared, kept,
    orderBy_sorted ordered, SqlEventStore.limitTo_asI64 isUsize, ← List.map_take, List.mapM_map, mapM_ok]
  · intro entry member
    have listed := List.mem_of_mem_drop (List.mem_filter.mp (List.mem_of_mem_take member)).1
    simp only [Function.comp, SqlEventStore.streamed, decode_entry upcasters mirrors listed]
    rfl
  · rw [List.length_map]
    calc _ ≤ (log.drop cursor.after).length := List.length_filter_le _ _
      _ ≤ log.length := by rw [List.length_drop]; omega
      _ < 2 ^ 63 := few

end Reads

def Call.stamped : Call → Call
  | .append aggregateId expectedVersion events =>
    .append aggregateId expectedVersion
      (SqlEventStore.stampAll aggregateId expectedVersion events)
  | call => call

def Call.size : Call → Nat
  | .append _ _ events => events.length
  | _ => 0

def Call.Shared (codec : EventCodec) : Call → Prop
  | .append aggregateId expectedVersion events =>
    ∀ event ∈ SqlEventStore.stampAll aggregateId expectedVersion events,
      codec.fromJson (codec.toJson event) = .ok event
  | .streamAll afterEventId limit _ => afterEventId.Shared ∧ 0 < limit ∧ limit < 2 ^ 64
  | _ => True

def renamedId (id : String) : String := SqlEventStore.eventId (Decimal.value id.toList + 1)

def Reply.renamed (rename : String → String) : Reply → Reply
  | .page (.ok listed) => .page (.ok (listed.map fun one => ⟨rename one.eventId, one.event⟩))
  | reply => reply

def Reply.outcome : Reply → Except EventSourcingError Unit
  | .appended result => result
  | .events result => result.map fun _ => ()
  | .page result => result.map fun _ => ()

theorem renamedId_eventId (position : Nat) :
    renamedId (MemoryEventStore.eventId position) = SqlEventStore.eventId (position + 1) := by
  rw [renamedId, MemoryEventStore.eventId, Decimal.paddedString, String.toList_ofList,
    Decimal.value_padded]

section Histories

variable {codec : EventCodec} {log : Log} {inner : MemoryState} {rows : List EventRow}

theorem Mirrors.append (upcasters : List EventUpcaster) (mirrors : Mirrors codec log inner rows)
    {id : String} {expected : Int} {events : List DomainEvent}
    (reads : ∀ event ∈ SqlEventStore.stampAll id expected events,
      codec.fromJson (codec.toJson event) = .ok event) :
    ∃ (result : Except EventSourcingError Unit) (log' : Log) (inner' : MemoryState)
      (rows' : List EventRow),
      SqlEventStore.append codec ⟨rows, upcasters⟩ id expected events =
        (result, ⟨rows', upcasters⟩) ∧
      MemoryEventStore.append ⟨inner, upcasters⟩ id expected
        (SqlEventStore.stampAll id expected events) = (result, ⟨inner', upcasters⟩) ∧
      Mirrors codec log' inner' rows' ∧ log'.length ≤ log.length + events.length := by
  have head := mirrors.latestVersion id
  rw [SqlEventStore.append, MemoryEventStore.append, MemoryEventStore.streamOf, mirrors.streams]
  simp only [SqlEventStore.stampAll_eq_nil, head]
  by_cases empty : events = []
  · simp only [if_pos empty]
    exact ⟨.ok (), log, inner, rows, rfl, rfl, mirrors, by omega⟩
  · simp only [if_neg empty]
    by_cases same : expected = (log.stream id).length
    · have stamped := SqlEventStore.stampAll_stamped id expected events
      rw [same] at stamped reads
      obtain ⟨log', rows', inserted, mirrored, longer⟩ := mirrors.pushAll stamped reads
      rw [if_neg (by simp [same]), if_neg (by simp [same]), mirrors.globalHead, same, inserted]
      refine ⟨.ok (), log', _, rows', rfl, rfl, mirrored, ?_⟩
      rw [longer, SqlEventStore.stampAll, List.length_mapIdx]
    · rw [if_pos (Ne.symm same), if_pos same]
      exact ⟨.error .concurrency, log, inner, rows, rfl, rfl, mirrors, by omega⟩

-- One call to both stores: the same reply up to the ids, and the stores stay in step.
theorem Mirrors.reply (upcasters : List EventUpcaster) (mirrors : Mirrors codec log inner rows)
    {call : Call} (shared : call.Shared codec) (few : log.length < 2 ^ 63) :
    ∃ (reply : Reply) (log' : Log) (inner' : MemoryState) (rows' : List EventRow),
      sqlReply codec ⟨rows, upcasters⟩ call = (reply.renamed renamedId, ⟨rows', upcasters⟩) ∧
      memoryReply ⟨inner, upcasters⟩ call.stamped = (reply, ⟨inner', upcasters⟩) ∧
      Mirrors codec log' inner' rows' ∧ log'.length ≤ log.length + call.size := by
  cases call with
  | append id expected events =>
    obtain ⟨result, log', inner', rows', sql, memory, mirrored, longer⟩ :=
      mirrors.append upcasters shared
    refine ⟨.appended result, log', inner', rows', ?_, ?_, mirrored, longer⟩
    · rw [sqlReply, sql]
      rfl
    · rw [Call.stamped, memoryReply, memory]
  | load id =>
    refine ⟨.events (MemoryEventStore.load ⟨inner, upcasters⟩ id), log, inner, rows, ?_, rfl,
      mirrors, by omega⟩
    rw [sqlReply, mirrors.load]
    rfl
  | loadAfter id since =>
    refine ⟨.events (MemoryEventStore.loadAfter ⟨inner, upcasters⟩ id since), log, inner, rows, ?_,
      rfl, mirrors, by omega⟩
    rw [sqlReply, mirrors.loadAfter]
    rfl
  | streamAll cursor limit tenant =>
    obtain ⟨ownCursor, positive, isUsize⟩ := shared
    refine ⟨.page (MemoryEventStore.streamAll ⟨inner, upcasters⟩ cursor.memory limit tenant), log,
      inner, rows, ?_, rfl, mirrors, by omega⟩
    rw [sqlReply, mirrors.sqlStream upcasters ownCursor isUsize few,
      mirrors.memoryStream upcasters ownCursor positive]
    simp only [Reply.renamed, List.map_map]
    congr 3
    refine List.map_congr_left fun entry _ => ?_
    simp [renamedId_eventId]

theorem replies_agree (upcasters : List EventUpcaster) (mirrors : Mirrors codec log inner rows)
    {calls : List Call} (shared : ∀ call ∈ calls, call.Shared codec)
    (few : log.length + (calls.map Call.size).sum < 2 ^ 63) :
    replies (sqlReply codec) ⟨rows, upcasters⟩ calls =
      (replies memoryReply ⟨inner, upcasters⟩ (calls.map Call.stamped)).map (Reply.renamed renamedId) := by
  induction calls generalizing log inner rows with
  | nil => rfl
  | cons call calls ih =>
    rw [List.map_cons, List.sum_cons] at few
    obtain ⟨reply, log', inner', rows', sql, memory, mirrored, longer⟩ :=
      mirrors.reply upcasters (shared call (by simp)) (by omega)
    have rest := ih mirrored (fun other member => shared other (by simp [member])) (by omega)
    simp only [replies, List.map_cons, sql, memory, rest]

def Alike (first second : MemoryState) : Prop :=
  ∀ id, (first.streams.getD id []).length = (second.streams.getD id []).length

theorem Alike.pushAll {first second : MemoryState} (alike : Alike first second) (id : String)
    {events others : List DomainEvent} (same : events.length = others.length) :
    Alike (events.foldl (MemoryEventStore.push id) first)
      (others.foldl (MemoryEventStore.push id) second) := by
  intro other
  rw [MemoryEventStore.push_streams, MemoryEventStore.push_streams]
  split
  · rw [List.length_append, List.length_append, alike id, same]
  · exact alike other

theorem Alike.reply (upcasters : List EventUpcaster) {first second : MemoryState}
    (alike : Alike first second) (call : Call) :
    ∃ first' second' : MemoryState, Alike first' second' ∧
      (memoryReply ⟨first, upcasters⟩ call).2 = ⟨first', upcasters⟩ ∧
      (memoryReply ⟨second, upcasters⟩ call.stamped).2 = ⟨second', upcasters⟩ ∧
      (memoryReply ⟨first, upcasters⟩ call).1.outcome =
        (memoryReply ⟨second, upcasters⟩ call.stamped).1.outcome := by
  cases call with
  | append id expected events =>
    simp only [Call.stamped, memoryReply]
    by_cases head : expected = (second.streams.getD id []).length
    · rw [MemoryEventStore.append_at_head _ (head.trans (by simp [MemoryEventStore.streamOf, alike id])),
        MemoryEventStore.append_at_head _ head]
      exact ⟨_, _, alike.pushAll id (by simp [SqlEventStore.stampAll]), rfl, rfl, rfl⟩
    · by_cases empty : events = []
      · rw [empty]
        exact ⟨first, second, alike, rfl, rfl, rfl⟩
      · have stampedPending : SqlEventStore.stampAll id expected events ≠ [] :=
          mt SqlEventStore.stampAll_eq_nil.mp empty
        rw [MemoryEventStore.append_behind empty (by simpa [MemoryEventStore.streamOf, alike id]),
          MemoryEventStore.append_behind stampedPending head]
        exact ⟨first, second, alike, rfl, rfl, rfl⟩
  | load id =>
    refine ⟨first, second, alike, rfl, rfl, ?_⟩
    have empty : first.streams.getD id [] = [] ↔ second.streams.getD id [] = [] := by
      rw [← List.length_eq_zero_iff, alike id, List.length_eq_zero_iff]
    by_cases missing : second.streams.getD id [] = []
    · simp [Call.stamped, memoryReply, Reply.outcome, MemoryEventStore.load,
        MemoryEventStore.streamOf, missing, empty.mpr missing]
    · simp [Call.stamped, memoryReply, Reply.outcome, MemoryEventStore.load,
        MemoryEventStore.streamOf, missing, mt empty.mp missing, Except.map]
  | loadAfter id since => exact ⟨first, second, alike, rfl, rfl, rfl⟩
  | streamAll cursor limit tenant =>
    refine ⟨first, second, alike, rfl, rfl, ?_⟩
    have answers : ∀ inner : MemoryState, (MemoryEventStore.streamAll ⟨inner, upcasters⟩
        cursor.memory limit tenant).map (fun _ => ()) = .ok () := by
      intro inner
      simp only [MemoryEventStore.streamAll]
      split
      · rfl
      · split <;> rfl
    exact (answers first).trans (answers second).symm

theorem outcomes_alike (upcasters : List EventUpcaster) {first second : MemoryState}
    (alike : Alike first second) (calls : List Call) :
    (replies memoryReply ⟨first, upcasters⟩ calls).map Reply.outcome =
      (replies memoryReply ⟨second, upcasters⟩ (calls.map Call.stamped)).map Reply.outcome := by
  induction calls generalizing first second with
  | nil => rfl
  | cons call calls ih =>
    obtain ⟨first', second', after, left, right, same⟩ := alike.reply upcasters call
    have rest := ih after
    simp only [replies, List.map_cons, left, right, same, rest]

theorem outcome_renamed (rename : String → String) (reply : Reply) :
    (reply.renamed rename).outcome = reply.outcome := by
  cases reply with
  | appended result => rfl
  | events result => rfl
  | page result => cases result <;> rfl

theorem stores_agree (upcasters : List EventUpcaster) {calls : List Call}
    (shared : ∀ call ∈ calls, call.Shared codec)
    (few : (calls.map Call.size).sum < 2 ^ 63) :
    replies (sqlReply codec) ⟨[], upcasters⟩ calls =
        (replies memoryReply ⟨{}, upcasters⟩ (calls.map Call.stamped)).map (Reply.renamed renamedId) ∧
      (replies (sqlReply codec) ⟨[], upcasters⟩ calls).map Reply.outcome =
        (replies memoryReply ⟨{}, upcasters⟩ calls).map Reply.outcome := by
  have agree := replies_agree upcasters (mirrors_empty codec) shared (by simpa using few)
  refine ⟨agree, ?_⟩
  rw [agree, List.map_map, outcomes_alike upcasters (fun _ => rfl) calls]
  exact List.map_congr_left fun reply _ => outcome_renamed renamedId reply

end Histories

theorem opened_reads : openedCodec.fromJson (openedCodec.toJson (opened "a" 1)) =
    .ok (opened "a" 1) := by
  simp only [openedCodec, if_true]

def opening : List Call :=
  [.append "a" 0 [opened "a" 7], .append "a" 0 [opened "a" 1], .load "a", .loadAfter "a" 0,
    .streamAll .start 1 none, .streamAll (.returned 0) 1 (some "t")]

theorem opening_agrees :
    replies (sqlReply openedCodec) ⟨[], []⟩ opening =
        (replies memoryReply ⟨{}, []⟩ (opening.map Call.stamped)).map (Reply.renamed renamedId) ∧
      (replies (sqlReply openedCodec) ⟨[], []⟩ opening).map Reply.outcome =
        (replies memoryReply ⟨{}, []⟩ opening).map Reply.outcome := by
  refine stores_agree [] ?_ (by decide)
  intro call member
  simp only [opening, List.mem_cons, List.not_mem_nil, or_false] at member
  rcases member with rfl | rfl | rfl | rfl | rfl | rfl
  · intro event member
    rw [show event = opened "a" 1 from List.mem_singleton.mp member]
    exact opened_reads
  · intro event member
    rw [show event = opened "a" 1 from List.mem_singleton.mp member]
    exact opened_reads
  · trivial
  · trivial
  · simp [Call.Shared, Cursor.Shared]
  · simp [Call.Shared, Cursor.Shared]

theorem unknown_cursor_differs : ¬ ∃ rename : String → String,
    replies (sqlReply openedCodec) ⟨[], []⟩
        [.append "a" 0 [opened "a" 1], .streamAll (.other "x") 1 none] =
      (replies memoryReply ⟨{}, []⟩
        [.append "a" 0 [opened "a" 1], .streamAll (.other "x") 1 none]).map (Reply.renamed rename) := by
  rintro ⟨rename, same⟩
  have memory : replies memoryReply ⟨{}, []⟩
      [.append "a" 0 [opened "a" 1], .streamAll (.other "x") 1 none] =
      [.appended (.ok ()), .page (.ok [])] := rfl
  have sql : replies (sqlReply openedCodec) ⟨[], []⟩
      [.append "a" 0 [opened "a" 1], .streamAll (.other "x") 1 none] =
      [.appended (.ok ()), .page (.ok [⟨"00000000000000000001", opened "a" 1⟩])] := rfl
  rw [memory, sql] at same
  simp [Reply.renamed] at same

end Firefly.Eventsourcing.StoreAgreement
