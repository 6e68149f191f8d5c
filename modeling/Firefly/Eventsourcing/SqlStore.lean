import Firefly.Eventsourcing.Aggregate
import Firefly.Shared.Sql

set_option autoImplicit false

namespace Firefly.Eventsourcing

open Sql

/-- The texts that `serde_json` and `chrono` write, and what `serde_json` reads back. -/
structure EventCodec where
  toJson : DomainEvent → String
  fromJson : String → Except String DomainEvent
  toRfc3339 : Int → String

structure EventRow where
  globalSeq : Int
  eventId : String
  aggregateId : String
  aggregateType : String
  version : Int
  eventType : String
  occurredAt : String
  tenantId : Option String
  payload : String
deriving DecidableEq

/-- The rows of `firefly_event_store` in the order of their insertion. -/
structure SqlEventStore where
  rows : List EventRow := []
  upcasters : List EventUpcaster := []

namespace SqlEventStore

def latestVersion (rows : List EventRow) (aggregateId : String) : Int :=
  coalesceMax ((rows.filter fun row => row.aggregateId = aggregateId).map EventRow.version)

def globalHead (rows : List EventRow) : Int := coalesceMax (rows.map EventRow.globalSeq)

def stamp (aggregateId : String) (version : Int) (event : DomainEvent) : DomainEvent :=
  { event with aggregateId := aggregateId, version := version }

def stampAll (aggregateId : String) (expectedVersion : Int) (events : List DomainEvent) :
    List DomainEvent :=
  events.mapIdx fun i event => stamp aggregateId (expectedVersion + i + 1) event

def eventId (globalSeq : Int) : String := Decimal.paddedString 20 globalSeq.toNat

def eventRow (codec : EventCodec) (globalSeq : Int) (stamped : DomainEvent) : EventRow where
  globalSeq := globalSeq
  eventId := eventId globalSeq
  aggregateId := stamped.aggregateId
  aggregateType := stamped.aggregateType
  version := stamped.version
  eventType := stamped.eventType
  occurredAt := codec.toRfc3339 stamped.time
  tenantId := stamped.tenantId
  payload := codec.toJson stamped

def insertRow (rows : List EventRow) (row : EventRow) : Option (List EventRow) :=
  if rows.any fun other => other.aggregateId = row.aggregateId ∧ other.version = row.version then
    none
  else some (rows ++ [row])

def insertAll (codec : EventCodec) : Int → List DomainEvent → List EventRow →
    Option (List EventRow)
  | _, [], rows => some rows
  | globalSeq, stamped :: rest, rows =>
    match insertRow rows (eventRow codec (globalSeq + 1) stamped) with
    | none => none
    | some rows => insertAll codec (globalSeq + 1) rest rows

def append (codec : EventCodec) (store : SqlEventStore) (aggregateId : String)
    (expectedVersion : Int) (events : List DomainEvent) :
    Except EventSourcingError Unit × SqlEventStore :=
  if events = [] then (.ok (), store)
  else if latestVersion store.rows aggregateId ≠ expectedVersion then (.error .concurrency, store)
  else
    let stamped := stampAll aggregateId expectedVersion events
    match insertAll codec (globalHead store.rows) stamped store.rows with
    | none => (.error .concurrency, store)
    | some rows => (.ok (), { store with rows := rows })

def corrupt (message : String) : EventSourcingError :=
  .projection ("firefly/eventsourcing: corrupt stored event: " ++ message)

def decode (codec : EventCodec) (store : SqlEventStore) (row : EventRow) :
    Except EventSourcingError DomainEvent :=
  match codec.fromJson row.payload with
  | .error message => .error (corrupt message)
  | .ok event => .ok (applyUpcasters event store.upcasters)

def load (codec : EventCodec) (store : SqlEventStore) (aggregateId : String) :
    Except EventSourcingError (List DomainEvent) :=
  let rows := orderBy EventRow.version (store.rows.filter fun row => row.aggregateId = aggregateId)
  if rows = [] then .error .aggregateNotFound else rows.mapM (decode codec store)

def loadAfter (codec : EventCodec) (store : SqlEventStore) (aggregateId : String)
    (sinceVersion : Int) : Except EventSourcingError (List DomainEvent) :=
  (orderBy EventRow.version (store.rows.filter fun row =>
    row.aggregateId = aggregateId ∧ sinceVersion < row.version)).mapM (decode codec store)

def cursorToSeq : Option String → Int
  | none => 0
  | some cursor => (Decimal.parseI64 (cursor.toList.dropWhile (· = '0'))).getD 0

def asI64 (limit : Nat) : Int := if limit < 2 ^ 63 then limit else (limit : Int) - 2 ^ 64

def tenantMatches (tenant : Option String) (row : EventRow) : Bool :=
  tenant.all fun t => row.tenantId = some t

def page (rows : List EventRow) (after : Int) (limit : Int) (tenant : Option String) :
    List EventRow :=
  limitTo limit (orderBy EventRow.globalSeq
    (rows.filter fun row => after < row.globalSeq && tenantMatches tenant row))

def streamed (codec : EventCodec) (store : SqlEventStore) (row : EventRow) :
    Except EventSourcingError StreamedEvent :=
  match decode codec store row with
  | .error error => .error error
  | .ok event => .ok ⟨eventId row.globalSeq, event⟩

def streamAll (codec : EventCodec) (store : SqlEventStore) (afterEventId : Option String)
    (limit : Nat) (tenant : Option String) : Except EventSourcingError (List StreamedEvent) :=
  (page store.rows (cursorToSeq afterEventId) (asI64 limit) tenant).mapM (streamed codec store)

theorem stampAll_stamped (aggregateId : String) (expectedVersion : Int)
    (events : List DomainEvent) :
    Stamped aggregateId expectedVersion (stampAll aggregateId expectedVersion events) := by
  intro i event found
  rw [stampAll, List.getElem?_mapIdx] at found
  obtain ⟨original, -, rfl⟩ := Option.map_eq_some_iff.mp found
  exact ⟨rfl, rfl⟩

theorem stampAll_eq_nil {aggregateId : String} {expectedVersion : Int}
    {events : List DomainEvent} :
    stampAll aggregateId expectedVersion events = [] ↔ events = [] := by
  simp [stampAll]

theorem cursorToSeq_eventId {globalSeq : Nat} (positive : 0 < globalSeq)
    (fits : globalSeq < 2 ^ 63) : cursorToSeq (some (eventId globalSeq)) = globalSeq := by
  rw [cursorToSeq, eventId, Decimal.paddedString, String.toList_ofList, Int.toNat_natCast,
    Decimal.parseI64_padded 20 positive fits, Option.getD_some]

theorem limitTo_asI64 {ρ : Type} {limit : Nat} {rows : List ρ} (isUsize : limit < 2 ^ 64)
    (few : rows.length < 2 ^ 63) : limitTo (asI64 limit) rows = rows.take limit := by
  rw [limitTo, asI64]
  by_cases small : limit < 2 ^ 63
  · rw [if_pos small, if_neg (by omega), Int.toNat_natCast]
  · -- A limit that wraps to a negative number is none, and it is past the end anyway.
    rw [if_neg small, if_pos (by omega), List.take_of_length_le (by omega)]

theorem insertRow_fresh {rows : List EventRow} {row : EventRow}
    (fresh : ∀ other ∈ rows, other.aggregateId = row.aggregateId → other.version < row.version) :
    insertRow rows row = some (rows ++ [row]) := by
  rw [insertRow, if_neg]
  intro taken
  obtain ⟨other, member, same⟩ := List.any_eq_true.mp taken
  simp only [decide_eq_true_eq] at same
  have below := fresh other member same.1
  omega

end SqlEventStore

def opened (aggregateId : String) (version : Int) : DomainEvent where
  aggregateId := aggregateId
  aggregateType := "Account"
  version := version
  eventType := "Opened"
  time := 0
  payload := []

def openedText (aggregateId : String) : String :=
  "\x7b\"aggregateId\":\"" ++ aggregateId ++ "\",\"aggregateType\":\"Account\",\"version\":1," ++
    "\"type\":\"Opened\",\"time\":\"1970-01-01T00:00:00Z\",\"payload\":\"\"\x7d"

def openedCodec : EventCodec where
  toJson event :=
    if event = opened "a" 1 then openedText "a"
    else if event = opened "b" 1 then openedText "b"
    else ""
  fromJson text :=
    if text = openedText "a" then .ok (opened "a" 1)
    else if text = openedText "b" then .ok (opened "b" 1)
    else .error "EOF while parsing a value at line 1 column 0"
  toRfc3339 _ := "1970-01-01T00:00:00+00:00"

end Firefly.Eventsourcing
