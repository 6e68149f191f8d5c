import Firefly.Shared.Decimal
import Firefly.Shared.Json
import Firefly.Shared.Sql

set_option autoImplicit false

namespace Firefly.Eventsourcing

open Json Sql

inductive EventSourcingError where
  | concurrency
  | aggregateNotFound
  | projection (message : String)
deriving DecidableEq, Repr

def EventSourcingError.toString : EventSourcingError → String
  | .concurrency => "firefly/eventsourcing: concurrency conflict"
  | .aggregateNotFound => "firefly/eventsourcing: aggregate not found"
  | .projection message => "firefly/eventsourcing: projection error: " ++ message

structure DomainEvent where
  aggregateId : String
  aggregateType : String
  version : Int
  eventType : String
  time : Int
  payload : List UInt8
  metadata : Fields := []
  tenantId : Option String := none
deriving DecidableEq

structure AggregateRoot where
  id : String := ""
  aggregateType : String := ""
  version : Int := 0
  tenantId : Option String := none
  uncommitted : List DomainEvent := []
deriving DecidableEq

namespace AggregateRoot

def nextEvent (root : AggregateRoot) (eventType : String) (payload : List UInt8) (now : Int) :
    DomainEvent where
  aggregateId := root.id
  aggregateType := root.aggregateType
  version := root.version + 1
  eventType := eventType
  time := now
  payload := payload
  tenantId := root.tenantId

def raise (root : AggregateRoot) (eventType : String) (payload : List UInt8) (now : Int) :
    AggregateRoot :=
  { root with
    version := root.version + 1
    uncommitted := root.uncommitted ++ [root.nextEvent eventType payload now] }

def takeUncommitted (root : AggregateRoot) : List DomainEvent × AggregateRoot :=
  (root.uncommitted, { root with uncommitted := [] })

end AggregateRoot

def Stamped (id : String) (expected : Int) (events : List DomainEvent) : Prop :=
  ∀ (i : Nat) (event : DomainEvent), events[i]? = some event →
    event.aggregateId = id ∧ event.version = expected + i + 1

theorem stamped_iff {id : String} {expected : Int} {events : List DomainEvent} :
    Stamped id expected events ↔
      (∀ event ∈ events, event.aggregateId = id) ∧ Counted DomainEvent.version expected events := by
  constructor
  · intro stamped
    refine ⟨fun event member => ?_, fun i event found => (stamped i event found).2⟩
    obtain ⟨i, found⟩ := List.getElem?_of_mem member
    exact (stamped i event found).1
  · rintro ⟨own, counted⟩ i event found
    exact ⟨own event (List.mem_of_getElem? found), counted i event found⟩

theorem stamped_nil (id : String) (expected : Int) : Stamped id expected [] :=
  stamped_iff.mpr ⟨by simp, counted_nil _ _⟩

theorem stamped_append {id : String} {expected : Int} {first second : List DomainEvent} :
    Stamped id expected (first ++ second) ↔
      Stamped id expected first ∧ Stamped id (expected + first.length) second := by
  simp only [stamped_iff, counted_append, List.forall_mem_append]
  constructor
  · rintro ⟨⟨ownFirst, ownSecond⟩, countedFirst, countedSecond⟩
    exact ⟨⟨ownFirst, countedFirst⟩, ownSecond, countedSecond⟩
  · rintro ⟨⟨ownFirst, countedFirst⟩, ownSecond, countedSecond⟩
    exact ⟨⟨ownFirst, ownSecond⟩, countedFirst, countedSecond⟩

theorem stamped_singleton {id : String} {expected : Int} {event : DomainEvent} :
    Stamped id expected [event] ↔ event.aggregateId = id ∧ event.version = expected + 1 := by
  simp [stamped_iff, counted_singleton]

theorem filter_stamped {id : String} {expected : Int} {events : List DomainEvent}
    (stamped : Stamped id expected events) (skip : Nat) :
    (events.filter fun event => expected + skip < event.version) = events.drop skip :=
  (stamped_iff.mp stamped).2.filter skip

structure StreamedEvent where
  eventId : String
  event : DomainEvent
deriving DecidableEq

structure EventStore (σ : Type) where
  append : σ → String → Int → List DomainEvent → Except EventSourcingError Unit × σ
  loadAfter : σ → String → Int → Except EventSourcingError (List DomainEvent)
  stream : σ → String → List DomainEvent
  accepts : σ → String → Int → Bool
  atHead : ∀ s id expected, accepts s id expected → expected = (stream s id).length
  accepted : ∀ s id expected events, events ≠ [] → Stamped id expected events →
    accepts s id expected → (append s id expected events).1 = .ok () ∧
      stream (append s id expected events).2 = Function.update (stream s) id (stream s id ++ events)
  refused : ∀ s id expected events, events ≠ [] → accepts s id expected = false →
    (∃ error, (append s id expected events).1 = .error error) ∧
      stream (append s id expected events).2 = stream s
  loads : ∀ s id since events, loadAfter s id since = .ok events →
    events = (stream s id).filter fun event => since < event.version

structure EventUpcaster where
  appliesTo : DomainEvent → Bool
  upcast : DomainEvent → DomainEvent

def applyUpcasters (event : DomainEvent) (upcasters : List EventUpcaster) : DomainEvent :=
  upcasters.foldl (fun event upcaster =>
    if upcaster.appliesTo event then upcaster.upcast event else event) event

structure MemoryState where
  streams : Std.TreeMap String (List DomainEvent) := ∅
  all : List (String × DomainEvent) := []
  nextSeq : Nat := 0

structure MemoryEventStore where
  inner : MemoryState := {}
  upcasters : List EventUpcaster := []

namespace MemoryEventStore

def eventId (seq : Nat) : String := Decimal.paddedString 20 seq

def streamOf (store : MemoryEventStore) (aggregateId : String) : List DomainEvent :=
  store.inner.streams.getD aggregateId []

def push (aggregateId : String) (inner : MemoryState) (event : DomainEvent) : MemoryState where
  streams := inner.streams.insert aggregateId (inner.streams.getD aggregateId [] ++ [event])
  all := inner.all ++ [(eventId inner.nextSeq, event)]
  nextSeq := inner.nextSeq + 1

def append (store : MemoryEventStore) (aggregateId : String) (expectedVersion : Int)
    (events : List DomainEvent) : Except EventSourcingError Unit × MemoryEventStore :=
  if events = [] then (.ok (), store)
  else if expectedVersion ≠ (store.streamOf aggregateId).length then (.error .concurrency, store)
  else (.ok (), { store with inner := events.foldl (push aggregateId) store.inner })

def load (store : MemoryEventStore) (aggregateId : String) :
    Except EventSourcingError (List DomainEvent) :=
  let events := store.streamOf aggregateId
  if events = [] then .error .aggregateNotFound
  else .ok (events.map (applyUpcasters · store.upcasters))

def loadAfter (store : MemoryEventStore) (aggregateId : String) (sinceVersion : Int) :
    Except EventSourcingError (List DomainEvent) :=
  .ok (((store.streamOf aggregateId).filter fun event => sinceVersion < event.version).map
    (applyUpcasters · store.upcasters))

def tenantMatches (tenant : Option String) (event : DomainEvent) : Bool :=
  tenant.all fun t => event.tenantId = some t

def page (upcasters : List EventUpcaster) (limit : Nat) (tenant : Option String) :
    List (String × DomainEvent) → List StreamedEvent → List StreamedEvent
  | [], out => out
  | (id, event) :: rest, out =>
    if tenantMatches tenant event then
      let out := out ++ [⟨id, applyUpcasters event upcasters⟩]
      if limit ≤ out.length then out else page upcasters limit tenant rest out
    else page upcasters limit tenant rest out

def streamAll (store : MemoryEventStore) (afterEventId : Option String) (limit : Nat)
    (tenant : Option String) : Except EventSourcingError (List StreamedEvent) :=
  match afterEventId with
  | none => .ok (page store.upcasters limit tenant store.inner.all [])
  | some cursor =>
    match store.inner.all.findIdx? fun entry => entry.1 = cursor with
    | none => .ok []
    | some idx => .ok (page store.upcasters limit tenant (store.inner.all.drop (idx + 1)) [])

theorem push_streams (aggregateId id : String) (events : List DomainEvent) (inner : MemoryState) :
    (events.foldl (push aggregateId) inner).streams.getD id [] =
      if id = aggregateId then inner.streams.getD aggregateId [] ++ events
      else inner.streams.getD id [] := by
  induction events generalizing inner with
  | nil => simp +contextual
  | cons event events ih =>
    rw [List.foldl_cons, ih]
    by_cases same : id = aggregateId
    · simp [same, push]
    · simp [same, push, Std.TreeMap.getD_insert, Ne.symm same]

theorem append_at_head {store : MemoryEventStore} {aggregateId : String} {expectedVersion : Int}
    (events : List DomainEvent) (head : expectedVersion = (store.streamOf aggregateId).length) :
    store.append aggregateId expectedVersion events =
      (.ok (), { store with inner := events.foldl (push aggregateId) store.inner }) := by
  by_cases empty : events = []
  · simp [append, empty]
  · simp [append, empty, head]

theorem append_behind {store : MemoryEventStore} {aggregateId : String} {expectedVersion : Int}
    {events : List DomainEvent} (nonempty : events ≠ [])
    (behind : expectedVersion ≠ (store.streamOf aggregateId).length) :
    store.append aggregateId expectedVersion events = (.error .concurrency, store) := by
  simp [append, nonempty, behind]

def port : EventStore MemoryState where
  append s id expected events :=
    let result := append { inner := s } id expected events
    (result.1, result.2.inner)
  loadAfter s id since := loadAfter { inner := s } id since
  stream s id := s.streams.getD id []
  accepts s id expected := decide (expected = (s.streams.getD id []).length)
  atHead s id expected accepted := by simpa using accepted
  accepted s id expected events nonempty _ accepted := by
    have head : expected = (s.streams.getD id []).length := by simpa using accepted
    simp only [append, nonempty, streamOf, head, ne_eq, not_true_eq_false, if_false, true_and]
    funext other
    rw [push_streams, Function.update_apply]
  refused s id expected events nonempty rejected := by
    have behind : expected ≠ (s.streams.getD id []).length := by simpa using rejected
    simp [append, nonempty, streamOf, behind]
  loads s id since events loaded := by
    simpa [loadAfter, streamOf, applyUpcasters] using loaded.symm

end MemoryEventStore

end Firefly.Eventsourcing
