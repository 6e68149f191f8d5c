import Firefly.Eventsourcing.Aggregate
import Firefly.Shared.Runs
import Firefly.Shared.Text

set_option autoImplicit false

namespace Firefly.Eventsourcing

open Text

structure Snapshot where
  aggregateId : String
  aggregateType : String
  version : Int
  payload : List UInt8
deriving DecidableEq

structure SnapshotStore (τ : Type) where
  latest : τ → String → Except EventSourcingError (Option Snapshot)
  save : τ → Snapshot → Except EventSourcingError Unit × τ
  holds : τ → Snapshot → Prop
  latest_holds : ∀ s id snap, latest s id = .ok (some snap) → holds s snap ∧ snap.aggregateId = id
  save_holds : ∀ s snap other, holds (save s snap).2 other → holds s other ∨ other = snap

structure MemorySnapshotStore where
  snapshots : Std.TreeMap String Snapshot
  keyed : ∀ (id : String) (snap : Snapshot), snapshots[id]? = some snap → snap.aggregateId = id

namespace MemorySnapshotStore

def empty : MemorySnapshotStore where
  snapshots := ∅
  keyed id snap found := by simp at found

def latest (store : MemorySnapshotStore) (aggregateId : String) :
    Except EventSourcingError (Option Snapshot) :=
  .ok store.snapshots[aggregateId]?

def save (store : MemorySnapshotStore) (snapshot : Snapshot) :
    Except EventSourcingError Unit × MemorySnapshotStore :=
  (.ok (),
    { snapshots := store.snapshots.insert snapshot.aggregateId snapshot
      keyed := by
        intro id snap found
        rw [Std.TreeMap.getElem?_insert] at found
        split at found
        · rename_i same
          obtain rfl : snapshot = snap := by simpa using found
          simpa using same
        · exact store.keyed id snap found })

def port : SnapshotStore MemorySnapshotStore where
  latest := latest
  save := save
  holds store snap := store.snapshots[snap.aggregateId]? = some snap
  latest_holds store id snap found := by
    have listed : store.snapshots[id]? = some snap := by simpa [latest] using found
    have key := store.keyed id snap listed
    exact ⟨key ▸ listed, key⟩
  save_holds store snap other found := by
    simp only [save, Std.TreeMap.getElem?_insert] at found
    split at found
    · exact .inr (by simpa using found.symm)
    · exact .inl found

end MemorySnapshotStore

structure EventSourcedAggregate (α : Type) where
  aggregateType : String
  default : α
  applyEvent : α → DomainEvent → Except EventSourcingError α
  snapshotPayload : α → Except EventSourcingError (List UInt8) := fun _ => .ok []
  restoreSnapshot : α → List UInt8 → Except EventSourcingError α := fun state _ => .ok state

structure Held (α : Type) where
  root : AggregateRoot
  state : α

structure EventSourcedRepository (α σ τ : Type) where
  aggregate : EventSourcedAggregate α
  store : EventStore σ
  snapshots : Option (SnapshotStore τ) := none
  snapshotInterval : Int := 100
  interval_pos : 0 < snapshotInterval := by decide

namespace EventSourcedRepository

variable {α σ τ : Type}

def withSnapshots (aggregate : EventSourcedAggregate α) (store : EventStore σ)
    (snapshots : SnapshotStore τ) (snapshotInterval : Int) : EventSourcedRepository α σ τ where
  aggregate := aggregate
  store := store
  snapshots := some snapshots
  snapshotInterval := max snapshotInterval 1
  interval_pos := by omega

def fresh (repo : EventSourcedRepository α σ τ) (aggregateId : String) : Held α where
  root := { id := aggregateId, aggregateType := repo.aggregate.aggregateType }
  state := repo.aggregate.default

def restore (repo : EventSourcedRepository α σ τ) (snaps : τ) (aggregateId : String) :
    Except EventSourcingError (Held α × Int) :=
  let aggregate := repo.fresh aggregateId
  match repo.snapshots with
  | none => .ok (aggregate, 0)
  | some snapshots =>
    match snapshots.latest snaps aggregateId with
    | .error error => .error error
    | .ok none => .ok (aggregate, 0)
    | .ok (some snap) =>
      match repo.aggregate.restoreSnapshot aggregate.state snap.payload with
      | .error error => .error error
      | .ok state => .ok (⟨{ aggregate.root with version := snap.version }, state⟩, snap.version)

def wrongId (event : DomainEvent) (aggregateId : String) : EventSourcingError :=
  .projection ("firefly/eventsourcing: replayed event aggregate_id " ++ debugStr event.aggregateId ++
    " != loaded aggregate " ++ debugStr aggregateId)

def wrongType (repo : EventSourcedRepository α σ τ) (event : DomainEvent) : EventSourcingError :=
  .projection ("firefly/eventsourcing: replayed event aggregate_type " ++
    debugStr event.aggregateType ++ " != " ++ debugStr repo.aggregate.aggregateType)

def replay (repo : EventSourcedRepository α σ τ) (aggregateId : String) :
    Held α → List DomainEvent → Except EventSourcingError (Held α)
  | aggregate, [] => .ok aggregate
  | aggregate, event :: rest =>
    if event.aggregateId ≠ aggregateId then .error (wrongId event aggregateId)
    else if event.aggregateType ≠ "" ∧ event.aggregateType ≠ repo.aggregate.aggregateType then
      .error (repo.wrongType event)
    else
      match repo.aggregate.applyEvent aggregate.state event with
      | .error error => .error error
      | .ok state =>
        repo.replay aggregateId ⟨{ aggregate.root with version := event.version }, state⟩ rest

def rebuild (repo : EventSourcedRepository α σ τ) (s : σ) (aggregateId : String)
    (restored : Held α × Int) : Except EventSourcingError (Option (Held α)) :=
  match repo.store.loadAfter s aggregateId restored.2 with
  | .error error => .error error
  | .ok events =>
    if events = [] ∧ restored.2 = 0 then .ok none
    else (repo.replay aggregateId restored.1 events).map some

def load (repo : EventSourcedRepository α σ τ) (s : σ) (snaps : τ) (aggregateId : String) :
    Except EventSourcingError (Option (Held α)) :=
  match repo.restore snaps aggregateId with
  | .error error => .error error
  | .ok restored => repo.rebuild s aggregateId restored

def plain (repo : EventSourcedRepository α σ τ) : EventSourcedRepository α σ τ :=
  { repo with snapshots := none }

def expected (held : Held α) : Int := held.root.version - held.root.uncommitted.length

def crossed (repo : EventSourcedRepository α σ τ) (held : Held α) : Bool :=
  (expected held).tdiv repo.snapshotInterval < held.root.version.tdiv repo.snapshotInterval

def nextSnapshot (repo : EventSourcedRepository α σ τ) (held : Held α) :
    Option (Except EventSourcingError Snapshot) :=
  if repo.snapshots.isSome && repo.crossed held then
    some ((repo.aggregate.snapshotPayload held.state).map fun payload =>
      { aggregateId := held.root.id
        aggregateType := repo.aggregate.aggregateType
        version := held.root.version
        payload := payload })
  else none

inductive Appended where
  | empty
  | refused (error : EventSourcingError)
  | done (snapshot : Option (Except EventSourcingError Snapshot))

def appendPending (repo : EventSourcedRepository α σ τ) (s : σ) (held : Held α) :
    Appended × Held α × σ :=
  if held.root.uncommitted = [] then (.empty, held, s)
  else
    let (events, root) := held.root.takeUncommitted
    match repo.store.append s held.root.id (expected held) events with
    | (.error error, s) => (.refused error, { held with root := root }, s)
    | (.ok (), s) => (.done (repo.nextSnapshot held), { held with root := root }, s)

def writeSnapshot (repo : EventSourcedRepository α σ τ) (snaps : τ) (snapshot : Snapshot) :
    Except EventSourcingError Unit × τ :=
  match repo.snapshots with
  | none => (.ok (), snaps)
  | some snapshots => snapshots.save snaps snapshot

structure Saved (α σ τ : Type) where
  result : Except EventSourcingError Unit
  held : Held α
  store : σ
  snaps : τ

def save (repo : EventSourcedRepository α σ τ) (s : σ) (snaps : τ) (held : Held α) :
    Saved α σ τ :=
  match repo.appendPending s held with
  | (.empty, held, s) => ⟨.ok (), held, s, snaps⟩
  | (.refused error, held, s) => ⟨.error error, held, s, snaps⟩
  | (.done none, held, s) => ⟨.ok (), held, s, snaps⟩
  | (.done (some (.error error)), held, s) => ⟨.error error, held, s, snaps⟩
  | (.done (some (.ok snapshot)), held, s) =>
    let (result, snaps) := repo.writeSnapshot snaps snapshot
    ⟨result, held, s, snaps⟩

/-- Where a client of the repository stands. `spoiled` marks an aggregate whose last append was
refused. -/
inductive Client (α : Type) where
  | idle
  | restored (id : String) (aggregate : Held α × Int)
  | holding (held : Held α) (spoiled : Bool)
  | writing (held : Held α) (snapshot : Snapshot)

structure World (α σ τ : Type) where
  store : σ
  snaps : τ
  clients : Nat → Client α

inductive Choice where
  | create (client : Nat) (id : String) (typed : Bool) (tenant : Option String)
  | restore (client : Nat) (id : String)
  | rebuild (client : Nat)
  | raise (client : Nat) (eventType : String) (payload : List UInt8) (now : Int)
  | append (client : Nat)
  | write (client : Nat)

def World.set (w : World α σ τ) (client : Nat) (phase : Client α) : World α σ τ :=
  { w with clients := Function.update w.clients client phase }

def created (repo : EventSourcedRepository α σ τ) (id : String) (typed : Bool)
    (tenant : Option String) : Held α where
  root :=
    { id := id
      aggregateType := if typed then repo.aggregate.aggregateType else ""
      tenantId := tenant }
  state := repo.aggregate.default

def command (repo : EventSourcedRepository α σ τ) (held : Held α) (eventType : String)
    (payload : List UInt8) (now : Int) : Except EventSourcingError (Held α) :=
  (repo.aggregate.applyEvent held.state (held.root.nextEvent eventType payload now)).map
    fun state => ⟨held.root.raise eventType payload now, state⟩

def step (repo : EventSourcedRepository α σ τ) (w : World α σ τ) : Choice → Option (World α σ τ)
  | .create client id typed tenant =>
    match w.clients client with
    | .idle | .holding _ _ => some (w.set client (.holding (repo.created id typed tenant) false))
    | _ => none
  | .restore client id =>
    match w.clients client with
    | .idle | .holding _ _ =>
      match repo.restore w.snaps id with
      | .error _ => some (w.set client .idle)
      | .ok restored => some (w.set client (.restored id restored))
    | _ => none
  | .rebuild client =>
    match w.clients client with
    | .restored id restored =>
      match repo.rebuild w.store id restored with
      | .ok (some held) => some (w.set client (.holding held false))
      | _ => some (w.set client .idle)
    | _ => none
  | .raise client eventType payload now =>
    match w.clients client with
    | .holding held spoiled =>
      match repo.command held eventType payload now with
      | .error _ => none
      | .ok held => some (w.set client (.holding held spoiled))
    | _ => none
  | .append client =>
    match w.clients client with
    | .holding held spoiled =>
      match repo.appendPending w.store held with
      | (.empty, held, s) => some ({ w with store := s }.set client (.holding held spoiled))
      | (.refused _, held, s) => some ({ w with store := s }.set client (.holding held true))
      | (.done (some (.ok snapshot)), held, s) =>
        some ({ w with store := s }.set client (.writing held snapshot))
      | (.done _, held, s) => some ({ w with store := s }.set client (.holding held spoiled))
    | _ => none
  | .write client =>
    match w.clients client with
    | .writing held snapshot =>
      some ({ w with snaps := (repo.writeSnapshot w.snaps snapshot).2 }.set client
        (.holding held false))
    | _ => none

end EventSourcedRepository

end Firefly.Eventsourcing
