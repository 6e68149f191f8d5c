import Firefly.Eventsourcing.Repository

set_option autoImplicit false

namespace Firefly.Eventsourcing.EventSourcedRepository

open Runs

variable {α σ τ : Type} {repo : EventSourcedRepository α σ τ} {w w' : World α σ τ} {choice : Choice}

def Typed (repo : EventSourcedRepository α σ τ) (aggregateType : String) : Prop :=
  aggregateType = "" ∨ aggregateType = repo.aggregate.aggregateType

structure Buffered (repo : EventSourcedRepository α σ τ) (held : Held α) : Prop where
  typed : repo.Typed held.root.aggregateType
  stamped : Stamped held.root.id (expected held) held.root.uncommitted
  events : ∀ event ∈ held.root.uncommitted, repo.Typed event.aggregateType

def drained (held : Held α) : Held α := { held with root := { held.root with uncommitted := [] } }

@[simp] theorem drained_id (held : Held α) : (drained held).root.id = held.root.id := rfl

@[simp] theorem drained_version (held : Held α) :
    (drained held).root.version = held.root.version := rfl

@[simp] theorem drained_uncommitted (held : Held α) : (drained held).root.uncommitted = [] := rfl

@[simp] theorem drained_state (held : Held α) : (drained held).state = held.state := rfl

@[simp] theorem expected_drained (held : Held α) : expected (drained held) = held.root.version := by
  simp [expected]

theorem Buffered.drained {held : Held α} (buffered : repo.Buffered held) :
    repo.Buffered (drained held) :=
  ⟨buffered.typed, by simp [stamped_nil], by simp⟩

theorem buffered_of_empty {held : Held α} (typed : repo.Typed held.root.aggregateType)
    (empty : held.root.uncommitted = []) : repo.Buffered held :=
  ⟨typed, by simp [empty, stamped_nil], by simp [empty]⟩

theorem command_ok {held held' : Held α} {eventType : String} {payload : List UInt8} {now : Int}
    (ok : repo.command held eventType payload now = .ok held') :
    held'.root = held.root.raise eventType payload now ∧
      repo.aggregate.applyEvent held.state (held.root.nextEvent eventType payload now) =
        .ok held'.state := by
  rw [command] at ok
  cases applied : repo.aggregate.applyEvent held.state (held.root.nextEvent eventType payload now) with
  | error error => simp [applied, Except.map] at ok
  | ok state =>
    obtain rfl : _ = held' := by simpa [applied, Except.map] using ok
    exact ⟨rfl, rfl⟩

theorem expected_command {held held' : Held α} {eventType : String} {payload : List UInt8}
    {now : Int} (ok : repo.command held eventType payload now = .ok held') :
    expected held' = expected held := by
  rw [expected, (command_ok ok).1, expected]
  simp [AggregateRoot.raise]

theorem Buffered.command {held held' : Held α} {eventType : String} {payload : List UInt8}
    {now : Int} (buffered : repo.Buffered held)
    (ok : repo.command held eventType payload now = .ok held') : repo.Buffered held' := by
  have root := (command_ok ok).1
  refine ⟨?_, ?_, ?_⟩
  · rw [root]
    exact buffered.typed
  · rw [expected_command ok, root]
    refine stamped_append.mpr ⟨buffered.stamped, stamped_singleton.mpr ⟨rfl, ?_⟩⟩
    simp [AggregateRoot.nextEvent, expected]
  · rw [root]
    intro event member
    rcases List.mem_append.mp member with before | now
    · exact buffered.events event before
    · rw [List.mem_singleton.mp now]
      exact buffered.typed

theorem append_cases (s : σ) {held : Held α} (buffered : repo.Buffered held) :
    (held.root.uncommitted = [] ∧ repo.appendPending s held = (.empty, held, s)) ∨
    (held.root.uncommitted ≠ [] ∧ repo.store.accepts s held.root.id (expected held) = false ∧
      ∃ error s', repo.appendPending s held = (.refused error, drained held, s') ∧
        repo.store.stream s' = repo.store.stream s) ∨
    (held.root.uncommitted ≠ [] ∧ repo.store.accepts s held.root.id (expected held) ∧
      ∃ s', repo.appendPending s held = (.done (repo.nextSnapshot held), drained held, s') ∧
        repo.store.stream s' = Function.update (repo.store.stream s) held.root.id
          (repo.store.stream s held.root.id ++ held.root.uncommitted)) := by
  by_cases empty : held.root.uncommitted = []
  · exact .inl ⟨empty, by simp [appendPending, empty]⟩
  · right
    simp only [appendPending, if_neg empty, AggregateRoot.takeUncommitted]
    cases accepts : repo.store.accepts s held.root.id (expected held) with
    | false =>
      left
      obtain ⟨⟨error, failed⟩, kept⟩ := repo.store.refused s _ _ _ empty accepts
      refine ⟨empty, rfl, error, (repo.store.append s held.root.id (expected held)
        held.root.uncommitted).2, ?_, kept⟩
      generalize repo.store.append s held.root.id (expected held) held.root.uncommitted =
        result at failed
      obtain ⟨outcome, s'⟩ := result
      simp only at failed
      rw [failed]
      rfl
    | true =>
      right
      obtain ⟨ok, extended⟩ := repo.store.accepted s _ _ _ empty buffered.stamped accepts
      refine ⟨empty, rfl, (repo.store.append s held.root.id (expected held)
        held.root.uncommitted).2, ?_, extended⟩
      generalize repo.store.append s held.root.id (expected held) held.root.uncommitted =
        result at ok
      obtain ⟨outcome, s'⟩ := result
      simp only at ok
      rw [ok]
      rfl

inductive Transition (repo : EventSourcedRepository α σ τ) (w : World α σ τ) :
    Choice → World α σ τ → Prop where
  | released (choice : Choice) (client : Nat) : Transition repo w choice (w.set client .idle)
  | created (choice : Choice) (client : Nat) (id : String) (typed : Bool) (tenant : Option String) :
      Transition repo w choice (w.set client (.holding (repo.created id typed tenant) false))
  | restored (choice : Choice) (client : Nat) (id : String) (restored : Held α × Int)
      (ok : repo.restore w.snaps id = .ok restored) :
      Transition repo w choice (w.set client (.restored id restored))
  | rebuilt (choice : Choice) (client : Nat) (id : String) (restored : Held α × Int)
      (held : Held α) (phase : w.clients client = .restored id restored)
      (ok : repo.rebuild w.store id restored = .ok (some held)) :
      Transition repo w choice (w.set client (.holding held false))
  | raised (choice : Choice) (client : Nat) (held held' : Held α) (spoiled : Bool)
      (eventType : String) (payload : List UInt8) (now : Int)
      (phase : w.clients client = .holding held spoiled)
      (ok : repo.command held eventType payload now = .ok held') :
      Transition repo w choice (w.set client (.holding held' spoiled))
  | kept (client : Nat) (held : Held α) (spoiled : Bool)
      (phase : w.clients client = .holding held spoiled) :
      Transition repo w (.append client) (w.set client (.holding held spoiled))
  | refused (client : Nat) (held : Held α) (spoiled : Bool) (s : σ)
      (phase : w.clients client = .holding held spoiled)
      (same : repo.store.stream s = repo.store.stream w.store) :
      Transition repo w (.append client)
        ({ w with store := s }.set client (.holding (drained held) true))
  | appended (client : Nat) (held : Held α) (spoiled : Bool) (s : σ) (next : Client α)
      (phase : w.clients client = .holding held spoiled) (nonempty : held.root.uncommitted ≠ [])
      (accepts : repo.store.accepts w.store held.root.id (expected held))
      (extended : repo.store.stream s = Function.update (repo.store.stream w.store) held.root.id
        (repo.store.stream w.store held.root.id ++ held.root.uncommitted))
      (owes : next = .holding (drained held) spoiled ∨ ∃ snapshot,
        repo.nextSnapshot held = some (.ok snapshot) ∧ next = .writing (drained held) snapshot) :
      Transition repo w (.append client) ({ w with store := s }.set client next)
  | wrote (choice : Choice) (client : Nat) (held : Held α) (snapshot : Snapshot)
      (phase : w.clients client = .writing held snapshot) :
      Transition repo w choice ({ w with
        snaps := (repo.writeSnapshot w.snaps snapshot).2 }.set client (.holding held false))

def ClientBuffered (repo : EventSourcedRepository α σ τ) : Client α → Prop
  | .idle => True
  | .restored _ restored =>
    restored.1.root.uncommitted = [] ∧ repo.Typed restored.1.root.aggregateType
  | .holding held _ | .writing held _ => repo.Buffered held

def AllBuffered (repo : EventSourcedRepository α σ τ) (w : World α σ τ) : Prop :=
  ∀ client, repo.ClientBuffered (w.clients client)

theorem AllBuffered.holding (all : repo.AllBuffered w) {client : Nat} {held : Held α}
    {spoiled : Bool} (phase : w.clients client = .holding held spoiled) : repo.Buffered held := by
  have own := all client
  rwa [phase] at own

theorem append_transition {client : Nat} (all : repo.AllBuffered w)
    (stepped : repo.step w (.append client) = some w') :
    Transition repo w (.append client) w' := by
  simp only [step] at stepped
  split at stepped
  · rename_i held spoiled phase
    rcases append_cases w.store (all.holding phase) with
      ⟨-, empty⟩ | ⟨-, -, error, s, refused, same⟩ | ⟨nonempty, accepts, s, done, extended⟩
    · rw [empty] at stepped
      obtain rfl := Option.some.inj stepped
      exact .kept client held spoiled phase
    · rw [refused] at stepped
      obtain rfl := Option.some.inj stepped
      exact .refused client held spoiled s phase same
    · rw [done] at stepped
      cases owed : repo.nextSnapshot held with
      | none =>
        rw [owed] at stepped
        obtain rfl := Option.some.inj stepped
        exact .appended client held spoiled s _ phase nonempty accepts extended (.inl rfl)
      | some attempt =>
        cases attempt with
        | error error =>
          rw [owed] at stepped
          obtain rfl := Option.some.inj stepped
          exact .appended client held spoiled s _ phase nonempty accepts extended (.inl rfl)
        | ok snapshot =>
          rw [owed] at stepped
          obtain rfl := Option.some.inj stepped
          exact .appended client held spoiled s _ phase nonempty accepts extended
            (.inr ⟨snapshot, owed, rfl⟩)
  · simp at stepped

theorem restore_transition {client : Nat} {id : String}
    (stepped : (match repo.restore w.snaps id with
      | .error _ => some (w.set client .idle)
      | .ok restored => some (w.set client (.restored id restored))) = some w') :
    Transition repo w choice w' := by
  split at stepped
  · obtain rfl := Option.some.inj stepped
    exact .released choice client
  · rename_i restored ok
    obtain rfl := Option.some.inj stepped
    exact .restored choice client id restored ok

theorem step_transition (all : repo.AllBuffered w) (stepped : repo.step w choice = some w') :
    Transition repo w choice w' := by
  cases choice with
  | create client id typed tenant =>
    simp only [step] at stepped
    split at stepped
    · obtain rfl := Option.some.inj stepped
      exact .created _ client id typed tenant
    · obtain rfl := Option.some.inj stepped
      exact .created _ client id typed tenant
    · simp at stepped
  | restore client id =>
    simp only [step] at stepped
    split at stepped
    · exact restore_transition stepped
    · exact restore_transition stepped
    · simp at stepped
  | rebuild client =>
    simp only [step] at stepped
    split at stepped
    · rename_i id restored phase
      split at stepped
      · rename_i held ok
        obtain rfl := Option.some.inj stepped
        exact .rebuilt _ client id restored held phase ok
      · obtain rfl := Option.some.inj stepped
        exact .released _ client
    · simp at stepped
  | raise client eventType payload now =>
    simp only [step] at stepped
    split at stepped
    · rename_i held spoiled phase
      split at stepped
      · simp at stepped
      · rename_i held' ok
        obtain rfl := Option.some.inj stepped
        exact .raised _ client held held' spoiled eventType payload now phase ok
    · simp at stepped
  | append client => exact append_transition all stepped
  | write client =>
    simp only [step] at stepped
    split at stepped
    · rename_i held snapshot phase
      obtain rfl := Option.some.inj stepped
      exact .wrote _ client held snapshot phase
    · simp at stepped

theorem replay_root {id : String} {held held' : Held α} {events : List DomainEvent}
    (ok : repo.replay id held events = .ok held') :
    held'.root = { held.root with version := held'.root.version } := by
  induction events generalizing held with
  | nil =>
    obtain rfl : held = held' := by simpa [replay] using ok
    rfl
  | cons event events ih =>
    rw [replay] at ok
    split at ok
    · simp at ok
    · split at ok
      · simp at ok
      · split at ok
        · simp at ok
        · have tail := ih ok
          exact tail

theorem rebuild_root {s : σ} {id : String} {restored : Held α × Int} {held : Held α}
    (ok : repo.rebuild s id restored = .ok (some held)) :
    held.root = { restored.1.root with version := held.root.version } := by
  rw [rebuild] at ok
  split at ok
  · simp at ok
  · split at ok
    · simp at ok
    · rename_i events _ _
      cases replayed : repo.replay id restored.1 events with
      | error error => simp [replayed, Except.map] at ok
      | ok result =>
        obtain rfl : result = held := by simpa [replayed, Except.map] using ok
        exact replay_root replayed

theorem restore_root {snaps : τ} {id : String} {restored : Held α × Int}
    (ok : repo.restore snaps id = .ok restored) :
    restored.1.root =
      { id := id, aggregateType := repo.aggregate.aggregateType, version := restored.2 } := by
  simp only [restore] at ok
  split at ok
  · obtain rfl := Except.ok.inj ok
    rfl
  · split at ok
    · simp at ok
    · obtain rfl := Except.ok.inj ok
      rfl
    · split at ok
      · simp at ok
      · obtain rfl := Except.ok.inj ok
        rfl

@[simp] theorem set_clients (w : World α σ τ) (client other : Nat) (phase : Client α) :
    (w.set client phase).clients other = if other = client then phase else w.clients other := by
  simp [World.set, Function.update_apply]

@[simp] theorem set_store (w : World α σ τ) (client : Nat) (phase : Client α) :
    (w.set client phase).store = w.store := rfl

@[simp] theorem set_snaps (w : World α σ τ) (client : Nat) (phase : Client α) :
    (w.set client phase).snaps = w.snaps := rfl

theorem buffered_created (id : String) (typed : Bool) (tenant : Option String) :
    repo.Buffered (repo.created id typed tenant) := by
  refine buffered_of_empty ?_ rfl
  cases typed
  · exact .inl rfl
  · exact .inr rfl

theorem all_set {P : Client α → Prop} {client : Nat} {phase : Client α}
    (all : ∀ other, P (w.clients other)) (now : P phase) (other : Nat) :
    P ((w.set client phase).clients other) := by
  rw [set_clients]
  split
  · exact now
  · exact all other

theorem Transition.allBuffered (moves : Transition repo w choice w') (all : repo.AllBuffered w) :
    repo.AllBuffered w' := by
  cases moves with
  | released _ client => exact all_set all trivial
  | created _ client id typed tenant => exact all_set all (buffered_created id typed tenant)
  | restored _ client id restored ok =>
    have root := restore_root ok
    refine all_set all ⟨?_, ?_⟩
    · rw [root]
    · rw [root]
      exact .inr rfl
  | rebuilt _ client id restored held phase ok =>
    have own := all client
    rw [phase] at own
    refine all_set all (buffered_of_empty ?_ ?_)
    · rw [rebuild_root ok]
      exact own.2
    · rw [rebuild_root ok]
      exact own.1
  | raised _ client held held' spoiled eventType payload now phase ok =>
    exact all_set all ((all.holding phase).command ok)
  | kept client held spoiled phase => exact all_set all (all.holding phase)
  | refused client held spoiled s phase => exact all_set all (all.holding phase).drained
  | appended client held spoiled s next phase nonempty accepts extended owes =>
    refine all_set all ?_
    rcases owes with rfl | ⟨snapshot, -, rfl⟩
    · exact (all.holding phase).drained
    · exact (all.holding phase).drained
  | wrote _ client held snapshot phase =>
    have own := all client
    rw [phase] at own
    exact all_set all own

def Folds (repo : EventSourcedRepository α σ τ) (events : List DomainEvent) (state : α) : Prop :=
  events.foldlM repo.aggregate.applyEvent repo.aggregate.default = .ok state

theorem folds_append {first second : List DomainEvent} {middle state : α}
    (folds : repo.Folds first middle) :
    repo.Folds (first ++ second) state ↔
      second.foldlM repo.aggregate.applyEvent middle = .ok state := by
  rw [Folds, List.foldlM_append, folds]
  rfl

theorem replay_stamped {id : String} {held : Held α} {events : List DomainEvent} {state : α}
    (stamped : Stamped id held.root.version events)
    (typed : ∀ event ∈ events, repo.Typed event.aggregateType)
    (folds : events.foldlM repo.aggregate.applyEvent held.state = .ok state) :
    repo.replay id held events =
      .ok ⟨{ held.root with version := held.root.version + events.length }, state⟩ := by
  induction events generalizing held with
  | nil =>
    obtain rfl : held.state = state := by simpa [pure, Except.pure] using folds
    simp [replay]
  | cons event events ih =>
    obtain ⟨first, rest⟩ := stamped_append.mp
      (show Stamped id held.root.version ([event] ++ events) from stamped)
    obtain ⟨sameId, version⟩ := stamped_singleton.mp first
    rw [List.foldlM_cons] at folds
    cases applied : repo.aggregate.applyEvent held.state event with
    | error error => simp [applied, bind, Except.bind] at folds
    | ok next =>
      have proper : ¬ (event.aggregateType ≠ "" ∧
          event.aggregateType ≠ repo.aggregate.aggregateType) := by
        rcases typed event (by simp) with empty | own
        · simp [empty]
        · simp [own]
      simp only [applied, bind, Except.bind] at folds
      rw [replay, if_neg (by simp [sameId]), if_neg proper, applied]
      have tail := @ih ⟨{ held.root with version := event.version }, next⟩
        (by simpa [version] using rest) (fun other member => typed other (by simp [member])) folds
      have total : event.version + (events.length : Int) =
          held.root.version + ((event :: events).length : Int) := by
        rw [version, List.length_cons]
        push_cast
        ring
      simp only [tail, total]

end Firefly.Eventsourcing.EventSourcedRepository
