import Firefly.Eventsourcing.RepositoryRuns

set_option autoImplicit false

namespace Firefly.Eventsourcing.EventSourcedRepository

open Runs

variable {α σ τ : Type} {repo : EventSourcedRepository α σ τ} {w w' : World α σ τ} {choice : Choice}

structure AtomicSave (repo : EventSourcedRepository α σ τ) (s : σ) (held : Held α)
    (saved : Saved α σ τ) : Prop where
  ok_iff : saved.result = .ok () ↔ repo.store.stream saved.store =
    Function.update (repo.store.stream s) held.root.id
      (repo.store.stream s held.root.id ++ held.root.uncommitted)
  kept : ∀ error, saved.result = .error error → repo.store.stream saved.store = repo.store.stream s ∧
    saved.held.root.version = held.root.version ∧
    saved.held.root.uncommitted = held.root.uncommitted

def SnapshotTaken (repo : EventSourcedRepository α σ τ) (snaps : τ) (held : Held α) : Prop :=
  match repo.nextSnapshot held with
  | none => True
  | some (.error _) => False
  | some (.ok snapshot) => (repo.writeSnapshot snaps snapshot).1 = .ok ()

theorem save_atomic_iff {held : Held α} (s : σ) (snaps : τ) (buffered : repo.Buffered held) :
    repo.AtomicSave s held (repo.save s snaps held) ↔ held.root.uncommitted = [] ∨
      repo.store.accepts s held.root.id (expected held) ∧ repo.SnapshotTaken snaps held := by
  rcases append_cases s buffered with ⟨empty, appended⟩ |
    ⟨pending, refuses, error, s', appended, same⟩ | ⟨pending, accepts, s', appended, extended⟩
  · have nothing : repo.AtomicSave s held (repo.save s snaps held) := by
      rw [save, appended]
      exact ⟨by simp [empty], by simp⟩
    simp [nothing, empty]
  · refine iff_of_false (fun atomic => ?_) (by simp [pending, refuses])
    rw [save, appended] at atomic
    exact pending (atomic.kept error rfl).2.2.symm
  · simp only [pending, accepts, true_and, false_or, SnapshotTaken]
    cases owed : repo.nextSnapshot held with
    | none =>
      rw [save, appended, owed]
      exact iff_of_true ⟨by simp [extended], by simp⟩ trivial
    | some attempt =>
      cases attempt with
      | error error =>
        refine iff_of_false (fun atomic => ?_) (by simp)
        rw [save, appended, owed] at atomic
        exact pending (atomic.kept error rfl).2.2.symm
      | ok snapshot =>
        rw [save, appended, owed]
        simp only
        cases written : (repo.writeSnapshot snaps snapshot).1 with
        | ok value => exact iff_of_true ⟨by simp [extended], by simp⟩ rfl
        | error error =>
          refine iff_of_false (fun atomic => ?_) (by simp)
          exact pending (atomic.kept error rfl).2.2.symm

def Restores (repo : EventSourcedRepository α σ τ) : Prop :=
  repo.snapshots.isSome → ∀ state payload, repo.aggregate.snapshotPayload state = .ok payload →
    repo.aggregate.restoreSnapshot repo.aggregate.default payload = .ok state

def At (repo : EventSourcedRepository α σ τ) (stream : String → List DomainEvent) (held : Held α) :
    Prop :=
  ∃ version : Nat, expected held = version ∧ version ≤ (stream held.root.id).length ∧
    repo.Folds ((stream held.root.id).take version ++ held.root.uncommitted) held.state

def Captures (repo : EventSourcedRepository α σ τ) (stream : String → List DomainEvent)
    (snap : Snapshot) : Prop :=
  ∃ (version : Nat) (state : α), snap.version = version ∧
    version ≤ (stream snap.aggregateId).length ∧
    repo.Folds ((stream snap.aggregateId).take version) state ∧
    repo.aggregate.restoreSnapshot repo.aggregate.default snap.payload = .ok state

def Restored (repo : EventSourcedRepository α σ τ) (stream : String → List DomainEvent)
    (id : String) (restored : Held α × Int) : Prop :=
  ∃ version : Nat, restored.2 = version ∧ version ≤ (stream id).length ∧
    restored.1.root =
      { id := id, aggregateType := repo.aggregate.aggregateType, version := version } ∧
    repo.Folds ((stream id).take version) restored.1.state

def ClientFolds (repo : EventSourcedRepository α σ τ) (stream : String → List DomainEvent) :
    Client α → Prop
  | .holding held false => repo.At stream held
  | .writing held snapshot => repo.At stream held ∧ repo.Captures stream snapshot
  | .restored id restored => repo.Restored stream id restored
  | _ => True

structure Coherent (repo : EventSourcedRepository α σ τ) (w : World α σ τ) : Prop where
  stamped : ∀ id, Stamped id 0 (repo.store.stream w.store id)
  typed : ∀ id, ∀ event ∈ repo.store.stream w.store id, repo.Typed event.aggregateType
  folds : ∀ id, ∃ state, repo.Folds (repo.store.stream w.store id) state
  clients : ∀ client, repo.ClientFolds (repo.store.stream w.store) (w.clients client)
  snaps : ∀ snapshots, repo.snapshots = some snapshots → ∀ snap, snapshots.holds w.snaps snap →
    repo.Captures (repo.store.stream w.store) snap

def Grows (stream stream' : String → List DomainEvent) : Prop :=
  ∀ id, ∃ more, stream' id = stream id ++ more

theorem grows_update (stream : String → List DomainEvent) (id : String)
    (events : List DomainEvent) : Grows stream (Function.update stream id (stream id ++ events)) := by
  intro other
  by_cases same : other = id
  · subst same
    exact ⟨events, by simp⟩
  · exact ⟨[], by simp [same]⟩

theorem Grows.take {stream stream' : String → List DomainEvent} (grows : Grows stream stream')
    {id : String} {version : Nat} (inside : version ≤ (stream id).length) :
    (stream' id).take version = (stream id).take version ∧ version ≤ (stream' id).length := by
  obtain ⟨more, longer⟩ := grows id
  rw [longer, List.take_append_of_le_length inside, List.length_append]
  exact ⟨rfl, by omega⟩

theorem At.mono {stream stream' : String → List DomainEvent} (grows : Grows stream stream')
    {held : Held α} (here : repo.At stream held) : repo.At stream' held := by
  obtain ⟨version, base, inside, folds⟩ := here
  obtain ⟨same, still⟩ := grows.take inside
  exact ⟨version, base, still, same ▸ folds⟩

theorem Captures.mono {stream stream' : String → List DomainEvent} (grows : Grows stream stream')
    {snap : Snapshot} (captures : repo.Captures stream snap) : repo.Captures stream' snap := by
  obtain ⟨version, state, base, inside, folds, restores⟩ := captures
  obtain ⟨same, still⟩ := grows.take inside
  exact ⟨version, state, base, still, same ▸ folds, restores⟩

theorem ClientFolds.mono {stream stream' : String → List DomainEvent} (grows : Grows stream stream')
    {phase : Client α} (folds : repo.ClientFolds stream phase) :
    repo.ClientFolds stream' phase := by
  cases phase with
  | idle => trivial
  | restored id restored =>
    obtain ⟨version, base, inside, root, folds⟩ := folds
    obtain ⟨same, still⟩ := grows.take inside
    exact ⟨version, base, still, root, same ▸ folds⟩
  | holding held spoiled =>
    cases spoiled with
    | true => trivial
    | false => exact At.mono grows folds
  | writing held snapshot => exact ⟨At.mono grows folds.1, Captures.mono grows folds.2⟩

theorem Coherent.restored (coherent : repo.Coherent w) {id : String} {restored : Held α × Int}
    (ok : repo.restore w.snaps id = .ok restored) :
    repo.Restored (repo.store.stream w.store) id restored := by
  have start : repo.Restored (repo.store.stream w.store) id (repo.fresh id, 0) :=
    ⟨0, by simp, by simp, rfl, by simp [Folds, fresh, pure, Except.pure]⟩
  simp only [restore] at ok
  split at ok
  · obtain rfl := Except.ok.inj ok
    exact start
  · rename_i snapshots configured
    split at ok
    · simp at ok
    · obtain rfl := Except.ok.inj ok
      exact start
    · rename_i snap latest
      obtain ⟨holds, sameId⟩ := snapshots.latest_holds _ _ _ latest
      obtain ⟨version, state, base, inside, folds, restores⟩ :=
        coherent.snaps snapshots configured snap holds
      rw [show (repo.fresh id).state = repo.aggregate.default from rfl, restores] at ok
      obtain rfl := Except.ok.inj ok
      exact ⟨version, base, sameId ▸ inside, by simp [fresh, base], sameId ▸ folds⟩

def WholeFold (repo : EventSourcedRepository α σ τ) (stream : List DomainEvent) (id : String)
    (loaded : Option (Held α)) : Prop :=
  if stream = [] then loaded = none
  else ∃ state, repo.Folds stream state ∧ loaded = some
    ⟨{ id := id, aggregateType := repo.aggregate.aggregateType, version := stream.length }, state⟩

theorem Coherent.rebuild_read (coherent : repo.Coherent w) {id : String}
    {restored : Held α × Int} {events : List DomainEvent}
    (start : repo.Restored (repo.store.stream w.store) id restored)
    (read : repo.store.loadAfter w.store id restored.2 = .ok events) :
    ∃ loaded, repo.rebuild w.store id restored = .ok loaded ∧
      repo.WholeFold (repo.store.stream w.store id) id loaded := by
  obtain ⟨version, base, inside, root, folds⟩ := start
  have stamped := coherent.stamped id
  have typed := coherent.typed id
  obtain ⟨final, whole⟩ := coherent.folds id
  have rest : events = (repo.store.stream w.store id).drop version := by
    rw [repo.store.loads _ _ _ _ read, base, ← filter_stamped stamped version]
    simp
  rw [rebuild, read]
  simp only [base]
  generalize repo.store.stream w.store id = stream at *
  have split : stream.take version ++ events = stream := by
    rw [rest, List.take_append_drop]
  rw [← split] at stamped whole
  have later := (stamped_append.mp stamped).2
  rw [List.length_take, Nat.min_eq_left inside] at later
  have tail := (folds_append folds).mp whole
  have replayed : repo.replay id restored.1 events = .ok
      ⟨{ restored.1.root with version := restored.1.root.version + events.length }, final⟩ :=
    replay_stamped (by simpa [root] using later)
      (fun event member => typed event (by rw [← split]; simp [member])) tail
  simp only [WholeFold]
  by_cases empty : stream = []
  · have none : events = [] ∧ (version : Int) = 0 := by
      rw [rest, empty]
      rw [empty] at inside
      simpa using inside
    rw [if_pos none]
    exact ⟨_, rfl, by rw [if_pos empty]⟩
  · have some : ¬ (events = [] ∧ (version : Int) = 0) := by
      rintro ⟨noEvents, atStart⟩
      have zero : version = 0 := by exact_mod_cast atStart
      rw [zero, List.drop_zero] at rest
      exact empty (rest ▸ noEvents)
    have total : (version : Int) + events.length = stream.length := by
      rw [rest, List.length_drop]
      omega
    rw [if_neg some, replayed]
    refine ⟨_, rfl, ?_⟩
    rw [if_neg empty]
    exact ⟨final, split ▸ whole, by simp [root, total]⟩

theorem Coherent.rebuilt (coherent : repo.Coherent w) {id : String} {restored : Held α × Int}
    {loaded : Option (Held α)} (start : repo.Restored (repo.store.stream w.store) id restored)
    (ok : repo.rebuild w.store id restored = .ok loaded) :
    repo.WholeFold (repo.store.stream w.store id) id loaded := by
  cases read : repo.store.loadAfter w.store id restored.2 with
  | error error => simp [rebuild, read] at ok
  | ok events =>
    obtain ⟨found, same, whole⟩ := coherent.rebuild_read start read
    obtain rfl : found = loaded := Except.ok.inj (same.symm.trans ok)
    exact whole

/-- No aggregate gets new events into the store after one of its appends was refused. -/
def NoReuse (repo : EventSourcedRepository α σ τ) (w : World α σ τ) : Choice → Prop
  | .append client =>
    match w.clients client with
    | .holding held true => held.root.uncommitted = [] ∨
        repo.store.accepts w.store held.root.id (expected held) = false
    | _ => True
  | _ => True

instance (repo : EventSourcedRepository α σ τ) (w : World α σ τ) (choice : Choice) :
    Decidable (repo.NoReuse w choice) := by
  unfold NoReuse
  split
  · split <;> infer_instance
  · infer_instance

theorem NoReuse.unspoiled {client : Nat} {held : Held α} {spoiled : Bool}
    (noReuse : repo.NoReuse w (.append client)) (phase : w.clients client = .holding held spoiled)
    (pending : held.root.uncommitted ≠ [])
    (accepts : repo.store.accepts w.store held.root.id (expected held)) : spoiled = false := by
  cases spoiled with
  | false => rfl
  | true => simp [NoReuse, phase, pending, accepts] at noReuse

theorem at_created (stream : String → List DomainEvent) (id : String) (typed : Bool)
    (tenant : Option String) : repo.At stream (repo.created id typed tenant) :=
  ⟨0, by simp [created, expected], by simp, by simp [created, Folds, pure, Except.pure]⟩

theorem At.command {stream : String → List DomainEvent} {held held' : Held α} {eventType : String}
    {payload : List UInt8} {now : Int} (here : repo.At stream held)
    (ok : repo.command held eventType payload now = .ok held') : repo.At stream held' := by
  obtain ⟨version, base, inside, folds⟩ := here
  obtain ⟨root, applied⟩ := command_ok ok
  refine ⟨version, (expected_command ok).trans base, by simpa [root, AggregateRoot.raise] using inside, ?_⟩
  have longer : repo.Folds (((stream held.root.id).take version ++ held.root.uncommitted) ++
      [held.root.nextEvent eventType payload now]) held'.state := by
    apply (folds_append folds).mpr
    simp [applied, bind, Except.bind, pure, Except.pure]
  simpa [root, AggregateRoot.raise] using longer

theorem At.head {s : σ} {held : Held α} (here : repo.At (repo.store.stream s) held)
    (accepts : repo.store.accepts s held.root.id (expected held)) :
    expected held = (repo.store.stream s held.root.id).length ∧
      repo.Folds (repo.store.stream s held.root.id ++ held.root.uncommitted) held.state := by
  have head := repo.store.atHead _ _ _ accepts
  obtain ⟨version, base, inside, folds⟩ := here
  have all : version = (repo.store.stream s held.root.id).length := by omega
  rw [all, List.take_length] at folds
  exact ⟨head, folds⟩

theorem nextSnapshot_ok {held : Held α} {snapshot : Snapshot}
    (owed : repo.nextSnapshot held = some (.ok snapshot)) :
    repo.snapshots.isSome ∧ snapshot.aggregateId = held.root.id ∧
      snapshot.version = held.root.version ∧
      repo.aggregate.snapshotPayload held.state = .ok snapshot.payload := by
  rw [nextSnapshot] at owed
  split at owed
  · rename_i due
    have configured := ((Bool.and_eq_true _ _).mp due).1
    cases taken : repo.aggregate.snapshotPayload held.state with
    | error error => simp [taken, Except.map] at owed
    | ok payload =>
      obtain rfl : _ = snapshot := by simpa [taken, Except.map] using owed
      exact ⟨configured, rfl, rfl, rfl⟩
  · simp at owed

theorem Coherent.write (coherent : repo.Coherent w) {snapshot : Snapshot}
    (captures : repo.Captures (repo.store.stream w.store) snapshot)
    {snapshots : SnapshotStore τ} (configured : repo.snapshots = some snapshots) {snap : Snapshot}
    (holds : snapshots.holds (repo.writeSnapshot w.snaps snapshot).2 snap) :
    repo.Captures (repo.store.stream w.store) snap := by
  simp only [writeSnapshot, configured] at holds
  rcases snapshots.save_holds _ _ _ holds with before | rfl
  · exact coherent.snaps snapshots configured snap before
  · exact captures

theorem Coherent.moved (coherent : repo.Coherent w) {client : Nat} {phase : Client α}
    (folds : repo.ClientFolds (repo.store.stream w.store) phase) :
    repo.Coherent (w.set client phase) :=
  ⟨coherent.stamped, coherent.typed, coherent.folds, all_set coherent.clients folds, coherent.snaps⟩

theorem Coherent.holding (coherent : repo.Coherent w) {client : Nat} {held : Held α}
    (phase : w.clients client = .holding held false) :
    repo.At (repo.store.stream w.store) held := by
  have own := coherent.clients client
  rwa [phase] at own

theorem Coherent.appended (coherent : repo.Coherent w) (restores : repo.Restores)
    (all : repo.AllBuffered w) {client : Nat} {held : Held α} {s : σ} {next : Client α}
    (phase : w.clients client = .holding held false)
    (accepts : repo.store.accepts w.store held.root.id (expected held))
    (extended : repo.store.stream s = Function.update (repo.store.stream w.store) held.root.id
      (repo.store.stream w.store held.root.id ++ held.root.uncommitted))
    (owes : next = .holding (drained held) false ∨ ∃ snapshot,
      repo.nextSnapshot held = some (.ok snapshot) ∧ next = .writing (drained held) snapshot) :
    repo.Coherent ({ w with store := s }.set client next) := by
  have buffered := all.holding phase
  obtain ⟨head, folds⟩ := (coherent.holding phase).head accepts
  have grows : Grows (repo.store.stream w.store) (repo.store.stream s) := by
    rw [extended]
    exact grows_update _ _ _
  have own : repo.store.stream s held.root.id =
      repo.store.stream w.store held.root.id ++ held.root.uncommitted := by
    simp [extended]
  -- The drained aggregate stands at the new head, where its state is the fold of the stream.
  have version : held.root.version = (repo.store.stream s held.root.id).length := by
    rw [own, List.length_append]
    have := head
    rw [expected] at this
    push_cast
    omega
  have whole : repo.Folds ((repo.store.stream s held.root.id).take
      (repo.store.stream s held.root.id).length) held.state := by
    rw [List.take_length, own]
    exact folds
  have here : repo.At (repo.store.stream s) (drained held) :=
    ⟨(repo.store.stream s held.root.id).length, by simpa using version, le_rfl, by simpa using whole⟩
  refine ⟨fun id => ?_, fun id => ?_, fun id => ?_, ?_, ?_⟩
  · by_cases same : id = held.root.id
    · subst same
      rw [set_store, own, stamped_append]
      exact ⟨coherent.stamped _, by simpa [head] using buffered.stamped⟩
    · simpa [extended, same] using coherent.stamped id
  · by_cases same : id = held.root.id
    · subst same
      rw [set_store, own]
      intro event member
      rcases List.mem_append.mp member with before | now
      · exact coherent.typed _ event before
      · exact buffered.events event now
    · simpa [extended, same] using coherent.typed id
  · by_cases same : id = held.root.id
    · subst same
      rw [set_store, own]
      exact ⟨held.state, folds⟩
    · simpa [extended, same] using coherent.folds id
  · refine all_set (fun other => (coherent.clients other).mono grows) ?_
    rcases owes with rfl | ⟨snapshot, owed, rfl⟩
    · exact here
    · obtain ⟨configured, sameId, sameVersion, payload⟩ := nextSnapshot_ok owed
      refine ⟨here, _, held.state, sameVersion.trans version, ?_, ?_, restores configured _ _ payload⟩
      · rw [sameId, set_store]
      · rw [sameId]
        exact whole
  · intro snapshots configured snap holds
    exact (coherent.snaps snapshots configured snap holds).mono grows

theorem Transition.coherent (moves : Transition repo w choice w') (restores : repo.Restores)
    (all : repo.AllBuffered w) (noReuse : repo.NoReuse w choice) (coherent : repo.Coherent w) :
    repo.Coherent w' := by
  cases moves with
  | released _ client => exact coherent.moved trivial
  | created _ client id typed tenant =>
    exact coherent.moved (at_created _ id typed tenant)
  | restored _ client id restored ok => exact coherent.moved (coherent.restored ok)
  | rebuilt _ client id restored held phase ok =>
    have start := coherent.clients client
    rw [phase] at start
    have whole := coherent.rebuilt start ok
    apply coherent.moved
    rw [WholeFold] at whole
    split at whole
    · simp at whole
    · obtain ⟨state, folds, same⟩ := whole
      obtain rfl := Option.some.inj same
      exact ⟨_, by simp [expected], le_rfl, by simpa using folds⟩
  | raised _ client held held' spoiled eventType payload now phase ok =>
    apply coherent.moved
    cases spoiled with
    | true => trivial
    | false => exact (coherent.holding phase).command ok
  | kept client held spoiled phase =>
    have own := coherent.clients client
    rw [phase] at own
    exact coherent.moved own
  | refused client held spoiled s phase same =>
    -- The stream is as before; only the aggregate is no longer what it was.
    refine ⟨?_, ?_, ?_, ?_, ?_⟩
    · simpa [same] using coherent.stamped
    · simpa [same] using coherent.typed
    · simpa [same] using coherent.folds
    · exact all_set (by simpa [same] using coherent.clients) trivial
    · simpa [same] using coherent.snaps
  | appended client held spoiled s next phase nonempty accepts extended owes =>
    obtain rfl := noReuse.unspoiled phase nonempty accepts
    exact coherent.appended restores all phase accepts extended owes
  | wrote _ client held snapshot phase =>
    have own := coherent.clients client
    rw [phase] at own
    exact ⟨coherent.stamped, coherent.typed, coherent.folds, all_set coherent.clients own.1,
      fun snapshots configured snap holds => coherent.write own.2 configured holds⟩

structure Empty (repo : EventSourcedRepository α σ τ) (w : World α σ τ) : Prop where
  stream : ∀ id, repo.store.stream w.store id = []
  snaps : ∀ snapshots, repo.snapshots = some snapshots → ∀ snap, ¬ snapshots.holds w.snaps snap
  clients : ∀ client, w.clients client = .idle

theorem Empty.allBuffered (empty : repo.Empty w) : repo.AllBuffered w := by
  intro client
  rw [empty.clients client]
  trivial

theorem Empty.coherent (empty : repo.Empty w) : repo.Coherent w where
  stamped id := by simp [empty.stream, stamped_nil]
  typed id := by simp [empty.stream]
  folds id := ⟨repo.aggregate.default, by simp [empty.stream, Folds, pure, Except.pure]⟩
  clients client := by
    rw [empty.clients client]
    trivial
  snaps snapshots configured snap holds := (empty.snaps snapshots configured snap holds).elim

theorem reachable_allBuffered {choices : List Choice} (empty : repo.Empty w)
    (ran : run repo.step w choices = some w') : repo.AllBuffered w' :=
  run_invariant repo.AllBuffered
    (fun _ _ _ _ all stepped => (step_transition all stepped).allBuffered all)
    empty.allBuffered ran

theorem reachable_coherent {choices : List Choice} (restores : repo.Restores)
    (empty : repo.Empty w) (along : Along repo.step repo.NoReuse w choices)
    (ran : run repo.step w choices = some w') : repo.Coherent w' := by
  refine (run_invariant_along (fun w => repo.AllBuffered w ∧ repo.Coherent w) ?_
    ⟨empty.allBuffered, empty.coherent⟩ along ran).2
  rintro w choice w' noReuse ⟨all, coherent⟩ stepped
  have moves := step_transition all stepped
  exact ⟨moves.allBuffered all, moves.coherent restores all noReuse coherent⟩

theorem save_atomic_and_current {choices : List Choice} (empty : repo.Empty w)
    (ran : run repo.step w choices = some w') {client : Nat} {held : Held α} {spoiled : Bool}
    (phase : w'.clients client = .holding held spoiled) :
    (∀ snaps, repo.AtomicSave w'.store held (repo.save w'.store snaps held) ↔
      held.root.uncommitted = [] ∨
        repo.store.accepts w'.store held.root.id (expected held) ∧ repo.SnapshotTaken snaps held) ∧
    (repo.Restores → Along repo.step repo.NoReuse w choices → repo.NoReuse w' (.append client) →
      held.root.uncommitted ≠ [] → repo.store.accepts w'.store held.root.id (expected held) →
      expected held = (repo.store.stream w'.store held.root.id).length ∧
      repo.Folds (repo.store.stream w'.store held.root.id ++ held.root.uncommitted) held.state) := by
  constructor
  · intro snaps
    exact save_atomic_iff _ snaps ((reachable_allBuffered empty ran).holding phase)
  · intro restores along noReuse pending accepts
    obtain rfl := noReuse.unspoiled phase pending accepts
    exact ((reachable_coherent restores empty along ran).holding phase).head accepts

def byteCounter : EventSourcedAggregate Nat where
  aggregateType := "counter"
  default := 0
  applyEvent state event := .ok (state + event.payload.length)
  snapshotPayload state := .ok (List.replicate state 0)
  restoreSnapshot _ payload := .ok payload.length

def counters (snapshotInterval : Int) :
    EventSourcedRepository Nat MemoryState MemorySnapshotStore :=
  withSnapshots byteCounter MemoryEventStore.port MemorySnapshotStore.port snapshotInterval

def noCounters : World Nat MemoryState MemorySnapshotStore where
  store := {}
  snaps := .empty
  clients := fun _ => .idle

theorem noCounters_empty (snapshotInterval : Int) :
    (counters snapshotInterval).Empty noCounters where
  stream id := by simp [counters, withSnapshots, MemoryEventStore.port, noCounters]
  snaps snapshots configured snap := by
    obtain rfl : MemorySnapshotStore.port = snapshots := by
      simpa [counters, withSnapshots] using configured
    simp [MemorySnapshotStore.port, noCounters, MemorySnapshotStore.empty]
  clients client := rfl

theorem counters_restore (snapshotInterval : Int) : (counters snapshotInterval).Restores := by
  intro _ state payload taken
  obtain rfl : List.replicate state 0 = payload := by
    simpa [counters, withSnapshots, byteCounter] using taken
  simp [counters, withSnapshots, byteCounter]

def sent (version : Int) (payload : List UInt8) : DomainEvent where
  aggregateId := "c"
  aggregateType := "counter"
  version := version
  eventType := "sent"
  time := 0
  payload := payload

def counter (version : Int) (uncommitted : List DomainEvent) (state : Nat) : Held Nat where
  root :=
    { id := "c", aggregateType := "counter", version := version, uncommitted := uncommitted }
  state := state

def race : List Choice :=
  [.create 0 "c" true none, .create 1 "c" true none, .raise 0 "sent" [1] 0,
    .raise 1 "sent" [1, 1, 1] 0]

def staleReuse : List Choice := race ++ [.append 0, .append 1, .raise 1 "sent" [1] 0]

theorem race_saved : ∃ w, run (counters 100).step noCounters race = some w ∧
    (counters 100).AtomicSave w.store (counter 1 [sent 1 [1]] 1)
      ((counters 100).save w.store w.snaps (counter 1 [sent 1 [1]] 1)) ∧
    (counters 100).Folds ((counters 100).store.stream w.store "c" ++ [sent 1 [1]]) 1 := by
  let w := (run (counters 100).step noCounters race).get (by decide)
  have ran : run (counters 100).step noCounters race = some w := by simp [w]
  have phase : w.clients 0 = .holding (counter 1 [sent 1 [1]] 1) false := rfl
  have both := save_atomic_and_current (noCounters_empty 100) ran phase
  refine ⟨w, ran, (both.1 w.snaps).mpr (.inr ⟨by decide, trivial⟩), ?_⟩
  exact (both.2 (counters_restore 100) (by decide) (by simp [NoReuse, phase])
    (by decide) (by decide)).2

theorem stale_save_reused :
    (∃ w, run (counters 100).step noCounters (race ++ [.append 0]) = some w ∧
      w.clients 1 = .holding (counter 1 [sent 1 [1, 1, 1]] 3) false ∧
      ¬ (counters 100).AtomicSave w.store (counter 1 [sent 1 [1, 1, 1]] 3)
        ((counters 100).save w.store w.snaps (counter 1 [sent 1 [1, 1, 1]] 3))) ∧
    ∃ w, run (counters 100).step noCounters staleReuse = some w ∧
      w.clients 1 = .holding (counter 2 [sent 2 [1]] 4) true ∧
      (counters 100).store.accepts w.store "c" (expected (counter 2 [sent 2 [1]] 4)) ∧
      ¬ (counters 100).Folds ((counters 100).store.stream w.store "c" ++ [sent 2 [1]]) 4 := by
  constructor
  · refine ⟨(run (counters 100).step noCounters (race ++ [.append 0])).get (by decide),
      (Option.some_get _).symm, rfl, ?_⟩
    intro atomic
    exact absurd (atomic.kept .concurrency rfl).2.2 (by decide)
  · refine ⟨(run (counters 100).step noCounters staleReuse).get (by decide),
      (Option.some_get _).symm, rfl, ?_, ?_⟩
    · decide
    · rw [Folds]
      decide

end Firefly.Eventsourcing.EventSourcedRepository
