import Firefly.Eventsourcing.RepositoryContract
import Firefly.Eventsourcing.StoreAgreement

set_option autoImplicit false

namespace Firefly.Eventsourcing.EventSourcedRepository

open Runs

variable {α σ τ : Type} {repo : EventSourcedRepository α σ τ} {id t : String}

structure Tracked (α σ τ : Type) where
  world : World α σ τ
  loaded : Nat → Bool

def trackedStep (repo : EventSourcedRepository α σ τ) (s : Tracked α σ τ) (choice : Choice) :
    Option (Tracked α σ τ) :=
  (repo.step s.world choice).map fun world =>
    { world := world
      loaded := match choice with
        | .create client _ _ _ => Function.update s.loaded client false
        | .rebuild client => Function.update s.loaded client true
        | _ => s.loaded }

def BuiltWith (id t : String) : Choice → Prop
  | .create _ other _ tenant => other = id → tenant = some t
  | _ => True

def RaisedFresh (id : String) (s : Tracked α σ τ) : Choice → Prop
  | .raise client _ _ _ => ∀ held spoiled, s.world.clients client = .holding held spoiled →
      held.root.id = id → s.loaded client = false
  | _ => True

def PhaseCarries (id t : String) (loaded : Bool) : Client α → Prop
  | .holding held _ | .writing held _ => held.root.id = id →
      (loaded = false → held.root.tenantId = some t) ∧
        ∀ event ∈ held.root.uncommitted, event.tenantId = some t
  | _ => True

structure Carries (repo : EventSourcedRepository α σ τ) (id t : String) (s : Tracked α σ τ) :
    Prop where
  buffered : repo.AllBuffered s.world
  stream : ∀ event ∈ repo.store.stream s.world.store id, event.tenantId = some t
  clients : ∀ client, PhaseCarries id t (s.loaded client) (s.world.clients client)

theorem phaseCarries_drained {loaded : Bool} {held : Held α}
    (carries : held.root.id = id → (loaded = false → held.root.tenantId = some t) ∧
      ∀ event ∈ held.root.uncommitted, event.tenantId = some t) :
    (drained held).root.id = id → (loaded = false → (drained held).root.tenantId = some t) ∧
      ∀ event ∈ (drained held).root.uncommitted, event.tenantId = some t := by
  intro own
  exact ⟨(carries own).1, by simp⟩

theorem phases_set {s : Tracked α σ τ} {client : Nat} {phase : Client α} {flags : Nat → Bool}
    (all : ∀ other, PhaseCarries id t (s.loaded other) (s.world.clients other))
    (others : ∀ other, other ≠ client → flags other = s.loaded other)
    (now : PhaseCarries id t (flags client) phase) (other : Nat) :
    PhaseCarries id t (flags other) ((s.world.set client phase).clients other) := by
  rw [set_clients]
  split
  · rename_i same
    subst same
    exact now
  · rename_i elsewhere
    rw [others other elsewhere]
    exact all other

theorem append_carries {s : Tracked α σ τ} {client : Nat} {w' : World α σ τ}
    (carries : Carries repo id t s) (stepped : repo.step s.world (.append client) = some w') :
    (∀ event ∈ repo.store.stream w'.store id, event.tenantId = some t) ∧
      ∀ other, PhaseCarries id t (s.loaded other) (w'.clients other) := by
  simp only [step] at stepped
  split at stepped
  · rename_i held spoiled phase
    have own := carries.clients client
    rw [phase] at own
    rcases append_cases s.world.store (carries.buffered.holding phase) with
      ⟨-, empty⟩ | ⟨-, -, error, store, refused, same⟩ | ⟨-, -, store, done, extended⟩
    · rw [empty] at stepped
      obtain rfl := Option.some.inj stepped
      exact ⟨carries.stream, phases_set carries.clients (fun _ _ => rfl) own⟩
    · rw [refused] at stepped
      obtain rfl := Option.some.inj stepped
      have now : PhaseCarries id t (s.loaded client) (.holding (drained held) true) :=
        phaseCarries_drained own
      refine ⟨?_, phases_set carries.clients (fun _ _ => rfl) now⟩
      rw [set_store, same]
      exact carries.stream
    · have stream : ∀ event ∈ repo.store.stream store id, event.tenantId = some t := by
        rw [extended]
        intro event member
        by_cases here : id = held.root.id
        · rw [here, Function.update_self] at member
          rcases List.mem_append.mp member with before | now
          · exact carries.stream event (here ▸ before)
          · exact (own here.symm).2 event now
        · rw [Function.update_of_ne here] at member
          exact carries.stream event member
      rw [done] at stepped
      cases owed : repo.nextSnapshot held with
      | none =>
        rw [owed] at stepped
        obtain rfl := Option.some.inj stepped
        exact ⟨stream, phases_set carries.clients (fun _ _ => rfl) (phaseCarries_drained own)⟩
      | some attempt =>
        cases attempt with
        | error error =>
          rw [owed] at stepped
          obtain rfl := Option.some.inj stepped
          exact ⟨stream, phases_set carries.clients (fun _ _ => rfl) (phaseCarries_drained own)⟩
        | ok snapshot =>
          rw [owed] at stepped
          obtain rfl := Option.some.inj stepped
          exact ⟨stream, phases_set carries.clients (fun _ _ => rfl) (phaseCarries_drained own)⟩
  · simp at stepped

theorem raise_carries {s : Tracked α σ τ} {client : Nat} {eventType : String}
    {payload : List UInt8} {now : Int} {w' : World α σ τ} (carries : Carries repo id t s)
    (fresh : RaisedFresh id s (.raise client eventType payload now))
    (stepped : repo.step s.world (.raise client eventType payload now) = some w') :
    w'.store = s.world.store ∧
      ∀ other, PhaseCarries id t (s.loaded other) (w'.clients other) := by
  simp only [step] at stepped
  split at stepped
  · rename_i held spoiled phase
    have own := carries.clients client
    rw [phase] at own
    split at stepped
    · simp at stepped
    · rename_i held' ok
      obtain rfl := Option.some.inj stepped
      refine ⟨rfl, phases_set carries.clients (fun _ _ => rfl) ?_⟩
      intro same
      rw [(command_ok ok).1] at same ⊢
      obtain ⟨tenant, events⟩ := own same
      refine ⟨tenant, fun event member => ?_⟩
      rcases List.mem_append.mp member with before | last
      · exact events event before
      · rw [List.mem_singleton.mp last]
        exact tenant (fresh held spoiled phase same)
  · simp at stepped

theorem Carries.step {s s' : Tracked α σ τ} {choice : Choice} (carries : Carries repo id t s)
    (built : BuiltWith id t choice) (fresh : RaisedFresh id s choice)
    (stepped : repo.trackedStep s choice = some s') : Carries repo id t s' := by
  obtain ⟨w', moved, rfl⟩ := Option.map_eq_some_iff.mp stepped
  have buffered := (step_transition carries.buffered moved).allBuffered carries.buffered
  cases choice with
  | create client other typed tenant =>
    have now : PhaseCarries id t (Function.update s.loaded client false client)
        (.holding (repo.created other typed tenant) false) := by
      intro same
      exact ⟨fun _ => built same, by simp [created]⟩
    have elsewhere : ∀ other, other ≠ client →
        Function.update s.loaded client false other = s.loaded other :=
      fun other differs => Function.update_of_ne differs _ _
    simp only [EventSourcedRepository.step] at moved
    split at moved
    · obtain rfl := Option.some.inj moved
      exact ⟨buffered, carries.stream, phases_set carries.clients elsewhere now⟩
    · obtain rfl := Option.some.inj moved
      exact ⟨buffered, carries.stream, phases_set carries.clients elsewhere now⟩
    · simp at moved
  | restore client other =>
    simp only [EventSourcedRepository.step] at moved
    have phases : ∀ phase : Client α, (∀ flag, PhaseCarries id t flag phase) →
        w' = s.world.set client phase → Carries repo id t ⟨w', s.loaded⟩ := by
      rintro phase nothing rfl
      exact ⟨buffered, carries.stream, phases_set carries.clients (fun _ _ => rfl) (nothing _)⟩
    split at moved
    · split at moved
      · exact phases .idle (fun _ => trivial) (Option.some.inj moved).symm
      · exact phases (.restored _ _) (fun _ => trivial) (Option.some.inj moved).symm
    · split at moved
      · exact phases .idle (fun _ => trivial) (Option.some.inj moved).symm
      · exact phases (.restored _ _) (fun _ => trivial) (Option.some.inj moved).symm
    · simp at moved
  | rebuild client =>
    have elsewhere : ∀ other, other ≠ client →
        Function.update s.loaded client true other = s.loaded other :=
      fun other differs => Function.update_of_ne differs _ _
    simp only [EventSourcedRepository.step] at moved
    split at moved
    · rename_i other restored phase
      split at moved
      · rename_i held ok
        obtain rfl := Option.some.inj moved
        refine ⟨buffered, carries.stream, phases_set carries.clients elsewhere ?_⟩
        -- What `load` returned has an empty buffer, and no tenant.
        have before := carries.buffered client
        rw [phase] at before
        intro same
        rw [rebuild_root ok]
        simp [before.1]
      · obtain rfl := Option.some.inj moved
        exact ⟨buffered, carries.stream, phases_set carries.clients elsewhere trivial⟩
    · simp at moved
  | raise client eventType payload now =>
    obtain ⟨same, clients⟩ := raise_carries carries fresh moved
    exact ⟨buffered, by rw [same]; exact carries.stream, clients⟩
  | append client =>
    obtain ⟨stream, clients⟩ := append_carries carries moved
    exact ⟨buffered, stream, clients⟩
  | write client =>
    simp only [EventSourcedRepository.step] at moved
    split at moved
    · rename_i held snapshot phase
      have own := carries.clients client
      rw [phase] at own
      have now : PhaseCarries id t (s.loaded client) (.holding held false) := own
      obtain rfl := Option.some.inj moved
      exact ⟨buffered, carries.stream, phases_set carries.clients (fun _ _ => rfl) now⟩
    · simp at moved

def Logged (inner : MemoryState) : Prop :=
  ∀ id, (inner.all.filter fun entry => entry.2.aggregateId = id).map Prod.snd =
    inner.streams.getD id []

theorem logged_pushAll {inner : MemoryState} {own : String} {events : List DomainEvent}
    (logged : Logged inner) (ids : ∀ event ∈ events, event.aggregateId = own) :
    Logged (events.foldl (MemoryEventStore.push own) inner) := by
  induction events generalizing inner with
  | nil => exact logged
  | cons event events ih =>
    refine ih ?_ fun event member => ids event (by simp [member])
    have here := ids event (by simp)
    intro id
    rw [MemoryEventStore.push, List.filter_append, List.map_append, logged id,
      Std.TreeMap.getD_insert]
    by_cases same : own = id
    · subst same
      simp [here]
    · simp [here, same]

theorem step_store {w w' : World α σ τ} {choice : Choice} (all : repo.AllBuffered w)
    (stepped : repo.step w choice = some w') :
    w'.store = w.store ∨ ∃ held, repo.Buffered held ∧
      w'.store = (repo.store.append w.store held.root.id (expected held)
        held.root.uncommitted).2 := by
  cases choice with
  | append client =>
    simp only [step] at stepped
    split at stepped
    · rename_i held spoiled phase
      have third : (repo.appendPending w.store held).2.2 = w.store ∨
          (repo.appendPending w.store held).2.2 = (repo.store.append w.store held.root.id
            (expected held) held.root.uncommitted).2 := by
        rw [appendPending]
        split
        · exact .inl rfl
        · right
          simp only [AggregateRoot.takeUncommitted]
          split <;> rename_i appended <;> rw [appended]
      have moved : w'.store = (repo.appendPending w.store held).2.2 := by
        split at stepped <;> rename_i appended <;> rw [appended] <;>
          exact (Option.some.inj stepped) ▸ rfl
      rw [moved]
      exact third.imp id fun same => ⟨held, all.holding phase, same⟩
    · simp at stepped
  | _ =>
    left
    simp only [step] at stepped
    repeat' split at stepped
    all_goals first
      | exact (Option.some.inj stepped) ▸ rfl
      | simp at stepped

def started (snaps : τ) : Tracked α MemoryState τ where
  world := { store := {}, snaps := snaps, clients := fun _ => .idle }
  loaded _ := false

theorem carries_started {repo : EventSourcedRepository α MemoryState τ}
    (memory : repo.store = MemoryEventStore.port) (snaps : τ) :
    Carries repo id t (started snaps) where
  buffered client := trivial
  stream := by simp [memory, MemoryEventStore.port, started]
  clients client := trivial

theorem logged_step {repo : EventSourcedRepository α MemoryState τ}
    (memory : repo.store = MemoryEventStore.port) {w w' : World α MemoryState τ} {choice : Choice}
    (all : repo.AllBuffered w) (logged : Logged w.store)
    (stepped : repo.step w choice = some w') : Logged w'.store := by
  rcases step_store all stepped with same | ⟨held, buffered, appended⟩
  · rwa [same]
  · rw [appended, memory]
    simp only [MemoryEventStore.port, MemoryEventStore.append]
    split
    · exact logged
    · split
      · exact logged
      · exact logged_pushAll logged (stamped_iff.mp buffered.stamped).1

theorem streamAll_tenant {inner : MemoryState} (logged : Logged inner)
    (carried : ∀ event ∈ inner.streams.getD id [], event.tenantId = some t) {limit : Nat}
    (positive : 0 < limit) (whole : inner.all.length ≤ limit) :
    ∃ page, MemoryEventStore.streamAll { inner := inner } none limit (some t) = .ok page ∧
      (page.filter fun streamed => streamed.event.aggregateId = id).map StreamedEvent.event =
        inner.streams.getD id [] := by
  refine ⟨_, rfl, ?_⟩
  have room : ([] : List StreamedEvent).length < limit := by simpa using positive
  rw [StoreAgreement.memoryPage_eq [] (some t) inner.all room]
  have short : (inner.all.filter fun entry =>
      MemoryEventStore.tenantMatches (some t) entry.2).length ≤ limit :=
    (List.length_filter_le _ _).trans whole
  have kept : (inner.all.filter fun entry => MemoryEventStore.tenantMatches (some t) entry.2).filter
      (fun entry => entry.2.aggregateId = id) =
        inner.all.filter fun entry => entry.2.aggregateId = id := by
    rw [List.filter_filter]
    apply List.filter_congr
    intro entry member
    by_cases own : entry.2.aggregateId = id
    · have stored : entry.2 ∈ inner.streams.getD id [] := by
        rw [← logged id]
        exact List.mem_map_of_mem (List.mem_filter.mpr ⟨member, by simpa using own⟩)
      simp [own, MemoryEventStore.tenantMatches, carried entry.2 stored]
    · simp [own]
  rw [List.nil_append, List.length_nil, Nat.sub_zero, List.take_of_length_le short,
    List.filter_map, List.map_map, ← logged id, ← kept]
  rfl

theorem tenant_kept {repo : EventSourcedRepository α MemoryState τ}
    (memory : repo.store = MemoryEventStore.port) {snaps : τ} {choices : List Choice}
    {s : Tracked α MemoryState τ} (built : ∀ choice ∈ choices, BuiltWith id t choice)
    (fresh : Along repo.trackedStep (RaisedFresh id) (started snaps) choices)
    (ran : run repo.trackedStep (started snaps) choices = some s) :
    (∀ event ∈ repo.store.stream s.world.store id, event.tenantId = some t) ∧
      ∀ limit, 0 < limit → s.world.store.all.length ≤ limit →
        ∃ page, MemoryEventStore.streamAll { inner := s.world.store } none limit (some t) =
            .ok page ∧
          (page.filter fun streamed => streamed.event.aggregateId = id).map StreamedEvent.event =
            repo.store.stream s.world.store id := by
  have along := (along_of_forall (fun choice member _ => built choice member) (started snaps)).and
    fresh
  have initial : Carries repo id t (started snaps) ∧ Logged (started snaps : Tracked α _ τ).world.store :=
    ⟨carries_started memory snaps, fun id => by simp [started]⟩
  have kept := run_invariant_along (fun s => Carries repo id t s ∧ Logged s.world.store)
    (fun s choice s' allowed here stepped => by
      obtain ⟨w', moved, same⟩ := Option.map_eq_some_iff.mp stepped
      refine ⟨here.1.step allowed.1 allowed.2 stepped, ?_⟩
      rw [← same]
      exact logged_step memory here.1.buffered here.2 moved) initial along ran
  refine ⟨kept.1.stream, fun limit positive whole => ?_⟩
  have carried := kept.1.stream
  rw [memory] at carried ⊢
  exact streamAll_tenant kept.2 carried positive whole

def reloaded : List Choice :=
  [.create 0 "c" true (some "acme"), .raise 0 "sent" [1] 0, .append 0, .restore 1 "c", .rebuild 1,
    .raise 1 "sent" [1] 0, .append 1]

theorem created_kept : ∃ s, run (counters 100).trackedStep (started .empty) (reloaded.take 3) = some s ∧
    ((∀ event ∈ (counters 100).store.stream s.world.store "c", event.tenantId = some "acme") ∧
      ∀ limit, 0 < limit → s.world.store.all.length ≤ limit →
        ∃ page, MemoryEventStore.streamAll { inner := s.world.store } none limit (some "acme") =
            .ok page ∧
          (page.filter fun streamed => streamed.event.aggregateId = "c").map StreamedEvent.event =
            (counters 100).store.stream s.world.store "c") := by
  let s := (run (counters 100).trackedStep (started .empty) (reloaded.take 3)).get (by decide)
  have ran : run (counters 100).trackedStep (started .empty) (reloaded.take 3) = some s := by
    simp [s]
  refine ⟨s, ran, tenant_kept rfl ?_ ?_ ran⟩
  · simp [reloaded, BuiltWith]
  · refine ⟨trivial, fun next stepped => ⟨?_, fun next' _ => ⟨trivial, fun _ _ => trivial⟩⟩⟩
    obtain rfl := Option.some.inj stepped
    intro held spoiled phase own
    rfl

theorem reloaded_loses_tenant : (∀ choice ∈ reloaded, BuiltWith "c" "acme" choice) ∧
    ∃ s, run (counters 100).trackedStep (started .empty) reloaded = some s ∧
      ((counters 100).store.stream s.world.store "c").map DomainEvent.tenantId =
        [some "acme", none] ∧
      ∃ page, MemoryEventStore.streamAll { inner := s.world.store } none 10 (some "acme") =
        .ok page ∧ page.length = 1 := by
  refine ⟨by simp [reloaded, BuiltWith], ?_⟩
  refine ⟨(run (counters 100).trackedStep (started .empty) reloaded).get (by decide),
    (Option.some_get _).symm, by decide, _, rfl, by decide⟩

end Firefly.Eventsourcing.EventSourcedRepository
