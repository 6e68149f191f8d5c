import Firefly.Eventsourcing.RepositoryContract

set_option autoImplicit false

namespace Firefly.Eventsourcing.EventSourcedRepository

open Runs

variable {α σ τ : Type} {repo : EventSourcedRepository α σ τ} {w w' : World α σ τ}

theorem WholeFold.unique {stream : List DomainEvent} {id : String} {first second : Option (Held α)}
    (left : repo.WholeFold stream id first) (right : repo.WholeFold stream id second) :
    first = second := by
  rw [WholeFold] at left right
  split at left
  · rename_i empty
    rw [if_pos empty] at right
    rw [left, right]
  · rename_i nonempty
    rw [if_neg nonempty] at right
    obtain ⟨state, folds, rfl⟩ := left
    obtain ⟨other, otherFolds, rfl⟩ := right
    obtain rfl : state = other := Except.ok.inj (folds.symm.trans otherFolds)
    rfl

theorem Coherent.plain (coherent : repo.Coherent w) : repo.plain.Coherent w where
  stamped := coherent.stamped
  typed := coherent.typed
  folds := coherent.folds
  clients client := by
    have own := coherent.clients client
    cases phase : w.clients client with
    | idle => trivial
    | restored id restored =>
      rw [phase] at own
      exact own
    | holding held spoiled =>
      rw [phase] at own
      cases spoiled <;> exact own
    | writing held snapshot =>
      rw [phase] at own
      exact own
  snaps snapshots configured := by simp [EventSourcedRepository.plain] at configured

theorem Coherent.load_ok (coherent : repo.Coherent w) {id : String}
    (events : ∀ since, ∃ events, repo.store.loadAfter w.store id since = .ok events)
    (latest : ∀ snapshots, repo.snapshots = some snapshots →
      ∃ latest, snapshots.latest w.snaps id = .ok latest) :
    ∃ loaded, repo.load w.store w.snaps id = .ok loaded ∧
      repo.WholeFold (repo.store.stream w.store id) id loaded := by
  obtain ⟨restored, start⟩ : ∃ restored, repo.restore w.snaps id = .ok restored := by
    rw [restore]
    cases configured : repo.snapshots with
    | none => exact ⟨_, rfl⟩
    | some snapshots =>
      obtain ⟨found, read⟩ := latest snapshots configured
      simp only [read]
      cases found with
      | none => exact ⟨_, rfl⟩
      | some snap =>
        obtain ⟨holds, -⟩ := snapshots.latest_holds _ _ _ read
        obtain ⟨version, state, -, -, -, restores⟩ :=
          coherent.snaps snapshots configured snap holds
        have given : (repo.fresh id).state = repo.aggregate.default := rfl
        simp only [given, restores]
        exact ⟨_, rfl⟩
  obtain ⟨after, read⟩ := events restored.2
  rw [load, start]
  exact coherent.rebuild_read (coherent.restored start) read

theorem crossed_of_multiple {held : Held α} (start : 0 ≤ expected held) {multiple : Int}
    (before : expected held < multiple * repo.snapshotInterval)
    (reached : multiple * repo.snapshotInterval ≤ held.root.version) : repo.crossed held := by
  have positive := repo.interval_pos
  rw [crossed, decide_eq_true_iff, Int.tdiv_eq_ediv_of_nonneg start,
    Int.tdiv_eq_ediv_of_nonneg (by omega)]
  calc expected held / repo.snapshotInterval
      < multiple := (Int.ediv_lt_iff_lt_mul positive).mpr before
    _ ≤ held.root.version / repo.snapshotInterval := (Int.le_ediv_iff_mul_le positive).mpr reached

def Undoes (aggregate : EventSourcedAggregate α) : Prop :=
  ∀ state, ∃ payload, aggregate.snapshotPayload state = .ok payload ∧
    aggregate.restoreSnapshot aggregate.default payload = .ok state

theorem Undoes.restores (undoes : Undoes repo.aggregate) : repo.Restores := by
  intro _ state payload taken
  obtain ⟨own, same, restored⟩ := undoes state
  obtain rfl : own = payload := Except.ok.inj (same.symm.trans taken)
  exact restored

theorem nextSnapshot_crossed {held : Held α} (undoes : Undoes repo.aggregate)
    (configured : repo.snapshots.isSome) (crossed : repo.crossed held) :
    ∃ snapshot, repo.nextSnapshot held = some (.ok snapshot) := by
  obtain ⟨payload, taken, -⟩ := undoes held.state
  rw [nextSnapshot, if_pos (by simp [configured, crossed]), taken]
  exact ⟨_, rfl⟩

theorem append_crossing {client : Nat} {held : Held α} {spoiled : Bool}
    (undoes : Undoes repo.aggregate) (configured : repo.snapshots.isSome)
    (all : repo.AllBuffered w) (phase : w.clients client = .holding held spoiled)
    (pending : held.root.uncommitted ≠ [])
    (accepts : repo.store.accepts w.store held.root.id (expected held))
    (crossed : repo.crossed held) :
    ∃ next snapshot, repo.step w (.append client) = some next ∧
      next.clients client = .writing (drained held) snapshot ∧
      snapshot.aggregateId = held.root.id ∧ snapshot.version = held.root.version := by
  obtain ⟨snapshot, owed⟩ := nextSnapshot_crossed undoes configured crossed
  obtain ⟨-, sameId, version, -⟩ := nextSnapshot_ok owed
  rcases append_cases w.store (all.holding phase) with
    ⟨empty, -⟩ | ⟨-, refuses, -⟩ | ⟨-, -, s, done, -⟩
  · exact absurd empty pending
  · simp [accepts] at refuses
  · refine ⟨({ w with store := s } : World α σ τ).set client (.writing (drained held) snapshot),
      snapshot, ?_, by simp, sameId, version⟩
    simp only [step, phase, done, owed]

section Memory

variable {w w' : World α σ MemorySnapshotStore}

structure Transparent (repo : EventSourcedRepository α σ MemorySnapshotStore)
    (w : World α σ MemorySnapshotStore) : Prop where
  loads : ∀ id, (∀ since, ∃ events, repo.store.loadAfter w.store id since = .ok events) →
    ∃ loaded, repo.load w.store w.snaps id = .ok loaded ∧
      repo.plain.load w.store w.snaps id = .ok loaded ∧
      repo.WholeFold (repo.store.stream w.store id) id loaded
  finishes : ∀ client id restored loaded, w.clients client = .restored id restored →
    repo.rebuild w.store id restored = .ok loaded →
    repo.WholeFold (repo.store.stream w.store id) id loaded
  crosses : ∀ client held spoiled multiple, w.clients client = .holding held spoiled →
    held.root.uncommitted ≠ [] → repo.store.accepts w.store held.root.id (expected held) →
    expected held < multiple * repo.snapshotInterval →
    multiple * repo.snapshotInterval ≤ held.root.version →
    ∃ next snapshot, repo.step w (.append client) = some next ∧
      next.clients client = .writing (drained held) snapshot ∧
      snapshot.aggregateId = held.root.id ∧
      multiple * repo.snapshotInterval ≤ snapshot.version
  writes : ∀ client held snapshot, w.clients client = .writing held snapshot →
    ∃ next, repo.step w (.write client) = some next ∧
      next.snaps.latest snapshot.aggregateId = .ok (some snapshot)

theorem snapshots_transparent {aggregate : EventSourcedAggregate α} {store : EventStore σ}
    {snapshotInterval : Int} {choices : List Choice} (undoes : Undoes aggregate)
    (empty : (withSnapshots aggregate store MemorySnapshotStore.port snapshotInterval).Empty w)
    (along : Along (withSnapshots aggregate store MemorySnapshotStore.port snapshotInterval).step
      (withSnapshots aggregate store MemorySnapshotStore.port snapshotInterval).NoReuse w choices)
    (ran : run (withSnapshots aggregate store MemorySnapshotStore.port snapshotInterval).step w
      choices = some w') :
    (withSnapshots aggregate store MemorySnapshotStore.port snapshotInterval).Transparent w' := by
  have configured : (withSnapshots aggregate store MemorySnapshotStore.port
      snapshotInterval).snapshots = some MemorySnapshotStore.port := rfl
  have undoesHere : Undoes (withSnapshots aggregate store MemorySnapshotStore.port
      snapshotInterval).aggregate := undoes
  generalize withSnapshots aggregate store MemorySnapshotStore.port snapshotInterval = repo at *
  have all := reachable_allBuffered empty ran
  have coherent := reachable_coherent undoesHere.restores empty along ran
  refine ⟨?_, ?_, ?_, ?_⟩
  · intro id reads
    obtain ⟨loaded, ok, whole⟩ := coherent.load_ok reads (by
      intro snapshots same
      obtain rfl := Option.some.inj (configured.symm.trans same)
      exact ⟨_, rfl⟩)
    obtain ⟨plainly, plainOk, plainWhole⟩ := coherent.plain.load_ok reads (by
      intro snapshots same
      simp [EventSourcedRepository.plain] at same)
    obtain rfl : plainly = loaded := WholeFold.unique plainWhole whole
    exact ⟨plainly, ok, plainOk, whole⟩
  · intro client id restored loaded phase ok
    have start := coherent.clients client
    rw [phase] at start
    exact coherent.rebuilt start ok
  · intro client held spoiled multiple phase pending accepts before reached
    have head := repo.store.atHead _ _ _ accepts
    have crossed := crossed_of_multiple (by omega) before reached
    obtain ⟨next, snapshot, stepped, writing, sameId, version⟩ :=
      append_crossing undoesHere (by simp [configured]) all phase pending accepts crossed
    exact ⟨next, snapshot, stepped, writing, sameId, by omega⟩
  · intro client held snapshot phase
    refine ⟨({ w' with snaps := (repo.writeSnapshot w'.snaps snapshot).2 } :
      World α σ MemorySnapshotStore).set client (.holding held false),
      by simp only [step, phase], ?_⟩
    simp [writeSnapshot, configured, MemorySnapshotStore.port, MemorySnapshotStore.save,
      MemorySnapshotStore.latest]

theorem race_transparent : ∃ w, run (counters 2).step noCounters
    (race ++ [.append 0, .append 1, .raise 0 "sent" [1] 0, .append 0]) = some w ∧
      (counters 2).Transparent w := by
  have undoes : Undoes byteCounter := fun state =>
    ⟨List.replicate state 0, rfl, by simp [byteCounter]⟩
  exact ⟨_, (Option.some_get (by decide)).symm, snapshots_transparent undoes (noCounters_empty 2)
    (by decide) (Option.some_get (by decide)).symm⟩

theorem stale_save_snapshotted : ∃ w, run (counters 2).step noCounters
    (staleReuse ++ [.append 1, .write 1]) = some w ∧
      (counters 2).load w.store w.snaps "c" = .ok (some (counter 2 [] 4)) ∧
      (counters 2).plain.load w.store w.snaps "c" = .ok (some (counter 2 [] 2)) ∧
      ¬ (counters 2).Transparent w := by
  let w := (run (counters 2).step noCounters (staleReuse ++ [.append 1, .write 1])).get (by decide)
  have polluted : (counters 2).load w.store w.snaps "c" = .ok (some (counter 2 [] 4)) := rfl
  have replayed : (counters 2).plain.load w.store w.snaps "c" = .ok (some (counter 2 [] 2)) := rfl
  refine ⟨w, (Option.some_get _).symm, polluted, replayed, fun transparent => ?_⟩
  obtain ⟨loaded, restored, plainly, -⟩ := transparent.loads "c" (fun _ => ⟨_, rfl⟩)
  rw [polluted] at restored
  rw [replayed, ← restored] at plainly
  simp [counter] at plainly

end Memory

end Firefly.Eventsourcing.EventSourcedRepository
