import Firefly.DataSqlx.Tx
import Firefly.Transactional.EventPhases

set_option autoImplicit false

namespace Firefly.DataSqlx

open Transactional Transactional.Events

section Outcomes

variable {ε : Type} (listeners : ε → List (Listener ε)) (log : List (Note ε))

/-- How the transaction of an event ends that is published within these calls: the one that began it,
and those that can be rolled back alone. -/
def OwnOutcome (within : List Nat) : TransactionPhase → Prop
  | .afterCommit => ∀ call ∈ within, Reported log call .afterCommit
  | .afterRollback => ∃ call ∈ within, Reported log call .afterRollback
  | .beforeCommit | .afterCompletion => False

def FollowOwn : Prop :=
  ∀ buffered scope tx passed within, .published buffered scope tx passed within ∈ log →
    within ≠ [] → ∀ (i : Nat) listener phase, (listeners buffered.event)[i]? = some listener →
      listener.phase = some phase → phase = .afterCommit ∨ phase = .afterRollback →
        (.delivered buffered.number i phase ∈ log ↔ OwnOutcome log within phase) ∧
          ∀ earlier, earlier <+: log → .delivered buffered.number i phase ∈ earlier →
            ∀ call ∈ within, Events.Ended earlier call

def OneOutcome : Prop :=
  ∀ buffered scope tx passed within, .published buffered scope tx passed within ∈ log →
    within ≠ [] → ∀ (i : Nat) listener phase, (listeners buffered.event)[i]? = some listener →
      listener.phase = some phase → phase = .afterCommit ∨ phase = .afterRollback →
        (Reported log scope phase ∧ phase ∉ passed ↔ OwnOutcome log within phase)

-- The common join: no call inside has an outcome of its own.
theorem oneOutcome_of_joined
    (joined : ∀ buffered scope tx passed within,
      .published buffered scope tx passed within ∈ log → within ≠ [] →
        within = [scope] ∧ passed ⊆ [.beforeCommit]) : OneOutcome listeners log := by
  intro buffered scope tx passed within among inside i listener phase _ _ completion
  obtain ⟨rfl, early⟩ := joined _ _ _ _ _ among inside
  have unseen : phase ∉ passed := fun seen => by
    obtain rfl := List.mem_singleton.mp (early seen)
    simp at completion
  rcases completion with rfl | rfl <;> simp [OwnOutcome, unseen]

end Outcomes

section Outermost

variable {ε σ τ : Type} {setting : Setting ε σ τ} {depth : Nat} {program : Events.Program ε}
  {session : σ} {result : Except TxError Unit} {w : World ε σ}

theorem given_after_own
    (ran : Events.run setting depth program { session } = some (result, w))
    {buffered : BufferedEvent ε} {scope tx : Nat} {passed : List TransactionPhase}
    {within : List Nat} (among : .published buffered scope tx passed within ∈ w.log) {i : Nat}
    {listener : Listener ε} {phase : TransactionPhase}
    (listens : (setting.listeners buffered.event)[i]? = some listener)
    (bound : listener.phase = some phase)
    (completion : phase = .afterCommit ∨ phase = .afterRollback) :
    ∀ earlier, earlier <+: w.log → .delivered buffered.number i phase ∈ earlier →
      ∀ call ∈ within, Events.Ended earlier call := by
  intro earlier front given
  obtain ⟨failed, report, settled⟩ := (run_book ran).settled _ _ _ _ _ among
  have late : phase ≠ .beforeCommit := by rcases completion with rfl | rfl <;> decide
  obtain ⟨reported, unseen⟩ :=
    (settled.delivered_iff listens bound completion).mp (front.subset given)
  have early := settled.early (settled.reported_iff.mp reported) unseen
  exact (run_book ran).enclosed _ _ _ _ _ among early earlier front
    ⟨failed, report, settled.order earlier i phase front given late⟩

theorem events_follow_own_iff
    (ran : Events.run setting depth program { session } = some (result, w)) :
    FollowOwn setting.listeners w.log ↔ OneOutcome setting.listeners w.log := by
  unfold FollowOwn OneOutcome
  refine forall₅_congr fun buffered scope tx passed within => forall₂_congr fun among _ => ?_
  refine forall₃_congr fun i listener phase => forall₃_congr fun listens bound completion => ?_
  obtain ⟨failed, report, settled⟩ := (run_book ran).settled _ _ _ _ _ among
  rw [settled.delivered_iff listens bound completion]
  exact and_iff_left (given_after_own ran among listens bound completion)

end Outermost

section RequiresNew

def Kind.standing : Kind → Standing
  | .root | .requiresNew => .own
  | .nested _ => .savepoint
  | .plain | .joined => .joined
  | .suspended => .suspended

def sqlxSetting : Setting Unit Session Token where
  listeners := fun _ =>
    [{ phase := some .afterCommit, dispatcher := .done (.ok ()) },
      { phase := some .afterRollback, dispatcher := .done (.ok ()) }]
  manager := sqlxTransactionManager
  standing := fun token => token.kind.standing
  execute := Session.execute

def released : Events.Program Unit :=
  .call .required (fun _ => true)
    (.call .nested (fun _ => true) (.publish () (.done (.ok ()))) fun _ =>
      .done (.error (.application "outer"))) .done

def releasedEnd : World Unit Session where
  session :=
    { nextTx := 1
      trace := [.began 0, .entered .required true (some 0), .entered .nested false (some 0),
        .answered .nested false (some 0) false (.ok false), .rolledBack 0,
        .answered .required true (some 0) true (.ok true)] }
  calls := 2
  numbers := 1
  log := [.published { number := 0, event := () } 0 0 [] [1, 0], .ended 1 false (.ok false),
    .ended 0 true (.ok true), .dispatched 0 .afterRollback, .delivered 0 1 .afterRollback,
    .dispatched 0 .afterCompletion]

theorem released_one_outcome : OneOutcome sqlxSetting.listeners releasedEnd.log := by
  intro buffered scope tx passed within among _ i listener phase _ _ completion
  obtain ⟨rfl, rfl, rfl, rfl, rfl⟩ : buffered = { number := 0, event := () } ∧ scope = 0 ∧ tx = 0 ∧
      passed = [] ∧ within = [1, 0] := by simpa [releasedEnd] using among
  rcases completion with rfl | rfl <;>
    simp [OwnOutcome, Reported, releasedEnd, completionPhase]

theorem released_follows_own : FollowOwn sqlxSetting.listeners releasedEnd.log :=
  (events_follow_own_iff
    (show Events.run sqlxSetting 1 released { session := {} } =
      some (.error (.application "outer"), releasedEnd) from rfl)).mpr released_one_outcome

def innerFailed : Events.Program Unit :=
  .call .required (fun _ => true)
    (.call .requiresNew (fun _ => true)
      (.publish () (.done (.error (.application "inner")))) fun _ => .done (.ok ())) .done

def innerFailedEnd : World Unit Session where
  session :=
    { nextTx := 2
      trace := [.began 0, .entered .required true (some 0), .began 1,
        .entered .requiresNew true (some 1), .rolledBack 1,
        .answered .requiresNew true (some 1) true (.ok true), .committed 0 [],
        .answered .required true (some 0) false (.ok false)] }
  calls := 2
  numbers := 1
  log := [.published { number := 0, event := () } 0 1 [] [1], .ended 1 true (.ok true),
    .dispatched 0 .beforeCommit, .ended 0 false (.ok false), .dispatched 0 .afterCommit,
    .delivered 0 0 .afterCommit, .dispatched 0 .afterCompletion]

theorem rolled_back_event_committed :
    (.rolledBack 1 ∈ innerFailedEnd.session.trace) ∧
      ¬ ∀ result w, Events.run sqlxSetting 1 innerFailed { session := {} } = some (result, w) →
        FollowOwn sqlxSetting.listeners w.log := by
  refine ⟨by decide, fun follows => ?_⟩
  have ran : Events.run sqlxSetting 1 innerFailed { session := {} } =
      some (.ok (), innerFailedEnd) := rfl
  have given := (follows _ _ ran { number := 0, event := () } 0 1 [] [1] (by simp [innerFailedEnd])
    nofun 0 _ .afterCommit rfl rfl (.inl rfl)).1.mp (by simp [innerFailedEnd])
  obtain ⟨failed, report, ended, committed⟩ := given 1 List.mem_cons_self
  obtain ⟨rfl, rfl⟩ : failed = true ∧ report = .ok true := by simpa [innerFailedEnd] using ended
  cases committed

end RequiresNew

end Firefly.DataSqlx
