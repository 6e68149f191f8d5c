import Firefly.Resilience.CircuitBreakerPhases

set_option autoImplicit false

namespace Firefly.Resilience.CircuitBreaker

open Runs

structure Watched where
  state : State := {}
  since : Nat := 0

def watchedStep (cb : CircuitBreaker) (w : Watched) (choice : Choice) : Option Watched :=
  (cb.step w.state choice).map fun next =>
    ⟨next, if next.inner.state = w.state.inner.state then w.since else next.now⟩

def Held (cb : CircuitBreaker) (w : Watched) : Prop :=
  w.state.inner.state = .opened → w.state.inner.openedAt = some w.since ∧
    ∀ now, (cb.allow now w.state.inner).map Prod.fst = some (decide (w.since + cb.openDuration ≤ now))

def counted (cb : CircuitBreaker) (now : Nat) (inner : BreakerInner) : BreakerInner :=
  { inner with
    outcomes := cb.pushOutcome true inner.outcomes
    failures := cb.pushFailure now inner.failures }

def NoLateTrip (cb : CircuitBreaker) (w : Watched) : Choice → Prop
  | .finish call true =>
    w.state.calls call = .running → w.state.inner.state = .opened →
      w.state.inner.openedAt = some w.state.now ∨
        cb.tripped (cb.counted w.state.now w.state.inner) = false
  | _ => True

instance (cb : CircuitBreaker) : ∀ (w : Watched) (choice : Choice), Decidable (cb.NoLateTrip w choice)
  | w, .finish call true => inferInstanceAs (Decidable (w.state.calls call = .running →
      w.state.inner.state = .opened → w.state.inner.openedAt = some w.state.now ∨
        cb.tripped (cb.counted w.state.now w.state.inner) = false))
  | _, .finish _ false | _, .tick _ | _, .before _ | _, .drop _ => isTrue trivial

variable {cb : CircuitBreaker} {w w' : Watched}

theorem allow_admits {inner : BreakerInner} {openedAt : Nat} (lasts : 0 < cb.openDuration)
    (opened : inner.state = .opened) (since : inner.openedAt = some openedAt) (now : Nat) :
    (cb.allow now inner).map Prod.fst = some (decide (openedAt + cb.openDuration ≤ now)) := by
  rw [allow_opened opened since]
  by_cases elapsed : openedAt + cb.openDuration ≤ now
  · rw [if_pos (by omega), decide_eq_true elapsed]
    rfl
  · rw [if_neg (by omega), decide_eq_false elapsed]
    rfl

theorem held_iff (lasts : 0 < cb.openDuration) :
    Held cb w ↔ (w.state.inner.state = .opened → w.state.inner.openedAt = some w.since) :=
  ⟨fun held opened => (held opened).1,
    fun dated opened => ⟨dated opened, allow_admits lasts opened (dated opened)⟩⟩

theorem record_opened_failed {inner : BreakerInner} (now : Nat) (opened : inner.state = .opened) :
    (cb.record now true inner).state = .opened ∧ (cb.record now true inner).openedAt =
      if cb.tripped (cb.counted now inner) then some now else inner.openedAt := by
  have other : inner.state ≠ .halfOpen := by simp [opened]
  simp only [record, other, if_true, if_false]
  split
  · rename_i trips
    have trips' : cb.tripped (cb.counted now inner) = true := by simpa [counted] using trips
    simp [trips']
  · rename_i holds
    have holds' : cb.tripped (cb.counted now inner) = false := by simpa [counted] using holds
    simp [holds', opened]

theorem record_succeeded {inner : BreakerInner} (now : Nat) (other : inner.state ≠ .halfOpen) :
    (cb.record now false inner).state = inner.state ∧
      (cb.record now false inner).openedAt = inner.openedAt := by
  simp only [record, other, Bool.false_eq_true, if_false]
  split <;> exact ⟨rfl, rfl⟩

theorem allow_inner {inner inner' : BreakerInner} {now : Nat} {admitted : Bool}
    (gated : cb.allow now inner = some (admitted, inner')) :
    inner' = inner ∨ inner'.state = .halfOpen := by
  cases state : inner.state with
  | closed =>
    rw [allow_closed state] at gated
    exact .inl (Prod.mk.inj (Option.some.inj gated)).2.symm
  | opened =>
    cases since : inner.openedAt with
    | none => simp [allow, state, since] at gated
    | some openedAt =>
      rw [allow_opened state since] at gated
      split at gated
      · obtain ⟨-, rfl⟩ := Prod.mk.inj (Option.some.inj gated)
        exact .inr rfl
      · exact .inl (Prod.mk.inj (Option.some.inj gated)).2.symm
  | halfOpen =>
    rw [allow_halfOpen state] at gated
    split at gated
    · obtain ⟨-, rfl⟩ := Prod.mk.inj (Option.some.inj gated)
      exact .inr state
    · exact .inl (Prod.mk.inj (Option.some.inj gated)).2.symm

def Dated (w : Watched) : Prop :=
  w.state.inner.state = .opened → w.state.inner.openedAt = some w.since

theorem Dated.same (dated : Dated w) {next : State} (same : next.inner = w.state.inner) :
    Dated ⟨next, if next.inner.state = w.state.inner.state then w.since else next.now⟩ := by
  rw [same, if_pos rfl]
  intro opened
  rw [same] at opened ⊢
  exact dated opened

theorem finish_dated (dated : Dated w) {call : Nat} {failed : Bool}
    (running : w.state.calls call = .running) {next : State}
    (inner : next.inner = cb.record w.state.now failed w.state.inner)
    (now : next.now = w.state.now) :
    Dated ⟨next, if next.inner.state = w.state.inner.state then w.since else next.now⟩ ↔
      cb.NoLateTrip w (.finish call failed) := by
  rw [Dated, inner, now]
  cases state : w.state.inner.state with
  | opened =>
    have since := dated state
    cases failed with
    | false =>
      obtain ⟨same, kept⟩ := @record_succeeded cb _ w.state.now
        (show w.state.inner.state ≠ .halfOpen by simp [state])
      refine iff_of_true (fun _ => ?_) trivial
      simp [same, kept, state, since]
    | true =>
      obtain ⟨still, moved⟩ := @record_opened_failed cb _ w.state.now state
      simp only [still, moved, if_true, NoLateTrip, running, state, forall_const, since]
      by_cases trips : cb.tripped (cb.counted w.state.now w.state.inner)
      · simp [trips, eq_comm]
      · simp [trips]
  | closed =>
    have quiet : cb.NoLateTrip w (.finish call failed) := by
      cases failed with
      | false => trivial
      | true => intro _ opened; simp [state] at opened
    refine iff_of_true (fun opened => ?_) quiet
    obtain ⟨-, since | ⟨same, -⟩⟩ := record_elsewhere cb w.state.now failed
      (show w.state.inner.state ≠ .halfOpen by simp [state])
    · simpa [opened] using since
    · simp [opened, state] at same
  | halfOpen =>
    have quiet : cb.NoLateTrip w (.finish call failed) := by
      cases failed with
      | false => trivial
      | true => intro _ opened; simp [state] at opened
    refine iff_of_true (fun opened => ?_) quiet
    cases failed with
    | true =>
      obtain ⟨-, since⟩ := record_halfOpen_failed cb w.state.now state
      simpa [opened] using since
    | false =>
      have outcome := record_halfOpen_succeeded cb w.state.now state
      split at outcome <;> simp_all

theorem dated_step (dated : Dated w) {choice : Choice}
    (stepped : watchedStep cb w choice = some w') : Dated w' ↔ cb.NoLateTrip w choice := by
  obtain ⟨next, moved, rfl⟩ := Option.map_eq_some_iff.mp stepped
  cases choice with
  | tick elapsed =>
    obtain rfl := Option.some.inj moved
    exact iff_of_true (dated.same rfl) trivial
  | before call =>
    refine iff_of_true ?_ trivial
    rw [step] at moved
    split at moved
    · split at moved
      · cases moved
      · rename_i inner gated
        obtain rfl := Option.some.inj moved
        rcases allow_inner gated with same | halfOpen
        · exact dated.same same
        · intro opened
          simp [State.advance, halfOpen] at opened
      · rename_i inner gated
        obtain rfl := Option.some.inj moved
        rcases allow_inner gated with same | halfOpen
        · exact dated.same same
        · intro opened
          simp [State.advance, halfOpen] at opened
    · cases moved
  | finish call failed =>
    rw [step] at moved
    split at moved
    · rename_i running
      obtain rfl := Option.some.inj moved
      exact finish_dated dated running rfl rfl
    · cases moved
  | drop call =>
    rw [step] at moved
    split at moved
    · obtain rfl := Option.some.inj moved
      exact iff_of_true (dated.same rfl) trivial
    · cases moved

theorem new_lasts (cfg : CircuitConfig) : 0 < (new cfg).openDuration := by
  simp only [new]
  split <;> omega

theorem open_phase_fixed (cfg : CircuitConfig) (choices : List Choice) :
    Always (watchedStep (new cfg)) (Held (new cfg)) {} choices ↔
      Along (watchedStep (new cfg)) (new cfg).NoLateTrip {} choices := by
  have lasts := new_lasts cfg
  refine always_iff_along_of_steps (fun w choice refused => ?_) (fun w choice next held stepped => ?_)
    choices ((held_iff lasts).mpr (by simp))
  · cases choice with
    | finish call failed =>
      cases failed with
      | false => trivial
      | true =>
        intro running
        rw [watchedStep, Option.map_eq_none_iff, step, if_pos running] at refused
        cases refused
    | tick elapsed => trivial
    | before call => trivial
    | drop call => trivial
  · rw [held_iff lasts] at held ⊢
    exact dated_step held stepped

def touchy : CircuitConfig where
  failureThreshold := 1
  window := 0
  openDuration := 10

def lateFailure : List Choice :=
  [.before 0, .before 1, .finish 0 true, .tick 5, .finish 1 true, .tick 5]

theorem late_failure_extends :
    ¬ Always (watchedStep (new touchy)) (Held (new touchy)) {} lateFailure := by
  have reached : (run (watchedStep (new touchy)) {} lateFailure).map (fun w =>
      (w.state.inner.state, w.since, ((new touchy).allow 10 w.state.inner).map Prod.fst)) =
      some (.opened, 0, some false) := by decide
  obtain ⟨w, ran, seen⟩ := Option.map_eq_some_iff.mp reached
  simp only [Prod.mk.injEq] at seen
  obtain ⟨opened, since, gated⟩ := seen
  intro always
  have held := (always lateFailure [] (by simp) w ran opened).2 10
  rw [gated, since] at held
  exact absurd held (by decide)

end Firefly.Resilience.CircuitBreaker
