import Firefly.Resilience.CircuitBreaker

set_option autoImplicit false

namespace Firefly.Resilience.CircuitBreaker

open Runs

variable {cb : CircuitBreaker} {s s' : State} {choice : Choice}

theorem allow_opened {inner : BreakerInner} {openedAt now : Nat} (opened : inner.state = .opened)
    (since : inner.openedAt = some openedAt) :
    cb.allow now inner =
      if now - openedAt ≥ cb.openDuration then
        some (true, { inner with state := .halfOpen, halfOpenCalls := 1, halfOpenSuccesses := 0 })
      else some (false, inner) := by
  have budget := cb.hasProbe
  by_cases elapsed : now - openedAt ≥ cb.openDuration
  · simp only [allow, opened, since, elapsed, if_true, Option.map_some]
    rw [if_pos budget]
  · simp only [allow, opened, since, elapsed, if_true, if_false, Option.map_some]

theorem allow_closed {inner : BreakerInner} {now : Nat} (closed : inner.state = .closed) :
    cb.allow now inner = some (true, inner) := by
  simp [allow, closed]

theorem allow_halfOpen {inner : BreakerInner} {now : Nat} (halfOpen : inner.state = .halfOpen) :
    cb.allow now inner =
      if inner.halfOpenCalls < cb.halfOpenMaxCalls then
        some (true, { inner with halfOpenCalls := inner.halfOpenCalls + 1 })
      else some (false, inner) := by
  simp only [allow, halfOpen, reduceCtorEq, if_false]
  split <;> rfl

variable (cb) in
theorem record_halfOpen_failed {inner : BreakerInner} (now : Nat)
    (halfOpen : inner.state = .halfOpen) : (cb.record now true inner).state = .opened ∧
      (cb.record now true inner).openedAt = some now := by
  simp [record, halfOpen]

variable (cb) in
theorem record_halfOpen_succeeded {inner : BreakerInner} (now : Nat)
    (halfOpen : inner.state = .halfOpen) :
    if cb.halfOpenMaxCalls ≤ inner.halfOpenSuccesses + 1 then
      (cb.record now false inner).state = .closed
    else
      (cb.record now false inner).state = .halfOpen ∧
      (cb.record now false inner).halfOpenCalls = inner.halfOpenCalls ∧
      (cb.record now false inner).halfOpenSuccesses = inner.halfOpenSuccesses + 1 := by
  simp only [record, halfOpen, Bool.false_eq_true, if_false, if_true]
  split <;> simp_all

variable (cb) in
theorem record_elsewhere {inner : BreakerInner} (now : Nat) (failed : Bool)
    (elsewhere : inner.state ≠ .halfOpen) : (cb.record now failed inner).state ≠ .halfOpen ∧
      ((cb.record now failed inner).openedAt = some now ∨
        (cb.record now failed inner).state = inner.state ∧
          (cb.record now failed inner).openedAt = inner.openedAt) := by
  cases failed with
  | true =>
    simp only [record, elsewhere, if_true, if_false]
    split
    · simp
    · exact ⟨elsewhere, .inr ⟨rfl, rfl⟩⟩
  | false =>
    simp only [record, elsewhere, Bool.false_eq_true, if_false]
    split <;> exact ⟨elsewhere, .inr ⟨rfl, rfl⟩⟩

inductive Transition (cb : CircuitBreaker) (s : State) : Choice → State → Prop where
  | tick (elapsed : Nat) : Transition cb s (.tick elapsed) { s with now := s.now + elapsed }
  | passed (call : Nat) (idle : s.calls call = .idle) (closed : s.inner.state = .closed) :
      Transition cb s (.before call)
        ({ s with phase := s.phase ++ [Event.admitted call] }.setCall call .running)
  | refused (call : Nat) (idle : s.calls call = .idle) :
      Transition cb s (.before call) (s.setCall call .rejected)
  | firstProbe (call : Nat) (inner : BreakerInner) (idle : s.calls call = .idle)
      (opened : s.inner.state = .opened) (halfOpen : inner.state = .halfOpen)
      (calls : inner.halfOpenCalls = 1) (successes : inner.halfOpenSuccesses = 0) :
      Transition cb s (.before call)
        ({ s with inner := inner, phase := [.admitted call] }.setCall call .running)
  | probe (call : Nat) (idle : s.calls call = .idle) (halfOpen : s.inner.state = .halfOpen)
      (budget : s.inner.halfOpenCalls < cb.halfOpenMaxCalls) :
      Transition cb s (.before call)
        ({ s with
          inner := { s.inner with halfOpenCalls := s.inner.halfOpenCalls + 1 }
          phase := s.phase ++ [Event.admitted call] }.setCall call .running)
  | reopened (call : Nat) (inner : BreakerInner) (running : s.calls call = .running)
      (halfOpen : s.inner.state = .halfOpen) (opened : inner.state = .opened)
      (since : inner.openedAt = some s.now) :
      Transition cb s (.finish call true)
        ({ s with inner := inner, phase := [] }.setCall call .finished)
  | reclosed (call : Nat) (inner : BreakerInner) (running : s.calls call = .running)
      (halfOpen : s.inner.state = .halfOpen) (closed : inner.state = .closed)
      (enough : cb.halfOpenMaxCalls ≤ s.inner.halfOpenSuccesses + 1) :
      Transition cb s (.finish call false)
        ({ s with inner := inner, phase := [] }.setCall call .finished)
  | probed (call : Nat) (inner : BreakerInner) (running : s.calls call = .running)
      (halfOpen : s.inner.state = .halfOpen) (still : inner.state = .halfOpen)
      (calls : inner.halfOpenCalls = s.inner.halfOpenCalls)
      (successes : inner.halfOpenSuccesses = s.inner.halfOpenSuccesses + 1)
      (budget : inner.halfOpenSuccesses < cb.halfOpenMaxCalls) :
      Transition cb s (.finish call false)
        ({ s with inner := inner, phase := s.phase ++ [Event.reported call false] }.setCall call .finished)
  | elsewhere (call : Nat) (failed : Bool) (inner : BreakerInner) (phase : List Event)
      (running : s.calls call = .running) (before : s.inner.state ≠ .halfOpen)
      (after : inner.state ≠ .halfOpen)
      (since : inner.openedAt = some s.now ∨
        inner.state = s.inner.state ∧ inner.openedAt = s.inner.openedAt)
      (events : phase = s.phase ++ [Event.reported call failed] ∨ phase = []) :
      Transition cb s (.finish call failed)
        ({ s with inner := inner, phase := phase }.setCall call .finished)
  | drop (call : Nat) (running : s.calls call = .running) :
      Transition cb s (.drop call) (s.setCall call .dropped)

theorem before_transition {call : Nat} (dated : s.inner.state = .opened → s.inner.openedAt.isSome)
    (stepped : cb.step s (.before call) = some s') : Transition cb s (.before call) s' := by
  rw [step] at stepped
  split at stepped
  · rename_i idle
    cases state : s.inner.state with
    | closed =>
      rw [allow_closed state] at stepped
      obtain rfl := Option.some.inj stepped
      simpa [State.advance] using @Transition.passed cb s call idle state
    | opened =>
      obtain ⟨openedAt, since⟩ := Option.isSome_iff_exists.mp (dated state)
      rw [allow_opened state since] at stepped
      by_cases elapsed : s.now - openedAt ≥ cb.openDuration
      · simp only [elapsed, if_true] at stepped
        obtain rfl := Option.some.inj stepped
        simpa [State.advance, state] using
          @Transition.firstProbe cb s call
            { s.inner with state := .halfOpen, halfOpenCalls := 1, halfOpenSuccesses := 0 }
            idle state rfl rfl rfl
      · simp only [elapsed, if_false] at stepped
        obtain rfl := Option.some.inj stepped
        simpa [State.advance] using @Transition.refused cb s call idle
    | halfOpen =>
      rw [allow_halfOpen state] at stepped
      by_cases budget : s.inner.halfOpenCalls < cb.halfOpenMaxCalls
      · simp only [budget, if_true] at stepped
        obtain rfl := Option.some.inj stepped
        simpa [State.advance] using Transition.probe call idle state budget
      · simp only [budget, if_false] at stepped
        obtain rfl := Option.some.inj stepped
        simpa [State.advance] using @Transition.refused cb s call idle
  · simp at stepped

theorem finish_transition {call : Nat} {failed : Bool}
    (stepped : cb.step s (.finish call failed) = some s') :
    Transition cb s (.finish call failed) s' := by
  rw [step] at stepped
  split at stepped
  · rename_i running
    obtain rfl := Option.some.inj stepped
    by_cases halfOpen : s.inner.state = .halfOpen
    · cases failed with
      | true =>
        obtain ⟨opened, since⟩ := record_halfOpen_failed cb s.now halfOpen
        simpa [State.advance, halfOpen, opened] using
          @Transition.reopened cb s call _ running halfOpen opened since
      | false =>
        have outcome := record_halfOpen_succeeded cb s.now halfOpen
        split at outcome
        · rename_i enough
          simpa [State.advance, halfOpen, outcome] using
            Transition.reclosed call _ running halfOpen outcome enough
        · rename_i budget
          obtain ⟨still, calls, successes⟩ := outcome
          simpa [State.advance, halfOpen, still] using
            @Transition.probed cb s call _ running halfOpen still calls successes (by omega)
    · obtain ⟨after, since⟩ := record_elsewhere cb s.now failed halfOpen
      refine Transition.elsewhere call failed _ _ running halfOpen after since ?_
      by_cases same : (cb.record s.now failed s.inner).state = s.inner.state <;> simp [same]
  · simp at stepped

theorem step_transition (dated : s.inner.state = .opened → s.inner.openedAt.isSome)
    (stepped : cb.step s choice = some s') : Transition cb s choice s' := by
  cases choice with
  | tick elapsed =>
    obtain rfl := Option.some.inj stepped
    exact .tick elapsed
  | before call => exact before_transition dated stepped
  | finish call failed => exact finish_transition stepped
  | drop call =>
    rw [step] at stepped
    split at stepped
    · rename_i running
      obtain rfl := Option.some.inj stepped
      exact .drop call running
    · simp at stepped

def Event.admission : Event → Option Nat
  | .admitted call => some call
  | .reported _ _ => none

def Event.success : Event → Option Nat
  | .reported call false => some call
  | _ => none

def admissions (phase : List Event) : List Nat := phase.filterMap Event.admission

def successes (phase : List Event) : List Nat := phase.filterMap Event.success

@[simp] theorem admissions_nil : admissions [] = [] := rfl

@[simp] theorem successes_nil : successes [] = [] := rfl

@[simp] theorem admissions_admitted (call : Nat) : admissions [.admitted call] = [call] := rfl

@[simp] theorem admissions_reported (call : Nat) (failed : Bool) :
    admissions [.reported call failed] = [] := rfl

@[simp] theorem successes_admitted (call : Nat) : successes [.admitted call] = [] := rfl

@[simp] theorem successes_reported (call : Nat) (failed : Bool) :
    successes [.reported call failed] = if failed then [] else [call] := by
  cases failed <;> rfl

@[simp] theorem admissions_append (first second : List Event) :
    admissions (first ++ second) = admissions first ++ admissions second :=
  List.filterMap_append

@[simp] theorem successes_append (first second : List Event) :
    successes (first ++ second) = successes first ++ successes second :=
  List.filterMap_append

def State.admitted (s : State) : List Nat := admissions s.phase

def State.succeeded (s : State) : List Nat := successes s.phase

def State.outstanding (s : State) : List Nat :=
  s.admitted.filter fun call => s.calls call = .running

@[simp] theorem setCall_inner (s : State) (call : Nat) (status : CallStatus) :
    (s.setCall call status).inner = s.inner := rfl

@[simp] theorem setCall_phase (s : State) (call : Nat) (status : CallStatus) :
    (s.setCall call status).phase = s.phase := rfl

@[simp] theorem setCall_now (s : State) (call : Nat) (status : CallStatus) :
    (s.setCall call status).now = s.now := rfl

@[simp] theorem setCall_calls (s : State) (call other : Nat) (status : CallStatus) :
    (s.setCall call status).calls other = if other = call then status else s.calls other := by
  simp [State.setCall, Function.update_apply]

@[simp] theorem setCall_admitted (s : State) (call : Nat) (status : CallStatus) :
    (s.setCall call status).admitted = s.admitted := rfl

@[simp] theorem setCall_succeeded (s : State) (call : Nat) (status : CallStatus) :
    (s.setCall call status).succeeded = s.succeeded := rfl

structure Sound (s : State) : Prop where
  dated : s.inner.state = .opened → s.inner.openedAt.isSome
  used : ∀ call ∈ s.admitted, s.calls call ≠ .idle
  ended : ∀ call ∈ s.succeeded, s.calls call = .finished
  once : s.admitted.Nodup
  onceSucceeded : s.succeeded.Nodup

theorem Sound.quiet (sound : Sound s) {call : Nat} {status : CallStatus}
    (unfinished : s.calls call ≠ .finished) (started : status ≠ .idle) :
    Sound (s.setCall call status) := by
  refine ⟨sound.dated, fun other member => ?_, fun other member => ?_, sound.once,
    sound.onceSucceeded⟩
  · by_cases same : other = call
    · simpa [same] using started
    · simpa [same] using sound.used other member
  · have finished := sound.ended other member
    have differs : other ≠ call := fun same => unfinished (same ▸ finished)
    simpa [differs] using finished

theorem Sound.restart (s : State) {inner : BreakerInner}
    (dated : inner.state = .opened → inner.openedAt.isSome) :
    Sound { s with inner := inner, phase := [] } :=
  ⟨dated, by simp [State.admitted], by simp [State.succeeded], by simp [State.admitted],
    by simp [State.succeeded]⟩

theorem Sound.join (sound : Sound s) {call : Nat} (idle : s.calls call = .idle)
    {inner : BreakerInner} (dated : inner.state = .opened → inner.openedAt.isSome) :
    Sound ({ s with inner := inner, phase := s.phase ++ [Event.admitted call] }.setCall call
      .running) := by
  have fresh : call ∉ s.admitted := fun member => sound.used call member idle
  refine ⟨dated, fun other member => ?_, fun other member => ?_, ?_, ?_⟩
  · by_cases same : other = call
    · simp [same]
    · have before : other ∈ s.admitted := by simpa [State.admitted, same] using member
      simpa [same] using sound.used other before
  · have before : other ∈ s.succeeded := by simpa [State.succeeded] using member
    have finished := sound.ended other before
    have differs : other ≠ call := by
      rintro rfl
      simp [idle] at finished
    simpa [differs] using finished
  · have once := sound.once
    simp only [State.admitted, setCall_phase, admissions_append, admissions_admitted] at once fresh ⊢
    exact once.append (by simp) (by simpa using fresh)
  · simpa [State.succeeded] using sound.onceSucceeded

theorem Sound.report (sound : Sound s) {call : Nat} {failed : Bool}
    (running : s.calls call = .running) {inner : BreakerInner}
    (dated : inner.state = .opened → inner.openedAt.isSome) :
    Sound ({ s with inner := inner, phase := s.phase ++ [Event.reported call failed] }.setCall call
      .finished) := by
  have quiet : Sound (s.setCall call .finished) := sound.quiet (by simp [running]) (by simp)
  have fresh : call ∉ s.succeeded := by
    intro member
    simpa [running] using sound.ended call member
  refine ⟨dated, fun other member => ?_, fun other member => ?_, ?_, ?_⟩
  · exact quiet.used other (by simpa [State.admitted] using member)
  · by_cases same : other = call
    · simp [same]
    · refine quiet.ended other ?_
      cases failed <;> simpa [State.succeeded, same] using member
  · simpa [State.admitted] using sound.once
  · have once := sound.onceSucceeded
    simp only [State.succeeded, setCall_phase, successes_append, successes_reported] at once fresh ⊢
    cases failed with
    | true => simpa using once
    | false => exact once.append (by simp) (by simpa using fresh)

theorem Transition.sound (moves : Transition cb s choice s') (sound : Sound s) : Sound s' := by
  cases moves with
  | tick elapsed => exact ⟨sound.dated, sound.used, sound.ended, sound.once, sound.onceSucceeded⟩
  | passed call idle closed => exact sound.join idle sound.dated
  | refused call idle => exact sound.quiet (by simp [idle]) (by simp)
  | firstProbe call inner idle opened halfOpen =>
    have dated : inner.state = .opened → inner.openedAt.isSome := by simp [halfOpen]
    exact (Sound.restart s dated).join idle dated
  | probe call idle halfOpen budget => exact sound.join idle (by simp [halfOpen])
  | reopened call inner running halfOpen opened since =>
    exact (Sound.restart s (by simp [since])).quiet (by simp [running]) (by simp)
  | reclosed call inner running halfOpen closed enough =>
    exact (Sound.restart s (by simp [closed])).quiet (by simp [running]) (by simp)
  | probed call inner running halfOpen still => exact sound.report running (by simp [still])
  | elsewhere call failed inner phase running before after since events =>
    have dated : inner.state = .opened → inner.openedAt.isSome := by
      intro opened
      rcases since with now | ⟨state, openedAt⟩
      · simp [now]
      · rw [openedAt]
        exact sound.dated (state ▸ opened)
    rcases events with rfl | rfl
    · exact sound.report running dated
    · exact (Sound.restart s dated).quiet (by simp [running]) (by simp)
  | drop call running => exact sound.quiet (by simp [running]) (by simp)

def Prompt (s : State) : Choice → Prop
  | .finish call _ => s.inner.state = .halfOpen → call ∈ s.admitted
  | _ => True

instance : ∀ (s : State) (choice : Choice), Decidable (Prompt s choice)
  | s, .finish call _ => inferInstanceAs (Decidable (s.inner.state = .halfOpen → call ∈ s.admitted))
  | _, .tick _ | _, .before _ | _, .drop _ => isTrue trivial

structure Probes (s : State) : Prop where
  counted : s.inner.state = .halfOpen → s.inner.halfOpenSuccesses = s.succeeded.length
  own : s.inner.state = .halfOpen → ∀ call ∈ s.succeeded, call ∈ s.admitted

theorem Transition.probes (moves : Transition cb s choice s') (prompt : Prompt s choice)
    (probes : Probes s) : Probes s' := by
  cases moves with
  | tick elapsed => exact ⟨probes.counted, probes.own⟩
  | passed call idle closed => exact ⟨by simp [closed], by simp [closed]⟩
  | refused call idle => exact ⟨probes.counted, probes.own⟩
  | firstProbe call inner idle opened halfOpen calls successes =>
    exact ⟨by simp [successes, State.succeeded], by simp [State.succeeded]⟩
  | probe call idle halfOpen budget =>
    have counted := probes.counted halfOpen
    have own := probes.own halfOpen
    refine ⟨fun _ => by simpa [State.succeeded] using counted, fun _ other member => ?_⟩
    have before := own other (by simpa [State.succeeded] using member)
    simp only [State.admitted, setCall_phase, admissions_append] at before ⊢
    exact List.mem_append_left _ before
  | reopened call inner running halfOpen opened => exact ⟨by simp [opened], by simp [opened]⟩
  | reclosed call inner running halfOpen closed => exact ⟨by simp [closed], by simp [closed]⟩
  | probed call inner running halfOpen still calls successes budget =>
    have counted := probes.counted halfOpen
    have own := probes.own halfOpen
    refine ⟨fun _ => ?_, fun _ other member => ?_⟩
    · simpa [State.succeeded, successes] using counted
    · -- a promptly reported outcome is that of a call of this phase
      have before : other ∈ s.admitted := by
        have split : other ∈ s.succeeded ∨ other = call := by
          simpa [State.succeeded] using member
        rcases split with earlier | now
        · exact own other earlier
        · exact now ▸ prompt halfOpen
      simpa [State.admitted] using before
  | elsewhere call failed inner phase running before after => exact ⟨by simp [after], by simp [after]⟩
  | drop call running => exact ⟨probes.counted, probes.own⟩

structure PhaseIntegrity (cb : CircuitBreaker) (s : State) (choice : Choice) (s' : State) : Prop where
  closes : s.inner.state = .halfOpen → s'.inner.state = .closed → ∃ calls : List Nat,
    calls.Nodup ∧ cb.halfOpenMaxCalls ≤ calls.length ∧ ∀ call ∈ calls, call ∈ s.admitted ∧
      (call ∈ s.succeeded ∨ choice = .finish call false)
  reopens : s.inner.state = .halfOpen → s'.inner.state = .opened →
    ∃ call ∈ s.admitted, choice = .finish call true

theorem Transition.integrity (moves : Transition cb s choice s') (sound : Sound s)
    (probes : Probes s) (prompt : Prompt s choice) : PhaseIntegrity cb s choice s' := by
  cases moves with
  | tick elapsed => exact ⟨by simp_all, by simp_all⟩
  | passed call idle closed => exact ⟨by simp_all, by simp_all⟩
  | refused call idle => exact ⟨by simp_all, by simp_all⟩
  | firstProbe call inner idle opened halfOpen => exact ⟨by simp_all, by simp_all⟩
  | probe call idle halfOpen budget => exact ⟨by simp_all, by simp_all⟩
  | reopened call inner running halfOpen opened =>
    exact ⟨by simp [opened], fun _ _ => ⟨call, prompt halfOpen, rfl⟩⟩
  | reclosed call inner running halfOpen closed enough =>
    refine ⟨fun _ _ => ⟨s.succeeded ++ [call], ?_, ?_, fun other member => ?_⟩, by simp [closed]⟩
    · rw [List.nodup_append]
      refine ⟨sound.onceSucceeded, by simp, ?_⟩
      intro a before b now same
      have finished := sound.ended a before
      rw [same, List.mem_singleton.mp now, running] at finished
      simp at finished
    · rw [List.length_append, ← probes.counted halfOpen]
      exact enough
    · rcases List.mem_append.mp member with before | now
      · exact ⟨probes.own halfOpen other before, .inl before⟩
      · rw [List.mem_singleton.mp now]
        exact ⟨prompt halfOpen, .inr rfl⟩
  | probed call inner running halfOpen still => exact ⟨by simp_all, by simp_all⟩
  | elsewhere call failed inner phase running before => exact ⟨by simp_all, by simp_all⟩
  | drop call running => exact ⟨by simp_all, by simp_all⟩

/-- No probe of the current half-open phase is dropped. -/
def KeepsProbes (s : State) : Choice → Prop
  | .drop call => s.inner.state = .halfOpen → call ∉ s.admitted
  | _ => True

instance : ∀ (s : State) (choice : Choice), Decidable (KeepsProbes s choice)
  | s, .drop call => inferInstanceAs (Decidable (s.inner.state = .halfOpen → call ∉ s.admitted))
  | _, .tick _ | _, .before _ | _, .finish _ _ => isTrue trivial

structure Budget (cb : CircuitBreaker) (s : State) : Prop where
  below : s.inner.state = .halfOpen → s.inner.halfOpenSuccesses < cb.halfOpenMaxCalls
  covered : s.inner.state = .halfOpen →
    s.inner.halfOpenCalls ≤ s.inner.halfOpenSuccesses + s.outstanding.length

theorem filter_update_length (calls : Nat → CallStatus) (call : Nat) (status : CallStatus)
    {admitted : List Nat} (once : admitted.Nodup) :
    (admitted.filter fun other => calls other = .running).length ≤
      (admitted.filter fun other =>
        (if other = call then status else calls other) = .running).length + 1 := by
  have inside : (admitted.filter fun other => calls other = .running).Subperm
      (call :: admitted.filter fun other =>
        (if other = call then status else calls other) = .running) := by
    refine List.subperm_of_subset (once.filter _) fun other member => ?_
    obtain ⟨listed, running⟩ := List.mem_filter.mp member
    by_cases same : other = call
    · simp [same]
    · refine List.mem_cons_of_mem _ (List.mem_filter.mpr ⟨listed, ?_⟩)
      simpa [same] using running
  exact inside.length_le

theorem outstanding_unchanged {call : Nat} (status : CallStatus) (other : call ∉ s.admitted) :
    (s.setCall call status).outstanding = s.outstanding := by
  refine List.filter_congr fun member listed => ?_
  have differs : member ≠ call := fun same => other (same ▸ listed)
  simp [differs]

theorem Transition.budget (moves : Transition cb s choice s') (sound : Sound s)
    (keeps : KeepsProbes s choice) (budget : Budget cb s) : Budget cb s' := by
  cases moves with
  | tick elapsed => exact ⟨budget.below, budget.covered⟩
  | passed call idle closed => exact ⟨by simp [closed], by simp [closed]⟩
  | refused call idle =>
    have fresh : call ∉ s.admitted := fun member => sound.used call member idle
    refine ⟨budget.below, fun halfOpen => ?_⟩
    rw [outstanding_unchanged _ fresh]
    exact budget.covered halfOpen
  | firstProbe call inner idle opened halfOpen calls successes =>
    refine ⟨fun _ => ?_, fun _ => ?_⟩
    · simpa [successes] using cb.hasProbe
    · simp [State.outstanding, State.admitted, calls]
  | probe call idle halfOpen room =>
    have fresh : call ∉ s.admitted := fun member => sound.used call member idle
    refine ⟨fun _ => budget.below halfOpen, fun _ => ?_⟩
    have before := budget.covered halfOpen
    have kept := outstanding_unchanged .running fresh
    have joined : (State.setCall { s with
        inner := { s.inner with halfOpenCalls := s.inner.halfOpenCalls + 1 }
        phase := s.phase ++ [Event.admitted call] } call .running).outstanding =
        s.outstanding ++ [call] := by
      rw [← kept]
      simp [State.outstanding, State.admitted]
    rw [joined, List.length_append]
    simp only [setCall_inner, List.length_singleton]
    omega
  | reopened call inner running halfOpen opened => exact ⟨by simp [opened], by simp [opened]⟩
  | reclosed call inner running halfOpen closed => exact ⟨by simp [closed], by simp [closed]⟩
  | probed call inner running halfOpen still calls successes room =>
    refine ⟨fun _ => room, fun _ => ?_⟩
    have before := budget.covered halfOpen
    have lost := filter_update_length s.calls call .finished sound.once
    have same : (State.setCall { s with
        inner := inner, phase := s.phase ++ [Event.reported call false] } call .finished).outstanding =
        s.admitted.filter fun other =>
          (if other = call then CallStatus.finished else s.calls other) = .running := by
      simp [State.outstanding, State.admitted]
    rw [same]
    change inner.halfOpenCalls ≤ inner.halfOpenSuccesses + _
    simp only [State.outstanding] at before
    omega
  | elsewhere call failed inner phase running before after => exact ⟨by simp [after], by simp [after]⟩
  | drop call running =>
    refine ⟨budget.below, fun halfOpen => ?_⟩
    rw [outstanding_unchanged _ (keeps halfOpen)]
    exact budget.covered halfOpen

theorem Budget.room (budget : Budget cb s) (halfOpen : s.inner.state = .halfOpen)
    (none : s.outstanding = []) : s.inner.halfOpenCalls < cb.halfOpenMaxCalls := by
  have covered := budget.covered halfOpen
  have below := budget.below halfOpen
  rw [none, List.length_nil] at covered
  omega

theorem init_sound : Sound {} :=
  ⟨by simp, by simp [State.admitted], by simp [State.succeeded], by simp [State.admitted],
    by simp [State.succeeded]⟩

theorem run_sound {choices : List Choice} (ran : run cb.step {} choices = some s) : Sound s :=
  run_invariant Sound (fun _ _ _ _ sound stepped =>
    (step_transition sound.dated stepped).sound sound) init_sound ran

def Choice.concerns : Choice → Nat → Bool
  | .tick _, _ => false
  | .before call, other | .finish call _, other | .drop call, other => call = other

theorem Transition.others (moves : Transition cb s choice s') {call : Nat}
    (other : choice.concerns call = false) : s'.calls call = s.calls call := by
  cases moves <;> simp_all [Choice.concerns, Ne.symm]

theorem run_others {choices : List Choice} (ran : run cb.step {} choices = some s) {call : Nat}
    (others : ∀ choice ∈ choices, choice.concerns call = false) : s.calls call = .idle := by
  have both : Sound s ∧ s.calls call = .idle := by
    refine run_invariant (fun s => Sound s ∧ s.calls call = .idle) ?_ ⟨init_sound, rfl⟩ ran
    intro before choice after member ⟨sound, idle⟩ stepped
    have moves := step_transition sound.dated stepped
    exact ⟨moves.sound sound, (moves.others (others choice member)).trans idle⟩
  exact both.2

theorem run_probes {choices : List Choice} (ran : run cb.step {} choices = some s)
    (prompt : Along cb.step Prompt {} choices) : Probes s := by
  have both : Sound s ∧ Probes s := by
    refine run_invariant_along (fun s => Sound s ∧ Probes s) ?_
      ⟨init_sound, by simp, by simp⟩ prompt ran
    intro before choice after prompt ⟨sound, probes⟩ stepped
    have moves := step_transition sound.dated stepped
    exact ⟨moves.sound sound, moves.probes prompt probes⟩
  exact both.2

theorem run_budget {choices : List Choice} (ran : run cb.step {} choices = some s)
    (keeps : Along cb.step KeepsProbes {} choices) : Budget cb s := by
  have both : Sound s ∧ Budget cb s := by
    refine run_invariant_along (fun s => Sound s ∧ Budget cb s) ?_
      ⟨init_sound, by simp, by simp⟩ keeps ran
    intro before choice after keeps ⟨sound, budget⟩ stepped
    have moves := step_transition sound.dated stepped
    exact ⟨moves.sound sound, moves.budget sound keeps budget⟩
  exact both.2

def brittle : CircuitConfig := { failureThreshold := 1, window := 0, openDuration := 10 }

theorem half_open_decided_by_probes (cfg : CircuitConfig) (choices : List Choice) (s : State)
    (ran : run (new cfg).step {} choices = some s)
    (prompt : Along (new cfg).step Prompt {} choices) :
    (s.inner.state = .halfOpen →
      s.inner.halfOpenSuccesses = s.succeeded.length ∧ ∀ call ∈ s.succeeded, call ∈ s.admitted) ∧
    ∀ choice s', Prompt s choice → (new cfg).step s choice = some s' →
      PhaseIntegrity (new cfg) s choice s' := by
  have sound := run_sound ran
  have probes := run_probes ran prompt
  refine ⟨fun halfOpen => ⟨probes.counted halfOpen, probes.own halfOpen⟩, ?_⟩
  intro choice s' now stepped
  exact (step_transition sound.dated stepped).integrity sound probes now

def recovering : List Choice := [.before 0, .finish 0 true, .tick 10, .before 1]

theorem recovering_closes : ∃ s s', run (new brittle).step {} recovering = some s ∧
    (new brittle).step s (.finish 1 false) = some s' ∧ s.inner.state = .halfOpen ∧
    s'.inner.state = .closed ∧ PhaseIntegrity (new brittle) s (.finish 1 false) s' := by
  have reached : ((run (new brittle).step {} recovering).bind fun s =>
      ((new brittle).step s (.finish 1 false)).map fun s' =>
        (s.inner.state, s'.inner.state, s.admitted)) = some (.halfOpen, .closed, [1]) := by decide
  obtain ⟨s, ran, rest⟩ := Option.bind_eq_some_iff.mp reached
  obtain ⟨s', stepped, seen⟩ := Option.map_eq_some_iff.mp rest
  simp only [Prod.mk.injEq] at seen
  obtain ⟨halfOpen, closed, admitted⟩ := seen
  refine ⟨s, s', ran, stepped, halfOpen, closed, ?_⟩
  apply (half_open_decided_by_probes brittle recovering s ran (by decide)).2 _ _ _ stepped
  simp [Prompt, admitted]

def lateSuccess : List Choice :=
  [.before 0, .before 1, .finish 1 true, .tick 10, .before 2]

theorem late_success_closes : ∃ s s', run (new brittle).step {} lateSuccess = some s ∧
    (new brittle).step s (.finish 0 false) = some s' ∧
    ¬ PhaseIntegrity (new brittle) s (.finish 0 false) s' := by
  have reached : ((run (new brittle).step {} lateSuccess).bind fun s =>
      ((new brittle).step s (.finish 0 false)).map fun s' =>
        (s.inner.state, s'.inner.state, s.admitted, s.succeeded)) =
      some (.halfOpen, .closed, [2], []) := by decide
  obtain ⟨s, ran, rest⟩ := Option.bind_eq_some_iff.mp reached
  obtain ⟨s', stepped, seen⟩ := Option.map_eq_some_iff.mp rest
  simp only [Prod.mk.injEq] at seen
  obtain ⟨halfOpen, closed, admitted, succeeded⟩ := seen
  refine ⟨s, s', ran, stepped, fun integrity => ?_⟩
  obtain ⟨calls, -, enough, each⟩ := integrity.closes halfOpen closed
  obtain ⟨call, member⟩ := List.exists_mem_of_length_pos (Nat.lt_of_lt_of_le (new brittle).hasProbe enough)
  obtain ⟨isTwo, success⟩ := each call member
  simp only [admitted, succeeded, List.mem_singleton, List.not_mem_nil, false_or] at isTwo success
  subst isTwo
  simp at success

def Admits (cb : CircuitBreaker) (s : State) : Prop :=
  ∃ since, s.now ≤ since ∧ ∀ now, since ≤ now → ∃ inner, cb.allow now s.inner = some (true, inner)

theorem admits_of_room (dated : s.inner.state = .opened → s.inner.openedAt.isSome)
    (room : s.inner.state = .halfOpen → s.inner.halfOpenCalls < cb.halfOpenMaxCalls) :
    Admits cb s := by
  cases state : s.inner.state with
  | closed => exact ⟨s.now, le_rfl, fun now _ => ⟨_, allow_closed state⟩⟩
  | halfOpen =>
    refine ⟨s.now, le_rfl, fun now _ => ?_⟩
    rw [allow_halfOpen state, if_pos (room state)]
    exact ⟨_, rfl⟩
  | opened =>
    obtain ⟨openedAt, since⟩ := Option.isSome_iff_exists.mp (dated state)
    refine ⟨s.now + openedAt + cb.openDuration, by omega, fun now late => ?_⟩
    rw [allow_opened state since, if_pos (by omega)]
    exact ⟨_, rfl⟩

theorem never_locks_out (cfg : CircuitConfig) (choices : List Choice) (s : State)
    (ran : run (new cfg).step {} choices = some s)
    (keeps : Along (new cfg).step KeepsProbes {} choices) :
    ((∀ call, s.calls call ≠ .running) → Admits (new cfg) s) ∧
      (s.inner.state = .halfOpen → s.outstanding = [] →
        s.inner.halfOpenCalls < (new cfg).halfOpenMaxCalls) := by
  have sound := run_sound ran
  have budget := run_budget ran keeps
  refine ⟨fun still => admits_of_room sound.dated fun halfOpen => ?_, budget.room⟩
  have none : s.outstanding = [] := by simp [State.outstanding, still]
  exact budget.room halfOpen none

def droppedLate : List Choice :=
  [.before 0, .before 1, .finish 1 true, .tick 10, .before 2, .drop 0, .finish 2 true]

theorem dropped_late_admits :
    ∃ s, run (new brittle).step {} droppedLate = some s ∧ Admits (new brittle) s := by
  have reached : ((run (new brittle).step {} droppedLate).map fun s =>
      (s.calls 0, s.calls 1, s.calls 2)) = some (.dropped, .finished, .finished) := by decide
  obtain ⟨s, ran, seen⟩ := Option.map_eq_some_iff.mp reached
  simp only [Prod.mk.injEq] at seen
  obtain ⟨first, second, third⟩ := seen
  refine ⟨s, ran, (never_locks_out brittle droppedLate s ran (by decide)).1 fun call => ?_⟩
  match call with
  | 0 => simp [first]
  | 1 => simp [second]
  | 2 => simp [third]
  | call + 3 =>
    have idle : s.calls (call + 3) = .idle :=
      run_others ran (by simp [droppedLate, Choice.concerns])
    simp [idle]

def droppedProbe : List Choice :=
  [.before 0, .finish 0 true, .tick 10, .before 1, .drop 1]

theorem dropped_probe_locks_out : ∃ s, run (new brittle).step {} droppedProbe = some s ∧
    (∀ call, s.calls call ≠ .running) ∧
    ∀ now, (new brittle).allow now s.inner = some (false, s.inner) := by
  have reached : ((run (new brittle).step {} droppedProbe).map fun s =>
      (s.inner.state, s.inner.halfOpenCalls, s.calls 0, s.calls 1)) =
      some (.halfOpen, 1, .finished, .dropped) := by decide
  obtain ⟨s, ran, seen⟩ := Option.map_eq_some_iff.mp reached
  simp only [Prod.mk.injEq] at seen
  obtain ⟨halfOpen, spent, first, second⟩ := seen
  refine ⟨s, ran, fun call => ?_, fun now => ?_⟩
  · match call with
    | 0 => simp [first]
    | 1 => simp [second]
    | call + 2 =>
      have idle : s.calls (call + 2) = .idle :=
        run_others ran (by simp [droppedProbe, Choice.concerns])
      simp [idle]
  · rw [allow_halfOpen halfOpen, if_neg]
    rw [spent]
    decide

end Firefly.Resilience.CircuitBreaker
