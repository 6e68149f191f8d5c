import Firefly.Orchestration.WorkflowProgress

set_option autoImplicit false

-- A dependency cycle is found only after the nodes outside of it have run, and that exit joins
-- nothing.

namespace Firefly.Orchestration.Workflow

open Runs

variable {wf : Workflow}

inductive Reaches (wf : Workflow) : String → Prop where
  | node (i : Fin wf.size) (dependencies : ∀ dep ∈ (wf.nodeAt i).dependsOn, Reaches wf dep) :
      Reaches wf (wf.nameOf i)

def Awaited {n : Nat} (s : State n) : Prop :=
  ∀ result, s.phase = .returned result → ∀ i, .spawned i ∈ s.trace → .taskEnded i ∈ s.trace

def NoTaskBeforeCycle (wf : Workflow) : Prop :=
  wf.definitionError ≠ none ∨ (∀ i, wf.Reaches (wf.nameOf i)) ∨
    ∀ i, (wf.nodeAt i).fireAndForget → ¬ wf.Reaches (wf.nameOf i)

def Phase.schedules {n : Nat} : Phase n → Bool
  | .head _ | .scheduling .. | .wave .. => true
  | _ => false

structure Reached (wf : Workflow) (s : State wf.size) : Prop where
  done : ∀ name ∈ s.done, wf.Reaches name
  candidates : ∀ i ∈ s.phase.candidates, wf.Reaches (wf.nameOf i)
  covered : s.phase.schedules → ∀ i, i ∈ s.phase.open ∨ wf.nameOf i ∈ s.done

theorem Reached.rephase {s s' : State wf.size} (reached : wf.Reached s) (done : s'.done = s.done)
    (candidates : s'.phase.candidates ⊆ s.phase.candidates)
    (schedules : s'.phase.schedules → s.phase.schedules ∧ s.phase.open ⊆ s'.phase.open) :
    wf.Reached s' := by
  refine ⟨?_, fun i listed => reached.candidates i (candidates listed), ?_⟩
  · rw [done]
    exact reached.done
  · intro going i
    obtain ⟨before, kept⟩ := schedules going
    rw [done]
    exact (reached.covered before i).imp_left (@kept i)

theorem Reached.mark {s s' : State wf.size} (reached : wf.Reached s) (more : List (Fin wf.size))
    (free : more ⊆ s.phase.candidates)
    (done : ∀ name, name ∈ s'.done ↔ name ∈ s.done ∨ name ∈ more.map wf.nameOf)
    (candidates : s'.phase.candidates ⊆ s.phase.candidates)
    (schedules : s'.phase.schedules → s.phase.schedules ∧ s.phase.open ⊆ more ++ s'.phase.open) :
    wf.Reached s' := by
  refine ⟨?_, fun i listed => reached.candidates i (candidates listed), ?_⟩
  · intro name listed
    rcases (done name).mp listed with before | now
    · exact reached.done name before
    · obtain ⟨i, member, rfl⟩ := List.mem_map.mp now
      exact reached.candidates i (free member)
  · intro going i
    obtain ⟨before, kept⟩ := schedules going
    rcases reached.covered before i with listed | listed
    · rcases List.mem_append.mp (kept listed) with marked | left
      · exact .inr ((done _).mpr (.inr (List.mem_map_of_mem marked)))
      · exact .inl left
    · exact .inr ((done _).mpr (.inl listed))

theorem reached_transition {s s' : State wf.size} {choice : Choice wf.size}
    (reached : wf.Reached s) (transition : Transition wf s choice s') : wf.Reached s' := by
  cases transition with
  | drained phase | stuck pending phase =>
    exact reached.rephase rfl (by simp [State.goto, rollback, Phase.candidates])
      (by simp [State.goto, rollback, Phase.schedules])
  | advance pending phase some =>
    refine ⟨reached.done, ?_, ?_⟩
    · intro i listed
      simp only [Phase.candidates, State.goto, List.append_nil, List.mem_filter] at listed
      refine .node i fun dep needs => reached.done dep ?_
      simpa using List.all_eq_true.mp listed.2 dep needs
    · intro _ i
      refine (reached.covered (by rw [phase]; rfl) i).imp_left fun listed => ?_
      rw [phase] at listed
      by_cases ready : wf.isReady s.done i <;> simp_all [State.goto, Phase.open]
  | spawn holds i ready blocking still phase | skipAsync holds i ready blocking still phase =>
    refine reached.mark [i] (by simp [phase, Phase.candidates]) ?_ ?_ ?_
    · simp [State.goto, State.record, or_comm]
    · simp [State.goto, State.record, phase, Phase.candidates]
    · simp [State.goto, State.record, phase, Phase.schedules, Phase.open]
  | block holds i ready blocking still phase sync =>
    have moved : ∀ j, j ∈ i :: ready ++ blocking ↔ j ∈ ready ++ (blocking ++ [i]) := by
      intro j
      simp only [List.mem_append, List.mem_cons, List.not_mem_nil, or_false]
      tauto
    refine reached.rephase rfl ?_ fun _ => ⟨by rw [phase]; rfl, ?_⟩
    · intro j listed
      rw [phase]
      exact (moved j).mpr listed
    · intro j listed
      rw [phase] at listed
      exact (List.mem_append.mp listed).elim
        (fun left => List.mem_append_left _ ((moved j).mp left)) (List.mem_append_right _)
  | launch blocking still phase =>
    exact reached.rephase rfl (by simp [State.goto, phase, Phase.candidates])
      (by simp [State.goto, phase, Phase.schedules, Phase.open])
  | refuse holds i members still progress phase | enter holds i members still progress phase
  | skip holds i members still progress phase | start i members still progress phase
  | finish i result members still progress phase | complete i members still progress phase
  | fail i source members still progress phase =>
    exact reached.rephase rfl (by simp [State.goto, State.record, phase, Phase.candidates])
      (by simp [State.goto, State.record, phase, Phase.schedules, Phase.open])
  | nextWave members still progress phase succeeded =>
    refine reached.mark members (by simp [phase, Phase.candidates]) ?_ ?_ ?_
    · simp [State.goto]
    · simp [State.goto, Phase.candidates]
    · simp [State.goto, phase, Phase.schedules, Phase.open]
  | abort members still progress errors phase settled failed some =>
    refine reached.mark (members.filter fun i => (progress i).succeeded) ?_ ?_ ?_ ?_
    · rw [phase]
      exact List.filter_sublist.subset
    · simp [rollback, State.goto]
    · simp [rollback, State.goto, Phase.candidates]
    · simp [rollback, State.goto, Phase.schedules]
  | rolledBack result failure joins | giveUp err i name rest failure joins =>
    refine reached.rephase rfl ?_ ?_ <;>
      cases joins <;> simp [State.goto, State.record, Phase.candidates, Phase.schedules]
  | passOver | undo | join =>
    exact reached.rephase rfl (by simp [State.goto, State.record, Phase.candidates])
      (by simp [State.goto, State.record, Phase.schedules])
  | endTask | cancelToken =>
    exact reached.rephase rfl (by simp [State.record]) fun going => ⟨going, by simp [State.record]⟩

theorem init_reached (wf : Workflow) : wf.Reached wf.init := by
  rw [init]
  split
  · exact ⟨by simp, by simp [Phase.candidates], by simp [Phase.schedules]⟩
  · exact ⟨by simp, by simp [Phase.candidates], by simp [Phase.open]⟩

-- When no open node is ready, everything that can be reached is done.
theorem Reached.saturated {s : State wf.size} (reached : wf.Reached s) {pending : List (Fin wf.size)}
    (phase : s.phase = .head pending) (none : ∀ i ∈ pending, wf.isReady s.done i = false)
    {name : String} (reaches : wf.Reaches name) : name ∈ s.done := by
  induction reaches with
  | node i dependencies ih =>
    rcases reached.covered (by rw [phase]; rfl) i with listed | done
    · rw [phase] at listed
      have ready : wf.isReady s.done i = true := List.all_eq_true.mpr (by simpa using ih)
      exact absurd ready (by simp [none i listed])
    · exact done

def Tracked {n : Nat} (s : State n) : Prop :=
  ∀ i, .spawned i ∈ s.trace → i ∈ s.tasks ∨ .taskEnded i ∈ s.trace

theorem Tracked.record {n : Nat} {s s' : State n} {event : Event n} (tracked : Tracked s)
    (trace : s'.trace = s.trace ++ [event]) (tasks : s'.tasks = s.tasks)
    (other : ∀ i, event ≠ .spawned i) : Tracked s' := by
  intro i spawned
  rw [trace, List.mem_append, List.mem_singleton] at spawned
  rw [tasks, trace]
  exact (tracked i (spawned.resolve_right (other i).symm)).imp_right (List.mem_append_left _)

theorem tracked_transition {s s' : State wf.size} {choice : Choice wf.size} (tracked : Tracked s)
    (transition : Transition wf s choice s') : Tracked s' := by
  cases transition with
  | drained | stuck | advance | block | launch | refuse | enter | nextWave | abort | rolledBack
  | passOver | join =>
    exact tracked
  | skipAsync | skip | start | finish | complete | fail | undo | giveUp | cancelToken =>
    exact tracked.record rfl rfl (by simp)
  | spawn holds i ready blocking still phase =>
    intro j spawned
    rcases List.mem_append.mp spawned with before | now
    · exact (tracked j before).imp (List.mem_cons_of_mem _) (List.mem_append_left _)
    · obtain rfl : j = i := by simpa using now
      exact .inl (by simp [State.goto, State.record])
  | endTask i task =>
    intro j spawned
    have before : .spawned j ∈ s.trace := by simpa [State.record] using spawned
    by_cases same : j = i
    · exact .inr (by simp [State.record, same])
    · exact (tracked j before).imp (List.mem_erase_of_ne same).mpr (List.mem_append_left _)

structure Joins {n : Nat} (s : State n) : Prop where
  rollback : ∀ order failure joins, s.phase = .compensating order failure joins → joins = true
  idle : ∀ result, s.phase = .returned result → s.tasks = []

theorem nameOf_injective (distinct : wf.nodeNames.Nodup) : Function.Injective wf.nameOf := by
  intro i j same
  have found := findNode_nameOf distinct i
  rw [same, findNode_nameOf distinct j] at found
  exact (Option.some.inj found).symm

theorem Reaches.dependency (distinct : wf.nodeNames.Nodup) {i : Fin wf.size}
    (reaches : wf.Reaches (wf.nameOf i)) {dep : String} (needs : dep ∈ (wf.nodeAt i).dependsOn) :
    wf.Reaches dep := by
  generalize named : wf.nameOf i = name at reaches
  cases reaches with
  | node j dependencies =>
    obtain rfl := nameOf_injective distinct named
    exact dependencies dep needs

theorem Reached.not_stuck {s : State wf.size} (reached : wf.Reached s)
    (distinct : wf.nodeNames.Nodup) {pending : List (Fin wf.size)} (phase : s.phase = .head pending)
    (none : ∀ i ∈ pending, wf.isReady s.done i = false) {i : Fin wf.size}
    (reaches : wf.Reaches (wf.nameOf i)) : i ∉ pending := by
  intro listed
  have ready : wf.isReady s.done i = true := List.all_eq_true.mpr fun dep needs => by
    simpa using reached.saturated phase none (reaches.dependency distinct needs)
  simp [none i listed] at ready

theorem joins_transition {s s' : State wf.size} {choice : Choice wf.size}
    (distinct : wf.nodeNames.Nodup) (all : ∀ i, wf.Reaches (wf.nameOf i)) (reached : wf.Reached s)
    (joins : Joins s) (transition : Transition wf s choice s') : Joins s' := by
  cases transition with
  | stuck pending phase nonempty none =>
    obtain ⟨i, listed⟩ := List.exists_mem_of_ne_nil pending nonempty
    exact absurd listed (reached.not_stuck distinct phase none (all i))
  | drained | advance | block | launch | refuse | enter | nextWave =>
    exact ⟨by simp [State.goto], by simp [State.goto]⟩
  | spawn | skipAsync | skip | start | finish | complete | fail =>
    exact ⟨by simp [State.goto, State.record], by simp [State.goto, State.record]⟩
  | abort => exact ⟨by simp [rollback, State.goto], by simp [rollback, State.goto]⟩
  | rolledBack result failure joined phase | giveUp err i name rest failure joined phase =>
    obtain rfl := joins.rollback _ _ _ phase
    exact ⟨by simp [State.goto, State.record], by simp [State.goto, State.record]⟩
  | passOver result name rest failure joined phase | undo result i name rest failure joined phase =>
    obtain rfl := joins.rollback _ _ _ phase
    exact ⟨by simp [State.goto, State.record], by simp [State.goto, State.record]⟩
  | join result phase idle => exact ⟨by simp [State.goto], fun _ _ => idle⟩
  | endTask i task =>
    refine ⟨joins.rollback, fun result phase => ?_⟩
    rw [joins.idle result phase] at task
    simp at task
  | cancelToken => exact ⟨joins.rollback, joins.idle⟩

theorem awaited_of_all (distinct : wf.nodeNames.Nodup) (all : ∀ i, wf.Reaches (wf.nameOf i))
    {choices : List (Choice wf.size)} {s : State wf.size} (ran : wf.runInner choices = some s) :
    Awaited s := by
  have initial : Tracked wf.init ∧ Joins wf.init := by
    rw [init]
    split <;> exact ⟨by simp [Tracked], by simp, by simp⟩
  obtain ⟨-, tracked, joins⟩ := run_invariant (fun s => wf.Reached s ∧ Tracked s ∧ Joins s)
    (fun s choice s' _ kept stepped =>
      have transition := step_transition stepped
      ⟨reached_transition kept.1 transition, tracked_transition kept.2.1 transition,
        joins_transition distinct all kept.1 kept.2.2 transition⟩)
    ⟨wf.init_reached, initial⟩ ran
  intro result returned i spawned
  have ended := tracked i spawned
  rw [joins.idle result returned] at ended
  exact ended.resolve_left (by simp)

theorem spawned_transition {s s' : State wf.size} {choice : Choice wf.size}
    (transition : Transition wf s choice s') {i : Fin wf.size} (spawned : .spawned i ∈ s'.trace) :
    .spawned i ∈ s.trace ∨ (wf.nodeAt i).fireAndForget ∧ i ∈ s.phase.candidates := by
  cases transition with
  | spawn holds j ready blocking still phase async =>
    rcases List.mem_append.mp spawned with before | now
    · exact .inl before
    · obtain rfl : i = j := by simpa using now
      exact .inr ⟨async, by simp [phase, Phase.candidates]⟩
  | _ => exact .inl (by simpa [State.goto, State.record, rollback] using spawned)

theorem awaited_of_none (none : ∀ i, (wf.nodeAt i).fireAndForget → ¬ wf.Reaches (wf.nameOf i))
    {choices : List (Choice wf.size)} {s : State wf.size} (ran : wf.runInner choices = some s) :
    Awaited s := by
  have initial : ∀ i, .spawned i ∉ wf.init.trace := by
    rw [init]
    split <;> simp
  have kept := run_invariant (fun s => wf.Reached s ∧ ∀ i, .spawned i ∉ s.trace)
    (fun s choice s' _ kept stepped =>
      have transition := step_transition stepped
      ⟨reached_transition kept.1 transition, fun i spawned =>
        (spawned_transition transition spawned).elim (kept.2 i) fun fresh =>
          none i fresh.1 (kept.1.candidates i fresh.2)⟩)
    ⟨wf.init_reached, initial⟩ ran
  exact fun _ _ i spawned => absurd spawned (kept.2 i)

theorem awaited_of_refused (refused : wf.definitionError ≠ none)
    {choices : List (Choice wf.size)} {s : State wf.size} (ran : wf.runInner choices = some s) :
    Awaited s := by
  obtain ⟨error, refused⟩ := Option.ne_none_iff_exists'.mp refused
  have kept := run_invariant
    (fun s => s.phase = .returned (.error error) ∧ ∀ i, .spawned i ∉ s.trace)
    (fun s choice s' _ kept stepped => ?_) (by simp [init, refused]) ran
  · exact fun _ _ i spawned => absurd spawned (kept.2 i)
  · have transition := step_transition stepped
    refine ⟨?_, fun i spawned => ?_⟩
    · have phase := kept.1
      cases transition
      case endTask | cancelToken => exact phase
      all_goals simp_all
    · rcases spawned_transition transition spawned with before | ⟨-, listed⟩
      · exact kept.2 i before
      · simp [kept.1, Phase.candidates] at listed

@[simp] theorem conditionHolds_true (wf : Workflow) (i : Fin wf.size) :
    wf.conditionHolds i true = true := by
  rw [conditionHolds]
  split <;> rfl

structure Stalling (wf : Workflow) (s : State wf.size) : Prop where
  undisturbed : Undisturbed s
  journeys : wf.Journeys s
  reached : wf.Reached s
  spawned : ∀ i, (wf.nodeAt i).fireAndForget → wf.nameOf i ∈ s.done → .spawned i ∈ s.trace
  unended : ∀ i, .taskEnded i ∉ s.trace
  unjoined : s.phase.isJoining = false
  rollback : ∀ order failure joins, s.phase = .compensating order failure joins → joins = false
  saturated : s.phase.schedules = false → ∀ name, wf.Reaches name → name ∈ s.done

theorem stalling_transition {s s' : State wf.size} {choice : Choice wf.size}
    (distinct : wf.nodeNames.Nodup) (cycle : ∃ i, ¬ wf.Reaches (wf.nameOf i))
    (stalling : wf.Stalling s) (drives : choice.drives s.phase)
    (transition : Transition wf s choice s') : wf.Stalling s' := by
  have undisturbed := undisturbed_transition stalling.undisturbed (succeeds_of_drives drives) transition
  have journeys := journeys_transition stalling.journeys transition
  have reached := reached_transition stalling.reached transition
  have spawned := stalling.spawned
  have unended := stalling.unended
  have unjoined := stalling.unjoined
  have rollback := stalling.rollback
  have saturated := stalling.saturated
  cases transition with
  | drained phase =>
    obtain ⟨i, unreached⟩ := cycle
    have done := stalling.reached.covered (by rw [phase]; rfl) i
    rw [phase] at done
    exact absurd (stalling.reached.done _ (done.resolve_left (by simp [Phase.open]))) unreached
  | stuck pending phase nonempty none =>
    exact ⟨undisturbed, journeys, reached, spawned, unended, rfl,
      fun _ _ _ same => (Phase.compensating.inj same).2.2.symm,
      fun _ _ reaches => stalling.reached.saturated phase none reaches⟩
  | advance | block | launch | refuse | enter =>
    exact ⟨undisturbed, journeys, reached, spawned, unended, rfl, by simp [State.goto],
      by simp [State.goto, Phase.schedules]⟩
  | spawn holds i ready blocking still phase async condition =>
    refine ⟨undisturbed, journeys, reached, ?_, by simp [State.goto, State.record, unended], rfl,
      by simp [State.goto, State.record], by simp [State.goto, State.record, Phase.schedules]⟩
    intro j async' listed
    rcases List.mem_cons.mp listed with same | before
    · obtain rfl := nameOf_injective distinct same
      simp [State.record]
    · exact List.mem_append_left _ (spawned j async' before)
  | skipAsync holds i ready blocking still phase async condition
  | skip holds i members still progress phase member waiting live condition =>
    obtain rfl : holds = true := drives
    simp at condition
  | start | finish | complete | fail =>
    refine ⟨undisturbed, journeys, reached, ?_, by simp [State.goto, State.record, unended], rfl,
      by simp [State.goto, State.record], by simp [State.goto, State.record, Phase.schedules]⟩
    exact fun j async listed => List.mem_append_left _ (spawned j async listed)
  | nextWave members still progress phase succeeded =>
    refine ⟨undisturbed, journeys, reached, ?_, unended, rfl, by simp [State.goto],
      by simp [State.goto, Phase.schedules]⟩
    intro j async listed
    rcases List.mem_append.mp listed with before | now
    · exact spawned j async before
    · obtain ⟨i, member, same⟩ := List.mem_map.mp now
      obtain rfl := nameOf_injective distinct same
      have blocks := stalling.journeys.awaited i (by rw [phase]; exact member)
      simp [async] at blocks
  | abort members still progress errors phase settled failed some =>
    have clean := stalling.undisturbed.clean members progress still phase
    exact absurd (failed.trans (List.filterMap_eq_nil_iff.mpr fun i _ => (clean i).1)) some
  | rolledBack result failure joins phase | giveUp err i name rest failure joins phase =>
    obtain rfl := rollback _ _ _ phase
    refine ⟨undisturbed, journeys, reached, fun j async listed => ?_,
      by simp [State.goto, State.record, unended], rfl, by simp [State.goto, State.record],
      fun _ => saturated (by rw [phase]; rfl)⟩
    simp [State.goto, State.record, spawned j async listed]
  | passOver result name rest failure joins phase | undo result i name rest failure joins phase =>
    obtain rfl := rollback _ _ _ phase
    refine ⟨undisturbed, journeys, reached, fun j async listed => ?_,
      by simp [State.goto, State.record, unended], rfl, by simp [State.goto, State.record],
      fun _ => saturated (by rw [phase]; rfl)⟩
    simp [State.goto, State.record, spawned j async listed]
  | join result phase => simp [phase, Phase.isJoining] at unjoined
  | endTask => exact absurd drives (by simp [Choice.drives, unjoined])
  | cancelToken => cases drives

theorem init_stalling (accepted : wf.definitionError = none) : wf.Stalling wf.init where
  undisturbed := wf.init_undisturbed
  journeys := wf.init_journeys
  reached := wf.init_reached
  spawned := by simp [init, accepted]
  unended := by simp [init, accepted]
  unjoined := by simp [init, accepted, Phase.isJoining]
  rollback := by simp [init, accepted]
  saturated := by simp [init, accepted, Phase.schedules]

theorem exists_stalled_return (distinct : wf.nodeNames.Nodup)
    (cycle : ∃ i, ¬ wf.Reaches (wf.nameOf i)) {s : State wf.size} (stalling : wf.Stalling s) :
    ∃ choices s' result, run wf.step s choices = some s' ∧ s'.phase = .returned result ∧
      wf.Stalling s' := by
  induction weight : s.weight using Nat.strong_induction_on generalizing s with
  | _ weight ih =>
    by_cases returned : ∃ result, s.phase = .returned result
    · obtain ⟨result, phase⟩ := returned
      exact ⟨[], s, result, by simp, phase, stalling⟩
    · obtain ⟨choice, next, drives, stepped, lighter⟩ :=
        exists_lighter s fun result phase => returned ⟨result, phase⟩
      have kept := stalling_transition distinct cycle stalling drives (step_transition stepped)
      obtain ⟨choices, s', result, ran, phase, stalled⟩ :=
        ih next.weight (weight ▸ lighter) kept rfl
      exact ⟨choice :: choices, s', result, by simp [run_cons, stepped, ran], phase, stalled⟩

-- A task that can be spawned before a cycle is found may still run when the workflow returns.
theorem exists_unawaited (accepted : wf.definitionError = none)
    (cycle : ∃ i, ¬ wf.Reaches (wf.nameOf i)) {i : Fin wf.size}
    (async : (wf.nodeAt i).fireAndForget) (reaches : wf.Reaches (wf.nameOf i)) :
    ∃ choices s, wf.runInner choices = some s ∧ ¬ Awaited s := by
  obtain ⟨choices, s, result, ran, returned, stalled⟩ :=
    exists_stalled_return (distinct_of_accepted accepted) cycle (init_stalling accepted)
  refine ⟨choices, s, ran, fun awaited => ?_⟩
  have done := stalled.saturated (by rw [returned]; rfl) _ reaches
  exact stalled.unended i (awaited result returned i (stalled.spawned i async done))

theorem tasks_awaited_iff (wf : Workflow) :
    (∀ choices s, wf.runInner choices = some s → Awaited s) ↔ wf.NoTaskBeforeCycle := by
  constructor
  · intro awaited
    by_contra task
    rw [NoTaskBeforeCycle, not_or, not_or, not_not, not_forall] at task
    obtain ⟨accepted, cycle, spawns⟩ := task
    simp only [not_forall, not_not, exists_prop] at spawns
    obtain ⟨i, async, reaches⟩ := spawns
    obtain ⟨choices, s, ran, left⟩ := exists_unawaited accepted cycle async reaches
    exact left (awaited choices s ran)
  · rintro (refused | all | none) choices s ran
    · exact awaited_of_refused refused ran
    · cases accepted : wf.definitionError with
      | none => exact awaited_of_all (distinct_of_accepted accepted) all ran
      | some error => exact awaited_of_refused (by simp [accepted]) ran
    · exact awaited_of_none none ran

def deadlocked : Workflow where
  name := "deadlocked"
  nodes :=
    [{ name := "notify", fireAndForget := true }, { name := "pack", dependsOn := ["ship"] },
     { name := "ship", dependsOn := ["pack"] }]

def Phase.hasReturned {n : Nat} : Phase n → Bool
  | .returned _ => true
  | _ => false

theorem hasReturned_iff {n : Nat} {phase : Phase n} :
    phase.hasReturned ↔ ∃ result, phase = .returned result := by
  cases phase <;> simp [Phase.hasReturned]

def deadlockedSchedule : List (Choice 3) :=
  [.checkPending, .schedule true, .launch, .gather, .checkPending, .compensate (.ok ())]

theorem notify_unawaited : ¬ ∀ choices s, deadlocked.runInner choices = some s → Awaited s := by
  intro awaited
  have computed : (deadlocked.runInner deadlockedSchedule).map
      (fun s => (s.phase.hasReturned, s.trace)) =
        some (true, [.spawned ⟨0, by decide⟩]) := by
    decide
  obtain ⟨s, ran, left⟩ := Option.map_eq_some_iff.mp computed
  obtain ⟨returned, trace⟩ := Prod.mk.inj left
  obtain ⟨result, phase⟩ := hasReturned_iff.mp returned
  have ended := awaited deadlockedSchedule s ran result phase ⟨0, by decide⟩ (by simp [trace])
  simp [trace] at ended

end Firefly.Orchestration.Workflow
