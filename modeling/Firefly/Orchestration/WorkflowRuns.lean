import Firefly.Orchestration.Workflow

set_option autoImplicit false

namespace Firefly.Orchestration.Workflow

open Runs

variable {wf : Workflow}

inductive Transition (wf : Workflow) (s : State wf.size) : Choice wf.size → State wf.size → Prop where
  | drained (phase : s.phase = .head []) :
      Transition wf s .checkPending (s.goto (.joining (.ok ())))
  | stuck (pending : List (Fin wf.size)) (phase : s.phase = .head pending)
      (nonempty : pending ≠ []) (none : ∀ i ∈ pending, wf.isReady s.done i = false) :
      Transition wf s .checkPending (rollback s (.noProgress wf.name) false)
  | advance (pending : List (Fin wf.size)) (phase : s.phase = .head pending)
      (some : ∃ i ∈ pending, wf.isReady s.done i) :
      Transition wf s .checkPending (s.goto (.scheduling (pending.filter (wf.isReady s.done)) []
        (pending.filter (fun i => !wf.isReady s.done i))))
  | spawn (holds : Bool) (i : Fin wf.size) (ready blocking still : List (Fin wf.size))
      (phase : s.phase = .scheduling (i :: ready) blocking still)
      (async : (wf.nodeAt i).fireAndForget) (condition : wf.conditionHolds i holds) :
      Transition wf s (.schedule holds) (({ s with
        done := wf.nameOf i :: s.done, tasks := i :: s.tasks }.goto
          (.scheduling ready blocking still)).record (.spawned i))
  | skipAsync (holds : Bool) (i : Fin wf.size) (ready blocking still : List (Fin wf.size))
      (phase : s.phase = .scheduling (i :: ready) blocking still)
      (async : (wf.nodeAt i).fireAndForget) (condition : wf.conditionHolds i holds = false) :
      Transition wf s (.schedule holds) (({ s with done := wf.nameOf i :: s.done }.goto
        (.scheduling ready blocking still)).record (.skipped i))
  | block (holds : Bool) (i : Fin wf.size) (ready blocking still : List (Fin wf.size))
      (phase : s.phase = .scheduling (i :: ready) blocking still)
      (sync : (wf.nodeAt i).fireAndForget = false) :
      Transition wf s (.schedule holds) (s.goto (.scheduling ready (blocking ++ [i]) still))
  | launch (blocking still : List (Fin wf.size)) (phase : s.phase = .scheduling [] blocking still) :
      Transition wf s .launch (s.goto (.wave blocking (fun _ => .waiting) still))
  | refuse (holds : Bool) (i : Fin wf.size) (members still : List (Fin wf.size))
      (progress : Fin wf.size → Progress) (phase : s.phase = .wave members progress still)
      (member : i ∈ members) (waiting : progress i = .waiting) (cancelled : s.token || s.internal) :
      Transition wf s (.poll i holds) (s.goto (.wave members
        (Function.update progress i (.settled (.error .cancelled))) still))
  | enter (holds : Bool) (i : Fin wf.size) (members still : List (Fin wf.size))
      (progress : Fin wf.size → Progress) (phase : s.phase = .wave members progress still)
      (member : i ∈ members) (waiting : progress i = .waiting)
      (live : (s.token || s.internal) = false) (condition : wf.conditionHolds i holds) :
      Transition wf s (.poll i holds) (s.goto (.wave members
        (Function.update progress i .admitted) still))
  | skip (holds : Bool) (i : Fin wf.size) (members still : List (Fin wf.size))
      (progress : Fin wf.size → Progress) (phase : s.phase = .wave members progress still)
      (member : i ∈ members) (waiting : progress i = .waiting)
      (live : (s.token || s.internal) = false) (condition : wf.conditionHolds i holds = false) :
      Transition wf s (.poll i holds) ((s.goto (.wave members
        (Function.update progress i (.settled (.ok ()))) still)).record (.skipped i))
  | start (i : Fin wf.size) (members still : List (Fin wf.size)) (progress : Fin wf.size → Progress)
      (phase : s.phase = .wave members progress still) (admitted : progress i = .admitted) :
      Transition wf s (.start i) ((s.goto (.wave members
        (Function.update progress i .running) still)).record (.bodyStarted i))
  | finish (i : Fin wf.size) (result : Except BoxError Unit) (members still : List (Fin wf.size))
      (progress : Fin wf.size → Progress) (phase : s.phase = .wave members progress still)
      (running : progress i = .running) :
      Transition wf s (.finish i result) ((s.goto (.wave members
        (Function.update progress i (.ended result)) still)).record (.bodyEnded i result))
  | complete (i : Fin wf.size) (members still : List (Fin wf.size))
      (progress : Fin wf.size → Progress) (phase : s.phase = .wave members progress still)
      (ended : progress i = .ended (.ok ())) :
      Transition wf s (.settle i) (({ s with completedOrder := s.completedOrder ++
        if (wf.nodeAt i).compensatable then [wf.nameOf i] else [] }.goto (.wave members
          (Function.update progress i (.settled (.ok ()))) still)).record (.completed i))
  | fail (i : Fin wf.size) (source : BoxError) (members still : List (Fin wf.size))
      (progress : Fin wf.size → Progress) (phase : s.phase = .wave members progress still)
      (ended : progress i = .ended (.error source)) :
      Transition wf s (.settle i) (({ s with internal := true }.goto (.wave members
        (Function.update progress i (.settled (.error (.node (wf.nameOf i) source)))) still)).record
          (.failed i))
  | nextWave (members still : List (Fin wf.size)) (progress : Fin wf.size → Progress)
      (phase : s.phase = .wave members progress still)
      (settled : ∀ i ∈ members, (progress i).succeeded) :
      Transition wf s .gather ({ s with done := s.done ++ members.map wf.nameOf }.goto (.head still))
  | abort (members still : List (Fin wf.size)) (progress : Fin wf.size → Progress)
      (errors : List WorkflowError) (phase : s.phase = .wave members progress still)
      (settled : ∀ i ∈ members, (progress i).isSettled)
      (failed : errors = members.filterMap fun i => (progress i).error?) (some : errors ≠ []) :
      Transition wf s .gather (rollback { s with done := s.done ++
        (members.filter fun i => (progress i).succeeded).map wf.nameOf } (.join errors) true)
  | rolledBack (result : Except BoxError Unit) (failure : WorkflowError) (joins : Bool)
      (phase : s.phase = .compensating [] failure joins) :
      Transition wf s (.compensate result)
        (s.goto (if joins then .joining (.error failure) else .returned (.error failure)))
  | passOver (result : Except BoxError Unit) (name : String) (rest : List String)
      (failure : WorkflowError) (joins : Bool)
      (phase : s.phase = .compensating (name :: rest) failure joins)
      (none : ∀ i, wf.findNode name = some i → (wf.nodeAt i).compensatable = false) :
      Transition wf s (.compensate result) (s.goto (.compensating rest failure joins))
  | undo (result : Except BoxError Unit) (i : Fin wf.size) (name : String) (rest : List String)
      (failure : WorkflowError) (joins : Bool)
      (phase : s.phase = .compensating (name :: rest) failure joins)
      (found : wf.findNode name = some i) (declared : (wf.nodeAt i).compensatable)
      (continues : result = .ok () ∨ wf.policy ≠ .stopOnError) :
      Transition wf s (.compensate result)
        ((s.goto (.compensating rest failure joins)).record (.compensated i result))
  | giveUp (err : BoxError) (i : Fin wf.size) (name : String) (rest : List String)
      (failure : WorkflowError) (joins : Bool)
      (phase : s.phase = .compensating (name :: rest) failure joins)
      (found : wf.findNode name = some i) (declared : (wf.nodeAt i).compensatable)
      (stops : wf.policy = .stopOnError) :
      Transition wf s (.compensate (.error err)) ((s.goto
        (if joins then .joining (.error failure) else .returned (.error failure))).record
          (.compensated i (.error err)))
  | join (result : Except WorkflowError Unit) (phase : s.phase = .joining result)
      (idle : s.tasks = []) : Transition wf s .joinAsync (s.goto (.returned result))
  | endTask (i : Fin wf.size) (task : i ∈ s.tasks) :
      Transition wf s (.endTask i) ({ s with tasks := s.tasks.erase i }.record (.taskEnded i))
  | cancelToken : Transition wf s .cancelToken ({ s with token := true }.record .tokenCancelled)

theorem Progress.succeeded_of_error?_eq_none {progress : Progress} (settled : progress.isSettled)
    (none : progress.error? = none) : progress.succeeded := by
  cases progress with
  | settled result => cases result <;> simp_all [Progress.error?, Progress.succeeded]
  | _ => simp [Progress.isSettled] at settled

theorem step_transition {s s' : State wf.size} {choice : Choice wf.size}
    (stepped : wf.step s choice = some s') : Transition wf s choice s' := by
  cases choice with
  | checkPending =>
    simp only [step, stepCheckPending] at stepped
    split at stepped
    · rename_i phase
      obtain rfl := Option.some.inj stepped
      exact .drained phase
    · rename_i pending nonempty phase
      simp only [List.partition_eq_filter_filter] at stepped
      split at stepped <;> obtain rfl := Option.some.inj stepped
      · rename_i none
        exact .stuck pending phase nonempty (by simpa using none)
      · rename_i some
        exact .advance pending phase (by simpa using some)
    · simp at stepped
  | schedule holds =>
    simp only [step, stepSchedule] at stepped
    split at stepped
    · rename_i i ready blocking still phase
      split at stepped
      · rename_i async
        split at stepped <;> rename_i condition <;> obtain rfl := Option.some.inj stepped
        · exact .spawn holds i ready blocking still phase async condition
        · exact .skipAsync holds i ready blocking still phase async (by simpa using condition)
      · rename_i sync
        obtain rfl := Option.some.inj stepped
        exact .block holds i ready blocking still phase (by simpa using sync)
    · simp at stepped
  | launch =>
    simp only [step, stepLaunch] at stepped
    split at stepped
    · rename_i blocking still phase
      obtain rfl := Option.some.inj stepped
      exact .launch blocking still phase
    · simp at stepped
  | poll i holds =>
    simp only [step, stepPoll] at stepped
    split at stepped
    · rename_i members progress still phase
      split at stepped
      · rename_i waiting
        split at stepped
        · simp at stepped
        · rename_i member
          rw [not_not] at member
          split at stepped
          · rename_i cancelled
            obtain rfl := Option.some.inj stepped
            exact .refuse holds i members still progress phase member waiting cancelled
          · rename_i live
            have live : (s.token || s.internal) = false := by simpa using live
            split at stepped <;> rename_i condition <;> obtain rfl := Option.some.inj stepped
            · exact .enter holds i members still progress phase member waiting live condition
            · exact .skip holds i members still progress phase member waiting live
                (by simpa using condition)
      · simp at stepped
    · simp at stepped
  | start i =>
    simp only [step, stepStart] at stepped
    split at stepped
    · rename_i members progress still phase
      split at stepped
      · rename_i admitted
        obtain rfl := Option.some.inj stepped
        exact .start i members still progress phase admitted
      · simp at stepped
    · simp at stepped
  | finish i result =>
    simp only [step, stepFinish] at stepped
    split at stepped
    · rename_i members progress still phase
      split at stepped
      · rename_i running
        obtain rfl := Option.some.inj stepped
        exact .finish i result members still progress phase running
      · simp at stepped
    · simp at stepped
  | settle i =>
    simp only [step, stepSettle] at stepped
    split at stepped
    · rename_i members progress still phase
      split at stepped
      · rename_i ended
        obtain rfl := Option.some.inj stepped
        exact .complete i members still progress phase ended
      · rename_i source ended
        obtain rfl := Option.some.inj stepped
        exact .fail i source members still progress phase ended
      · simp at stepped
    · simp at stepped
  | gather =>
    simp only [step, stepGather] at stepped
    split at stepped
    · rename_i members progress still phase
      split at stepped
      · rename_i all
        have settled : ∀ i ∈ members, (progress i).isSettled := List.all_eq_true.mp all
        split at stepped
        · rename_i clean
          obtain rfl := Option.some.inj stepped
          have succeeded : ∀ i ∈ members, (progress i).succeeded := fun i member =>
            Progress.succeeded_of_error?_eq_none (settled i member)
              (List.filterMap_eq_nil_iff.mp clean i member)
          rw [List.filter_eq_self.mpr succeeded]
          exact .nextWave members still progress phase succeeded
        · rename_i errors failed
          obtain rfl := Option.some.inj stepped
          exact .abort members still progress _ phase settled rfl failed
      · simp at stepped
    · simp at stepped
  | compensate result =>
    simp only [step, stepCompensate] at stepped
    split at stepped
    · rename_i order failure joins phase
      split at stepped
      · obtain rfl := Option.some.inj stepped
        exact .rolledBack result failure joins phase
      · rename_i name rest
        split at stepped
        · rename_i absent
          obtain rfl := Option.some.inj stepped
          exact .passOver result name rest failure joins phase (by simp [absent])
        · rename_i i found
          split at stepped
          · rename_i declared
            split at stepped
            · obtain rfl := Option.some.inj stepped
              exact .undo (.ok ()) i name rest failure joins phase found declared (.inl rfl)
            · rename_i err
              split at stepped <;> rename_i policy <;> obtain rfl := Option.some.inj stepped
              · exact .giveUp err i name rest failure joins phase found declared policy
              · exact .undo (.error err) i name rest failure joins phase found declared (.inr policy)
          · rename_i undeclared
            obtain rfl := Option.some.inj stepped
            exact .passOver result name rest failure joins phase (by simpa [found] using undeclared)
    · simp at stepped
  | joinAsync =>
    simp only [step, stepJoinAsync] at stepped
    split at stepped
    · rename_i result phase
      split at stepped
      · rename_i idle
        obtain rfl := Option.some.inj stepped
        exact .join result phase idle
      · simp at stepped
    · simp at stepped
  | endTask i =>
    simp only [step] at stepped
    split at stepped
    · rename_i task
      obtain rfl := Option.some.inj stepped
      exact .endTask i task
    · simp at stepped
  | cancelToken =>
    obtain rfl := Option.some.inj stepped
    exact .cancelToken

inductive Stage where
  | idle | skipped | spawned | running | ended (result : Except BoxError Unit) | completed | failed
deriving DecidableEq

def advance {n : Nat} (async : Bool) (i : Fin n) (stage : Stage) : Event n → Option Stage
  | .skipped j =>
    if j ≠ i then some stage else if stage = .idle then some .skipped else none
  | .spawned j =>
    if j ≠ i then some stage else if stage = .idle ∧ async then some .spawned else none
  | .bodyStarted j =>
    if j ≠ i then some stage else if stage = .idle ∧ async = false then some .running else none
  | .bodyEnded j result =>
    if j ≠ i then some stage else if stage = .running then some (.ended result) else none
  | .completed j =>
    if j ≠ i then some stage else if stage = .ended (.ok ()) then some .completed else none
  | .failed j =>
    if j ≠ i then some stage else
      match stage with
      | .ended (.error _) => some .failed
      | _ => none
  | .compensated _ _ | .taskEnded _ | .tokenCancelled => some stage

def journey (wf : Workflow) (i : Fin wf.size) (trace : List (Event wf.size)) : Option Stage :=
  run (advance (wf.nodeAt i).fireAndForget i) .idle trace

@[simp] theorem journey_nil (i : Fin wf.size) : wf.journey i [] = some .idle := rfl

@[simp] theorem journey_concat (i : Fin wf.size) (trace : List (Event wf.size))
    (event : Event wf.size) : wf.journey i (trace ++ [event]) =
      (wf.journey i trace).bind fun stage => advance (wf.nodeAt i).fireAndForget i stage event := by
  simp [journey]

@[simp] def Event.start? {n : Nat} : Event n → Option (Fin n)
  | .bodyStarted i | .spawned i => some i
  | _ => none

@[simp] def Event.skip? {n : Nat} : Event n → Option (Fin n)
  | .skipped i => some i
  | _ => none

@[simp] def Event.success? {n : Nat} : Event n → Option (Fin n)
  | .bodyEnded i (.ok ()) => some i
  | _ => none

@[simp] def Event.failure? {n : Nat} : Event n → Option (Fin n)
  | .bodyEnded i (.error _) => some i
  | _ => none

@[simp] def Event.completion? {n : Nat} : Event n → Option (Fin n)
  | .completed i => some i
  | _ => none

@[simp] def Event.undo? {n : Nat} : Event n → Option (Fin n × Bool)
  | .compensated i result => some (i, result.toOption.isSome)
  | _ => none

def starts {n : Nat} (trace : List (Event n)) : List (Fin n) := trace.filterMap Event.start?

def skips {n : Nat} (trace : List (Event n)) : List (Fin n) := trace.filterMap Event.skip?

def successes {n : Nat} (trace : List (Event n)) : List (Fin n) := trace.filterMap Event.success?

def failures {n : Nat} (trace : List (Event n)) : List (Fin n) := trace.filterMap Event.failure?

def completions {n : Nat} (trace : List (Event n)) : List (Fin n) :=
  trace.filterMap Event.completion?

def undone {n : Nat} (trace : List (Event n)) : List (Fin n × Bool) := trace.filterMap Event.undo?

section Concat

variable {n : Nat} (trace : List (Event n)) (event : Event n)

@[simp] theorem starts_concat :
    starts (trace ++ [event]) = starts trace ++ event.start?.toList :=
  filterMap_concat _ _ _

@[simp] theorem skips_concat : skips (trace ++ [event]) = skips trace ++ event.skip?.toList :=
  filterMap_concat _ _ _

@[simp] theorem successes_concat :
    successes (trace ++ [event]) = successes trace ++ event.success?.toList :=
  filterMap_concat _ _ _

@[simp] theorem failures_concat :
    failures (trace ++ [event]) = failures trace ++ event.failure?.toList :=
  filterMap_concat _ _ _

@[simp] theorem completions_concat :
    completions (trace ++ [event]) = completions trace ++ event.completion?.toList :=
  filterMap_concat _ _ _

@[simp] theorem undone_concat : undone (trace ++ [event]) = undone trace ++ event.undo?.toList :=
  filterMap_concat _ _ _

end Concat

@[simp] def Stage.started : Stage → Nat
  | .idle | .skipped => 0
  | _ => 1

@[simp] def Stage.succeeded : Stage → Nat
  | .ended (.ok ()) | .completed => 1
  | _ => 0

@[simp] def Stage.broken : Stage → Nat
  | .ended (.error _) | .failed => 1
  | _ => 0

structure Counts {n : Nat} (i : Fin n) (stage : Stage) (trace : List (Event n)) : Prop where
  starts : (starts trace).count i = stage.started
  skips : (skips trace).count i = if stage = .skipped then 1 else 0
  successes : (successes trace).count i = stage.succeeded
  failures : (failures trace).count i = stage.broken
  completions : (completions trace).count i = if stage = .completed then 1 else 0

theorem journey_counts {i : Fin wf.size} {trace : List (Event wf.size)} {stage : Stage}
    (reached : wf.journey i trace = some stage) : Counts i stage trace := by
  induction trace using List.reverseRecOn generalizing stage with
  | nil =>
    obtain rfl : .idle = stage := by simpa using reached
    constructor <;> rfl
  | append_singleton trace event ih =>
    rw [journey_concat] at reached
    obtain ⟨earlier, before, moved⟩ := Option.bind_eq_some_iff.mp reached
    obtain ⟨starts, skips, successes, failures, completions⟩ := ih before
    cases event with
    | skipped j | spawned j | bodyStarted j | completed j =>
      by_cases same : j = i
      · subst same
        simp only [advance, ne_eq, not_true_eq_false, if_false] at moved
        split at moved
        · rename_i guard
          obtain rfl := Option.some.inj moved
          constructor <;> simp_all
        · simp at moved
      · obtain rfl : earlier = stage := by simpa [advance, same] using moved
        constructor <;> simp [*]
    | bodyEnded j result =>
      by_cases same : j = i
      · subst same
        simp only [advance, ne_eq, not_true_eq_false, if_false] at moved
        split at moved
        · rename_i guard
          obtain rfl := Option.some.inj moved
          constructor <;> cases result <;> simp_all
        · simp at moved
      · obtain rfl : earlier = stage := by simpa [advance, same] using moved
        constructor <;> cases result <;> simp [*]
    | failed j =>
      by_cases same : j = i
      · subst same
        simp only [advance, ne_eq, not_true_eq_false, if_false] at moved
        split at moved
        · obtain rfl := Option.some.inj moved
          constructor <;> simp_all
        · simp at moved
      · obtain rfl : earlier = stage := by simpa [advance, same] using moved
        constructor <;> simp [*]
    | compensated j result | taskEnded j | tokenCancelled =>
      obtain rfl : earlier = stage := by simpa [advance] using moved
      constructor <;> simp [*]

def Stage.AtRest : Stage → Prop
  | .running | .ended _ => False
  | _ => True

def Progress.Expects : Progress → Stage → Prop
  | .waiting, stage | .admitted, stage => stage = .idle
  | .running, stage => stage = .running
  | .ended result, stage => stage = .ended result
  | .settled (.ok ()), stage => stage = .completed ∨ stage = .skipped
  | .settled (.error _), stage => stage = .failed ∨ stage = .idle

def Phase.Expects {n : Nat} (phase : Phase n) (i : Fin n) (stage : Stage) : Prop :=
  match phase with
  | .head pending => stage.AtRest ∧ (i ∈ pending → stage = .idle)
  | .scheduling ready blocking still =>
    stage.AtRest ∧ (i ∈ ready ++ blocking ++ still → stage = .idle)
  | .wave members progress still =>
    if i ∈ members then (progress i).Expects stage else stage.AtRest ∧ (i ∈ still → stage = .idle)
  | _ => stage.AtRest

def Phase.open {n : Nat} : Phase n → List (Fin n)
  | .head pending => pending
  | .scheduling ready blocking still => ready ++ blocking ++ still
  | .wave members _ still => members ++ still
  | _ => []

def Phase.candidates {n : Nat} : Phase n → List (Fin n)
  | .scheduling ready blocking _ => ready ++ blocking
  | .wave members _ _ => members
  | _ => []

def Phase.awaited {n : Nat} : Phase n → List (Fin n)
  | .scheduling _ blocking _ => blocking
  | .wave members _ _ => members
  | _ => []

structure Journeys (wf : Workflow) (s : State wf.size) : Prop where
  reached : ∀ i, ∃ stage, wf.journey i s.trace = some stage ∧ s.phase.Expects i stage
  distinct : s.phase.open.Nodup
  awaited : ∀ i ∈ s.phase.awaited, (wf.nodeAt i).fireAndForget = false
  outside : ∀ members progress still, s.phase = .wave members progress still →
    ∀ i, i ∉ members → progress i = .waiting

theorem Journeys.rephase {s s' : State wf.size} (journeys : wf.Journeys s) (trace : s'.trace = s.trace)
    (expects : ∀ i stage, s.phase.Expects i stage → s'.phase.Expects i stage)
    (distinct : s'.phase.open.Nodup)
    (awaited : ∀ i ∈ s'.phase.awaited, (wf.nodeAt i).fireAndForget = false)
    (outside : ∀ members progress still, s'.phase = .wave members progress still →
      ∀ i, i ∉ members → progress i = .waiting) : wf.Journeys s' := by
  refine ⟨fun i => ?_, distinct, awaited, outside⟩
  obtain ⟨stage, reached, expected⟩ := journeys.reached i
  exact ⟨stage, trace ▸ reached, expects i stage expected⟩

theorem Journeys.observe {s s' : State wf.size} {event : Event wf.size} (journeys : wf.Journeys s)
    (trace : s'.trace = s.trace ++ [event]) (phase : s'.phase = s.phase)
    (neutral : ∀ async i stage, advance async i stage event = some stage) : wf.Journeys s' := by
  refine ⟨fun i => ?_, phase ▸ journeys.distinct, phase ▸ journeys.awaited,
    phase ▸ journeys.outside⟩
  obtain ⟨stage, reached, expected⟩ := journeys.reached i
  exact ⟨stage, by simp [trace, reached, neutral], phase ▸ expected⟩

theorem Journeys.progress {s s' : State wf.size} {members still : List (Fin wf.size)}
    {progress : Fin wf.size → Progress} {i : Fin wf.size} {next : Progress}
    (journeys : wf.Journeys s) (phase : s.phase = .wave members progress still)
    (phase' : s'.phase = .wave members (Function.update progress i next) still)
    (member : i ∈ members) (events : List (Event wf.size)) (trace : s'.trace = s.trace ++ events)
    (own : ∀ stage, (progress i).Expects stage →
      ∃ stage', run (advance (wf.nodeAt i).fireAndForget i) stage events = some stage' ∧
        next.Expects stage')
    (others : ∀ j, j ≠ i → ∀ async stage, run (advance async j) stage events = some stage) :
    wf.Journeys s' := by
  refine ⟨fun j => ?_, ?_, ?_, ?_⟩
  · obtain ⟨stage, reached, expected⟩ := journeys.reached j
    rw [journey] at reached
    rw [phase, Phase.Expects] at expected
    simp only [trace, phase', journey, run_append, reached, Option.bind_some, Phase.Expects]
    by_cases same : j = i
    · subst same
      rw [if_pos member] at expected
      simpa [member] using own stage expected
    · exact ⟨stage, others j same _ stage, by simpa [Function.update_of_ne same] using expected⟩
  · simpa [phase', phase, Phase.open] using journeys.distinct
  · simpa [phase', phase, Phase.awaited] using journeys.awaited
  · intro members' progress' still' same j absent
    obtain ⟨rfl, rfl, rfl⟩ := Phase.wave.inj (phase'.symm.trans same)
    have differs : j ≠ i := fun equal => absent (equal ▸ member)
    rw [Function.update_of_ne differs]
    exact journeys.outside members progress still phase j absent

theorem Journeys.member {s : State wf.size} {members still : List (Fin wf.size)}
    {progress : Fin wf.size → Progress} (journeys : wf.Journeys s)
    (phase : s.phase = .wave members progress still) (i : Fin wf.size) (moving : progress i ≠ .waiting) :
    i ∈ members := by
  by_contra absent
  exact moving (journeys.outside members progress still phase i absent)

theorem Phase.Expects.atRest {n : Nat} {phase : Phase n} {i : Fin n} {stage : Stage}
    (expected : phase.Expects i stage) (settled : ∀ members progress still,
      phase = .wave members progress still → ∀ i ∈ members, (progress i).isSettled) :
    stage.AtRest := by
  cases phase with
  | head | scheduling => exact expected.1
  | compensating | joining | returned => exact expected
  | wave members progress still =>
    rw [Phase.Expects] at expected
    split at expected
    · rename_i member
      have done := settled members progress still rfl i member
      cases state : progress i with
      | settled result =>
        rw [state] at expected
        rcases result with err | _ <;> rcases expected with rfl | rfl <;> trivial
      | _ => simp [state, Progress.isSettled] at done
    · exact expected.1

theorem Journeys.dequeue {s s' : State wf.size} {ready blocking still : List (Fin wf.size)}
    {i : Fin wf.size} {event : Event wf.size} (next : Stage)
    (journeys : wf.Journeys s) (phase : s.phase = .scheduling (i :: ready) blocking still)
    (phase' : s'.phase = .scheduling ready blocking still) (trace : s'.trace = s.trace ++ [event])
    (own : advance (wf.nodeAt i).fireAndForget i .idle event = some next) (resting : next.AtRest)
    (others : ∀ j, j ≠ i → ∀ async stage, advance async j stage event = some stage) :
    wf.Journeys s' := by
  have distinct := journeys.distinct
  rw [phase, Phase.open, List.cons_append, List.cons_append, List.nodup_cons] at distinct
  refine ⟨fun j => ?_, ?_, ?_, ?_⟩
  · obtain ⟨stage, reached, expected⟩ := journeys.reached j
    rw [phase, Phase.Expects] at expected
    rw [trace, phase', journey_concat, reached, Option.bind_some]
    by_cases same : j = i
    · subst same
      obtain rfl := expected.2 (by simp)
      exact ⟨next, own, resting, fun listed => absurd listed distinct.1⟩
    · refine ⟨stage, others j same _ stage, expected.1, fun listed => expected.2 ?_⟩
      rw [List.cons_append, List.cons_append]
      exact List.mem_cons_of_mem _ listed
  · rw [phase', Phase.open]
    exact distinct.2
  · simpa [phase', phase, Phase.awaited] using journeys.awaited
  · simp [phase']

theorem journeys_transition {s s' : State wf.size} {choice : Choice wf.size}
    (journeys : wf.Journeys s) (transition : Transition wf s choice s') : wf.Journeys s' := by
  have rest := fun settled i stage (expected : s.phase.Expects i stage) => expected.atRest settled
  have distinct := journeys.distinct
  have awaited := journeys.awaited
  cases transition with
  | drained phase =>
    refine journeys.rephase rfl (rest (by simp [phase])) ?_ ?_ ?_ <;>
      simp [State.goto, Phase.open, Phase.awaited]
  | stuck pending phase nonempty none =>
    refine journeys.rephase rfl (rest (by simp [phase])) ?_ ?_ ?_ <;>
      simp [rollback, State.goto, Phase.open, Phase.awaited]
  | advance pending phase some =>
    refine journeys.rephase rfl ?_ ?_ ?_ ?_
    · intro i stage expected
      rw [phase] at expected
      refine ⟨expected.1, fun listed => expected.2 ?_⟩
      simp only [List.append_nil, List.mem_append, List.mem_filter] at listed
      exact listed.elim And.left And.left
    · rw [phase] at distinct
      have split := List.filter_append_perm (wf.isReady s.done) pending
      simpa [State.goto, Phase.open] using split.nodup_iff.mpr distinct
    · simp [State.goto, Phase.awaited]
    · simp [State.goto]
  | spawn holds i ready blocking still phase async condition =>
    exact journeys.dequeue .spawned phase rfl rfl (by simp [advance, async]) trivial
      (by intro j differs; simp [advance, differs.symm])
  | skipAsync holds i ready blocking still phase async condition =>
    exact journeys.dequeue .skipped phase rfl rfl (by simp [advance]) trivial
      (by intro j differs; simp [advance, differs.symm])
  | block holds i ready blocking still phase sync =>
    have moved : (ready ++ (blocking ++ [i]) ++ still).Perm (i :: ready ++ blocking ++ still) := by
      have shift : (ready ++ blocking ++ [i]).Perm ([i] ++ (ready ++ blocking)) := List.perm_append_comm
      simpa using shift.append_right still
    refine journeys.rephase rfl ?_ ?_ ?_ ?_
    · intro j stage expected
      rw [phase] at expected
      exact ⟨expected.1, fun listed => expected.2 (moved.mem_iff.mp listed)⟩
    · rw [phase] at distinct
      exact moved.nodup_iff.mpr distinct
    · rw [phase] at awaited
      intro j listed
      rcases List.mem_append.mp listed with earlier | own
      · exact awaited j earlier
      · obtain rfl := List.mem_singleton.mp own
        exact sync
    · simp [State.goto]
  | launch blocking still phase =>
    rw [phase] at distinct awaited
    refine journeys.rephase rfl ?_ (by simpa [Phase.open, State.goto] using distinct) awaited ?_
    · intro i stage expected
      rw [phase] at expected
      simp only [State.goto, Phase.Expects]
      split
      · rename_i member
        exact expected.2 (by simp [member])
      · exact ⟨expected.1, fun listed => expected.2 (by simp [listed])⟩
    · rintro members progress still' same i -
      simp only [State.goto, Phase.wave.injEq] at same
      rw [← same.2.1]
  | refuse holds i members still progress phase member waiting cancelled =>
    exact journeys.progress phase rfl member [] (by simp [State.goto])
      (by simp [waiting, Progress.Expects]) (by simp)
  | enter holds i members still progress phase member waiting live condition =>
    exact journeys.progress phase rfl member [] (by simp [State.goto])
      (by simp [waiting, Progress.Expects]) (by simp)
  | skip holds i members still progress phase member waiting live condition =>
    exact journeys.progress phase rfl member [.skipped i] rfl
      (by simp [waiting, Progress.Expects, run_cons, advance])
      (by intro j differs; simp [run_cons, advance, differs.symm])
  | start i members still progress phase admitted =>
    have member := journeys.member phase i (by simp [admitted])
    have sync := awaited i (by simpa [phase, Phase.awaited] using member)
    exact journeys.progress phase rfl member [.bodyStarted i] rfl
      (by simp [admitted, Progress.Expects, run_cons, advance, sync])
      (by intro j differs; simp [run_cons, advance, differs.symm])
  | finish i result members still progress phase running =>
    have member := journeys.member phase i (by simp [running])
    exact journeys.progress phase rfl member [.bodyEnded i result] rfl
      (by simp [running, Progress.Expects, run_cons, advance])
      (by intro j differs; simp [run_cons, advance, differs.symm])
  | complete i members still progress phase ended =>
    have member := journeys.member phase i (by simp [ended])
    exact journeys.progress phase rfl member [.completed i] rfl
      (by simp [ended, Progress.Expects, run_cons, advance])
      (by intro j differs; simp [run_cons, advance, differs.symm])
  | fail i source members still progress phase ended =>
    have member := journeys.member phase i (by simp [ended])
    exact journeys.progress phase rfl member [.failed i] rfl
      (by simp [ended, Progress.Expects, run_cons, advance])
      (by intro j differs; simp [run_cons, advance, differs.symm])
  | nextWave members still progress phase succeeded =>
    have settled : ∀ i ∈ members, (progress i).isSettled := by
      intro i member
      have done := succeeded i member
      cases state : progress i with
      | settled => rfl
      | _ => simp [state, Progress.succeeded] at done
    rw [phase] at distinct
    obtain ⟨-, remaining, apart⟩ := List.nodup_append.mp distinct
    refine journeys.rephase rfl ?_ remaining (by simp [State.goto, Phase.awaited]) (by simp [State.goto])
    intro i stage expected
    refine ⟨rest ?_ i stage expected, fun listed => ?_⟩
    · intro members' progress' still' same
      obtain ⟨rfl, rfl, -⟩ := Phase.wave.inj (phase.symm.trans same)
      exact settled
    · have outsider : i ∉ members := fun member => apart i member i listed rfl
      rw [phase, Phase.Expects, if_neg outsider] at expected
      exact expected.2 listed
  | abort members still progress errors phase settled failed some =>
    refine journeys.rephase rfl (rest ?_) ?_ ?_ ?_
    · intro members' progress' still' same
      obtain ⟨rfl, rfl, -⟩ := Phase.wave.inj (phase.symm.trans same)
      exact settled
    all_goals simp [rollback, State.goto, Phase.open, Phase.awaited]
  | rolledBack result failure joins phase =>
    refine journeys.rephase rfl ?_ ?_ ?_ ?_ <;> cases joins <;>
      simp [State.goto, phase, Phase.Expects, Phase.open, Phase.awaited]
  | passOver result name after failure joins phase none =>
    refine journeys.rephase rfl ?_ ?_ ?_ ?_ <;>
      simp [State.goto, phase, Phase.Expects, Phase.open, Phase.awaited]
  | undo result i name after failure joins phase found declared continues =>
    have moved : wf.Journeys (s.goto (.compensating after failure joins)) := by
      refine journeys.rephase rfl ?_ ?_ ?_ ?_ <;>
        simp [State.goto, phase, Phase.Expects, Phase.open, Phase.awaited]
    exact moved.observe rfl rfl (by simp [advance])
  | giveUp err i name after failure joins phase found declared stops =>
    have moved : wf.Journeys (s.goto
        (if joins then .joining (.error failure) else .returned (.error failure))) := by
      refine journeys.rephase rfl ?_ ?_ ?_ ?_ <;> cases joins <;>
        simp [State.goto, phase, Phase.Expects, Phase.open, Phase.awaited]
    exact moved.observe rfl rfl (by simp [advance])
  | join result phase idle =>
    refine journeys.rephase rfl ?_ ?_ ?_ ?_ <;>
      simp [State.goto, phase, Phase.Expects, Phase.open, Phase.awaited]
  | endTask i task => exact journeys.observe rfl rfl (by simp [advance])
  | cancelToken => exact journeys.observe rfl rfl (by simp [advance])

end Firefly.Orchestration.Workflow
