import Firefly.Orchestration.WorkflowRuns

set_option autoImplicit false

namespace Firefly.Orchestration.Workflow

open Runs

variable {wf : Workflow}

def Met (wf : Workflow) (trace : List (Event wf.size)) (dep : String) : Prop :=
  ∃ j, wf.nameOf j = dep ∧
    (.completed j ∈ trace ∨ .skipped j ∈ trace ∨ .spawned j ∈ trace)

theorem Met.mono {trace longer : List (Event wf.size)} {dep : String} (met : wf.Met trace dep)
    (grows : trace ⊆ longer) : wf.Met longer dep := by
  obtain ⟨j, name, event⟩ := met
  exact ⟨j, name, event.imp (@grows _) (Or.imp (@grows _) (@grows _))⟩

def StartsMet (wf : Workflow) (before : List (Event wf.size)) (event : Event wf.size) : Prop :=
  ∀ i, event.start? = some i → ∀ dep ∈ (wf.nodeAt i).dependsOn, wf.Met before dep

structure Dependencies (wf : Workflow) (s : State wf.size) : Prop where
  candidates : ∀ i ∈ s.phase.candidates, ∀ dep ∈ (wf.nodeAt i).dependsOn, wf.Met s.trace dep
  done : ∀ dep ∈ s.done, wf.Met s.trace dep
  ordered : Guarded wf.StartsMet s.trace

theorem Dependencies.rephase {s s' : State wf.size} (deps : wf.Dependencies s)
    (trace : s'.trace = s.trace) (candidates : s'.phase.candidates ⊆ s.phase.candidates)
    (done : ∀ dep ∈ s'.done, wf.Met s.trace dep) : wf.Dependencies s' := by
  refine ⟨?_, ?_, ?_⟩ <;> rw [trace]
  · exact fun i listed => deps.candidates i (candidates listed)
  · exact done
  · exact deps.ordered

theorem Dependencies.record {s s' : State wf.size} {event : Event wf.size}
    (deps : wf.Dependencies s) (trace : s'.trace = s.trace ++ [event])
    (candidates : s'.phase.candidates ⊆ s.phase.candidates)
    (done : ∀ dep ∈ s'.done, dep ∈ s.done ∨ wf.Met [event] dep)
    (start : ∀ i, event.start? = some i → i ∈ s.phase.candidates) : wf.Dependencies s' := by
  have grows : s.trace ⊆ s.trace ++ [event] := List.subset_append_left _ _
  refine ⟨?_, ?_, ?_⟩ <;> rw [trace]
  · exact fun i listed dep needed => (deps.candidates i (candidates listed) dep needed).mono grows
  · intro dep listed
    rcases done dep listed with earlier | now
    · exact (deps.done dep earlier).mono grows
    · exact now.mono (List.subset_append_right _ _)
  · exact guarded_concat deps.ordered fun i started => deps.candidates i (start i started)

theorem mem_of_count_eq_one {α : Type} [DecidableEq α] {list : List α} {a : α}
    (once : list.count a = 1) : a ∈ list :=
  List.count_pos_iff.mp (by omega)

-- A member of a wave that settled without an error completed or was skipped.
theorem Journeys.met {s : State wf.size} (journeys : wf.Journeys s) {members still : List (Fin wf.size)}
    {progress : Fin wf.size → Progress} (phase : s.phase = .wave members progress still)
    {i : Fin wf.size} (member : i ∈ members) (succeeded : (progress i).succeeded) :
    wf.Met s.trace (wf.nameOf i) := by
  obtain ⟨stage, reached, expected⟩ := journeys.reached i
  have counts := journey_counts reached
  rw [phase, Phase.Expects, if_pos member] at expected
  have settled : progress i = .settled (.ok ()) := by
    cases state : progress i with
    | settled result => cases result <;> simp_all [Progress.succeeded]
    | _ => simp [state, Progress.succeeded] at succeeded
  rw [settled] at expected
  refine ⟨i, rfl, ?_⟩
  rcases expected with rfl | rfl
  · have listed := mem_of_count_eq_one counts.completions
    obtain ⟨event, inside, found⟩ := List.mem_filterMap.mp listed
    cases event <;> simp at found
    exact .inl (found ▸ inside)
  · have listed := mem_of_count_eq_one counts.skips
    obtain ⟨event, inside, found⟩ := List.mem_filterMap.mp listed
    cases event <;> simp at found
    exact .inr (.inl (found ▸ inside))

theorem dependencies_transition {s s' : State wf.size} {choice : Choice wf.size}
    (journeys : wf.Journeys s) (deps : wf.Dependencies s) (transition : Transition wf s choice s') :
    wf.Dependencies s' := by
  cases transition with
  | drained phase => exact deps.rephase rfl (by simp [State.goto, Phase.candidates]) deps.done
  | stuck pending phase nonempty none =>
    exact deps.rephase rfl (by simp [rollback, State.goto, Phase.candidates]) deps.done
  | advance pending phase some =>
    -- the only place where candidates appear: readiness is membership in `done`
    refine ⟨?_, deps.done, deps.ordered⟩
    intro i listed dep needed
    simp only [State.goto, Phase.candidates, List.append_nil, List.mem_filter] at listed
    have ready := List.all_eq_true.mp listed.2 dep needed
    exact deps.done dep (by simpa using ready)
  | spawn holds i ready blocking still phase async condition =>
    refine deps.record rfl ?_ ?_ ?_
    · simp [State.goto, State.record, phase, Phase.candidates]
    · intro dep listed
      rcases List.mem_cons.mp listed with rfl | earlier
      · exact .inr ⟨i, rfl, by simp⟩
      · exact .inl earlier
    · simp [phase, Phase.candidates]
  | skipAsync holds i ready blocking still phase async condition =>
    refine deps.record rfl ?_ ?_ ?_
    · simp [State.goto, State.record, phase, Phase.candidates]
    · intro dep listed
      rcases List.mem_cons.mp listed with rfl | earlier
      · exact .inr ⟨i, rfl, by simp⟩
      · exact .inl earlier
    · simp
  | block holds i ready blocking still phase sync =>
    refine deps.rephase rfl ?_ deps.done
    intro j listed
    simp only [State.goto, phase, Phase.candidates, List.mem_append, List.mem_cons,
      List.not_mem_nil, or_false] at listed ⊢
    tauto
  | launch blocking still phase =>
    exact deps.rephase rfl (by simp [State.goto, phase, Phase.candidates]) deps.done
  | refuse holds i members still progress phase | enter holds i members still progress phase =>
    exact deps.rephase rfl (by simp [State.goto, phase, Phase.candidates]) deps.done
  | skip holds i members still progress phase =>
    exact deps.record rfl (by simp [State.goto, State.record, phase, Phase.candidates])
      (fun dep listed => .inl listed) (by simp)
  | start i members still progress phase admitted =>
    have member := journeys.member phase i (by simp [admitted])
    exact deps.record rfl (by simp [State.goto, State.record, phase, Phase.candidates])
      (fun dep listed => .inl listed) (by simpa [phase, Phase.candidates] using member)
  | finish i result members still progress phase =>
    exact deps.record rfl (by simp [State.goto, State.record, phase, Phase.candidates])
      (fun dep listed => .inl listed) (by simp)
  | complete i members still progress phase | fail i source members still progress phase =>
    exact deps.record rfl (by simp [State.goto, State.record, phase, Phase.candidates])
      (fun dep listed => .inl listed) (by simp)
  | nextWave members still progress phase succeeded =>
    refine deps.rephase rfl (by simp [State.goto, Phase.candidates]) ?_
    intro dep listed
    rcases List.mem_append.mp listed with earlier | now
    · exact deps.done dep earlier
    · obtain ⟨i, member, rfl⟩ := List.mem_map.mp now
      exact journeys.met phase member (succeeded i member)
  | abort members still progress errors phase settled failed some =>
    refine deps.rephase rfl (by simp [rollback, State.goto, Phase.candidates]) ?_
    intro dep listed
    rcases List.mem_append.mp listed with earlier | now
    · exact deps.done dep earlier
    · obtain ⟨i, member, rfl⟩ := List.mem_map.mp now
      obtain ⟨member, succeeded⟩ := List.mem_filter.mp member
      exact journeys.met phase member succeeded
  | rolledBack result failure joins phase =>
    exact deps.rephase rfl (by cases joins <;> simp [State.goto, Phase.candidates]) deps.done
  | passOver result name after failure joins phase none =>
    exact deps.rephase rfl (by simp [State.goto, Phase.candidates]) deps.done
  | undo result i name after failure joins phase found declared continues =>
    exact deps.record rfl (by simp [State.goto, State.record, Phase.candidates])
      (fun dep listed => .inl listed) (by simp)
  | giveUp err i name after failure joins phase found declared stops =>
    exact deps.record rfl (by cases joins <;> simp [State.goto, State.record, Phase.candidates])
      (fun dep listed => .inl listed) (by simp)
  | join result phase idle =>
    exact deps.rephase rfl (by simp [State.goto, Phase.candidates]) deps.done
  | endTask i task | cancelToken =>
    exact deps.record rfl (by simp [State.record]) (fun dep listed => .inl listed) (by simp)

def rollbackTarget (wf : Workflow) (trace : List (Event wf.size)) : List (Fin wf.size) :=
  ((completions trace).filter fun i => (wf.nodeAt i).compensatable).reverse

structure Unwound {n : Nat} (policy : CompensationPolicy) (target : List (Fin n))
    (hooks : List (Fin n × Bool)) : Prop where
  follows : hooks.map Prod.fst <+: target
  stops : hooks.map Prod.fst = target ∨
    policy = .stopOnError ∧ ∃ i, hooks.getLast? = some (i, false)
  noSooner : policy = .stopOnError → ∀ attempt ∈ hooks.dropLast, attempt.2 = true

def Phase.Unwinds (wf : Workflow) (target : List (Fin wf.size)) (hooks : List (Fin wf.size × Bool)) :
    Phase wf.size → Prop
  | .compensating order _ _ => ∃ rest, target = hooks.map Prod.fst ++ rest ∧
      order = rest.map wf.nameOf ∧
      (wf.policy = .stopOnError → ∀ attempt ∈ hooks, attempt.2 = true)
  | .joining (.error _) | .returned (.error _) => Unwound wf.policy target hooks
  | _ => hooks = []

structure Unwinding (wf : Workflow) (s : State wf.size) : Prop where
  log : s.completedOrder = (wf.rollbackTarget s.trace).reverse.map wf.nameOf
  phase : s.phase.Unwinds wf (wf.rollbackTarget s.trace) (undone s.trace)

theorem Unwinding.rephase {s s' : State wf.size} (unwinding : wf.Unwinding s)
    (trace : s'.trace = s.trace) (order : s'.completedOrder = s.completedOrder)
    (phase : s'.phase.Unwinds wf (wf.rollbackTarget s.trace) (undone s.trace)) :
    wf.Unwinding s' := by
  refine ⟨?_, ?_⟩ <;> rw [trace]
  · rw [order, unwinding.log]
  · exact phase

theorem Unwinding.observe {s s' : State wf.size} {event : Event wf.size} (unwinding : wf.Unwinding s)
    (trace : s'.trace = s.trace ++ [event]) (order : s'.completedOrder = s.completedOrder)
    (phase : s'.phase.Unwinds wf (wf.rollbackTarget s.trace) (undone s.trace))
    (completes : event.completion? = none) (undoes : event.undo? = none) : wf.Unwinding s' := by
  have target : wf.rollbackTarget s'.trace = wf.rollbackTarget s.trace := by
    rw [trace, rollbackTarget, completions_concat, completes]
    simp [rollbackTarget]
  have same : undone s'.trace = undone s.trace := by
    rw [trace, undone_concat, undoes]
    simp
  refine ⟨by rw [target, order, unwinding.log], ?_⟩
  rwa [target, same]

theorem findNode_nameOf (distinct : wf.nodeNames.Nodup) (i : Fin wf.size) :
    wf.findNode (wf.nameOf i) = some i := by
  have injective : ∀ j, wf.nameOf j = wf.nameOf i → j = i := by
    intro j same
    have names := List.nodup_iff_injective_get.mp distinct
    have index : (⟨j, by simp [nodeNames]⟩ : Fin wf.nodeNames.length) = ⟨i, by simp [nodeNames]⟩ := by
      apply names
      simpa [nodeNames, nameOf, nodeAt] using same
    exact Fin.ext (by simpa using index)
  rw [findNode]
  obtain ⟨j, found⟩ := Option.isSome_iff_exists.mp
    (List.find?_isSome (p := fun j => decide (wf.nameOf j = wf.nameOf i)).mpr
      ⟨i, List.mem_finRange i, by simp⟩)
  rw [found, injective j (by simpa using List.find?_some found)]

theorem mem_rollbackTarget {trace : List (Event wf.size)} {i : Fin wf.size} :
    i ∈ wf.rollbackTarget trace ↔ i ∈ completions trace ∧ (wf.nodeAt i).compensatable := by
  simp [rollbackTarget]

theorem Unwinding.undo {s s' : State wf.size} {i : Fin wf.size} {result : Except BoxError Unit}
    (unwinding : wf.Unwinding s) (trace : s'.trace = s.trace ++ [.compensated i result])
    (order : s'.completedOrder = s.completedOrder)
    (phase : s'.phase.Unwinds wf (wf.rollbackTarget s.trace)
      (undone s.trace ++ [(i, result.toOption.isSome)])) : wf.Unwinding s' := by
  have target : wf.rollbackTarget s'.trace = wf.rollbackTarget s.trace := by
    simp [trace, rollbackTarget]
  refine ⟨by rw [target, order, unwinding.log], ?_⟩
  rw [target, trace, undone_concat]
  exact phase

theorem unwinding_transition {s s' : State wf.size} {choice : Choice wf.size}
    (distinct : wf.nodeNames.Nodup) (unwinding : wf.Unwinding s)
    (transition : Transition wf s choice s') : wf.Unwinding s' := by
  have phase' := unwinding.phase
  cases transition with
  | drained phase | advance pending phase some | launch blocking still phase
  | block holds i ready blocking still phase sync =>
    rw [phase] at phase'
    exact unwinding.rephase rfl rfl phase'
  | refuse holds i members still progress phase | enter holds i members still progress phase =>
    rw [phase] at phase'
    exact unwinding.rephase rfl rfl phase'
  | nextWave members still progress phase succeeded =>
    rw [phase] at phase'
    exact unwinding.rephase rfl rfl phase'
  | stuck pending phase nonempty none =>
    rw [phase] at phase'
    refine unwinding.rephase rfl rfl ⟨wf.rollbackTarget s.trace, ?_, ?_, ?_⟩
    · simp [show undone s.trace = [] from phase']
    · rw [unwinding.log, ← List.map_reverse, List.reverse_reverse]
    · simp [show undone s.trace = [] from phase']
  | abort members still progress errors phase settled failed some =>
    rw [phase] at phase'
    refine unwinding.rephase rfl rfl ⟨wf.rollbackTarget s.trace, ?_, ?_, ?_⟩
    · simp [show undone s.trace = [] from phase']
    · simp only
      rw [unwinding.log, ← List.map_reverse, List.reverse_reverse]
    · simp [show undone s.trace = [] from phase']
  | spawn holds i ready blocking still phase | skipAsync holds i ready blocking still phase =>
    rw [phase] at phase'
    exact unwinding.observe rfl rfl phase' rfl rfl
  | skip holds i members still progress phase | start i members still progress phase =>
    rw [phase] at phase'
    exact unwinding.observe rfl rfl phase' rfl rfl
  | finish i result members still progress phase | fail i source members still progress phase =>
    rw [phase] at phase'
    exact unwinding.observe rfl rfl phase' rfl rfl
  | complete i members still progress phase ended =>
    rw [phase] at phase'
    refine ⟨?_, ?_⟩
    · by_cases declared : (wf.nodeAt i).compensatable <;>
        simp [State.goto, State.record, rollbackTarget, declared, unwinding.log]
    · have same : undone (s.trace ++ [.completed i]) = undone s.trace := by simp
      exact same.trans phase'
  | rolledBack result failure joins phase =>
    rw [phase] at phase'
    obtain ⟨rest, target, empty, clean⟩ := phase'
    obtain rfl : rest = [] := List.map_eq_nil_iff.mp empty.symm
    rw [List.append_nil] at target
    have done : Unwound wf.policy (wf.rollbackTarget s.trace) (undone s.trace) :=
      ⟨by rw [target], .inl target.symm,
        fun policy attempt member => clean policy attempt (List.mem_of_mem_dropLast member)⟩
    refine unwinding.rephase rfl rfl ?_
    cases joins <;> exact done
  | passOver result name after failure joins phase none =>
    rw [phase] at phase'
    obtain ⟨rest, target, order, clean⟩ := phase'
    obtain ⟨i, rest, rfl, named, rfl⟩ := List.map_eq_cons_iff.mp order.symm
    have declared : i ∈ wf.rollbackTarget s.trace := by simp [target]
    have hook := none i (named ▸ findNode_nameOf distinct i)
    simp [(mem_rollbackTarget.mp declared).2] at hook
  | undo result i name after failure joins phase found declared continues =>
    rw [phase] at phase'
    obtain ⟨rest, target, order, clean⟩ := phase'
    obtain ⟨j, rest, rfl, rfl, rfl⟩ := List.map_eq_cons_iff.mp order.symm
    obtain rfl : j = i := by simpa [findNode_nameOf distinct j] using found
    refine unwinding.undo rfl rfl ⟨rest, by simp [target], rfl, ?_⟩
    intro policy attempt member
    rcases List.mem_append.mp member with earlier | now
    · exact clean policy attempt earlier
    · obtain rfl := List.mem_singleton.mp now
      rcases continues with rfl | other
      · rfl
      · exact absurd policy other
  | giveUp err i name after failure joins phase found declared stops =>
    rw [phase] at phase'
    obtain ⟨rest, target, order, clean⟩ := phase'
    obtain ⟨j, rest, rfl, rfl, rfl⟩ := List.map_eq_cons_iff.mp order.symm
    obtain rfl : j = i := by simpa [findNode_nameOf distinct j] using found
    have cut : Unwound wf.policy (wf.rollbackTarget s.trace) (undone s.trace ++ [(j, false)]) :=
      ⟨⟨rest, by simp [target]⟩, .inr ⟨stops, j, by simp⟩, by simpa using clean⟩
    refine unwinding.undo rfl rfl ?_
    cases joins <;> exact cut
  | join result phase idle =>
    rw [phase] at phase'
    refine unwinding.rephase rfl rfl ?_
    cases result <;> exact phase'
  | endTask i task | cancelToken => exact unwinding.observe rfl rfl phase' rfl rfl

theorem unwinding_returned {s s' : State wf.size} {choice : Choice wf.size}
    {result : Except WorkflowError Unit} (phase : s.phase = .returned result)
    (unwinding : wf.Unwinding s) (transition : Transition wf s choice s') :
    s'.phase = .returned result ∧ wf.Unwinding s' := by
  cases transition
  case endTask i task => exact ⟨phase, unwinding.observe rfl rfl unwinding.phase rfl rfl⟩
  case cancelToken => exact ⟨phase, unwinding.observe rfl rfl unwinding.phase rfl rfl⟩
  all_goals simp_all

theorem firstDuplicate_eq_none {names : List String} {nodes : List Node}
    (none : firstDuplicate names nodes = none) :
    (nodes.map Node.name).Nodup ∧ ∀ node ∈ nodes, node.name ∉ names := by
  induction nodes generalizing names with
  | nil => simp
  | cons node nodes ih =>
    rw [firstDuplicate] at none
    split at none
    · simp at none
    · rename_i fresh
      obtain ⟨distinct, outside⟩ := ih none
      constructor
      · refine List.nodup_cons.mpr ⟨fun listed => ?_, distinct⟩
        obtain ⟨other, member, same⟩ := List.mem_map.mp listed
        exact outside other member (by simp [same])
      · intro other member
        rcases List.mem_cons.mp member with rfl | later
        · exact fresh
        · exact fun listed => outside other later (by simp [listed])

theorem distinct_of_accepted (accepted : wf.definitionError = none) : wf.nodeNames.Nodup := by
  rw [definitionError] at accepted
  split at accepted
  · simp at accepted
  · rename_i clean
    exact (firstDuplicate_eq_none clean).1

theorem init_journeys (wf : Workflow) : wf.Journeys wf.init := by
  rw [init]
  split
  · refine ⟨fun i => ⟨.idle, rfl, trivial⟩, ?_, ?_, ?_⟩ <;> simp [Phase.open, Phase.awaited]
  · refine ⟨fun i => ⟨.idle, rfl, trivial, fun _ => rfl⟩, ?_, ?_, ?_⟩
    · exact List.nodup_finRange _
    · simp [Phase.awaited]
    · simp

theorem init_dependencies (wf : Workflow) : wf.Dependencies wf.init := by
  rw [init]
  split <;> exact ⟨by simp [Phase.candidates], by simp, guarded_nil _⟩

theorem init_unwinding (wf : Workflow) : wf.Unwinding wf.init := by
  rw [init]
  split
  · exact ⟨rfl, ⟨by simp [undone], .inl rfl, by simp [undone]⟩⟩
  · exact ⟨rfl, rfl⟩

theorem runInner_journeys {choices : List (Choice wf.size)} {s : State wf.size}
    (ran : wf.runInner choices = some s) : wf.Journeys s :=
  run_invariant wf.Journeys (fun _ _ _ _ journeys stepped =>
    journeys_transition journeys (step_transition stepped)) wf.init_journeys ran

theorem runInner_dependencies {choices : List (Choice wf.size)} {s : State wf.size}
    (ran : wf.runInner choices = some s) : wf.Dependencies s :=
  (run_invariant (fun s => wf.Journeys s ∧ wf.Dependencies s)
    (fun _ _ _ _ both stepped => ⟨journeys_transition both.1 (step_transition stepped),
      dependencies_transition both.1 both.2 (step_transition stepped)⟩)
    ⟨wf.init_journeys, wf.init_dependencies⟩ ran).2

theorem runInner_unwinding {choices : List (Choice wf.size)} {s : State wf.size}
    (ran : wf.runInner choices = some s) : wf.Unwinding s := by
  cases checked : wf.definitionError with
  | none =>
    have distinct := distinct_of_accepted checked
    exact run_invariant wf.Unwinding (fun _ _ _ _ unwinding stepped =>
      unwinding_transition distinct unwinding (step_transition stepped)) wf.init_unwinding ran
  | some error =>
    have phase : wf.init.phase = .returned (.error error) := by simp [init, checked]
    refine (run_invariant (fun s => s.phase = .returned (.error error) ∧ wf.Unwinding s)
      ?_ ⟨phase, wf.init_unwinding⟩ ran).2
    rintro s choice s' - ⟨phase, unwinding⟩ stepped
    exact unwinding_returned phase unwinding (step_transition stepped)

-- A schedule under a listener whose hooks return at once, as the one of `Workflow::run`: a body
-- that returns settles its node before anything else happens.
def silent {n : Nat} (choices : List (Choice n)) : List (Choice n) :=
  choices.flatMap fun choice => match choice with
    | .finish i result => [.finish i result, .settle i]
    | .settle _ => []
    | choice => [choice]

/-- What every run owes its nodes, wherever it stands. -/
structure RunContract (wf : Workflow) (s : State wf.size) : Prop where
  dependenciesFirst : Guarded wf.StartsMet s.trace
  startsOnce : ∀ i, (starts s.trace).count i ≤ 1
  hooksOnce : ((undone s.trace).map Prod.fst).Nodup
  spared : ∀ i ∈ (undone s.trace).map Prod.fst,
    i ∉ failures s.trace ∧ i ∉ skips s.trace ∧ i ∈ starts s.trace
  rolledBack : ∀ error, s.phase = .returned (.error error) →
    Unwound wf.policy (wf.rollbackTarget s.trace) (undone s.trace) ∧
      (completions s.trace).Perm (successes s.trace) ∧
      ∀ i, i ∈ wf.rollbackTarget s.trace ↔
        i ∈ successes s.trace ∧ (wf.nodeAt i).compensatable ∧ (wf.nodeAt i).fireAndForget = false
  untouched : s.phase = .returned (.ok ()) → undone s.trace = []

theorem Unwinding.undone_prefix {s : State wf.size} (unwinding : wf.Unwinding s) :
    (undone s.trace).map Prod.fst <+: wf.rollbackTarget s.trace := by
  have phase := unwinding.phase
  cases state : s.phase with
  | head | scheduling | wave =>
    rw [state] at phase
    simp [show undone s.trace = [] from phase]
  | compensating order failure joins =>
    rw [state] at phase
    obtain ⟨rest, target, -, -⟩ := phase
    exact ⟨rest, target.symm⟩
  | joining result | returned result =>
    rw [state] at phase
    cases result with
    | error => exact phase.follows
    | ok => simp [show undone s.trace = [] from phase]

theorem journey_async {i : Fin wf.size} {trace : List (Event wf.size)} {stage : Stage}
    (async : (wf.nodeAt i).fireAndForget) (reached : wf.journey i trace = some stage) :
    stage = .idle ∨ stage = .skipped ∨ stage = .spawned := by
  induction trace using List.reverseRecOn generalizing stage with
  | nil => exact .inl (by simpa [eq_comm] using reached)
  | append_singleton trace event ih =>
    rw [journey_concat] at reached
    obtain ⟨earlier, before, moved⟩ := Option.bind_eq_some_iff.mp reached
    rw [async] at moved
    have resting := ih before
    cases event with
    | failed j =>
      by_cases same : j = i
      · rcases resting with rfl | rfl | rfl <;> simp [advance, same] at moved
      · obtain rfl : earlier = stage := by simpa [advance, same] using moved
        exact resting
    | skipped j | spawned j | bodyStarted j | bodyEnded j | completed j =>
      by_cases same : j = i
      · rcases resting with rfl | rfl | rfl <;> simp_all [advance]
      · obtain rfl : earlier = stage := by simpa [advance, same] using moved
        exact resting
    | compensated j result | taskEnded j | tokenCancelled =>
      obtain rfl : earlier = stage := by simpa [advance] using moved
      exact resting

theorem runInner_contract (wf : Workflow) (choices : List (Choice wf.size)) (s : State wf.size)
    (ran : wf.runInner choices = some s) : wf.RunContract s := by
  have journeys := runInner_journeys ran
  have unwinding := runInner_unwinding ran
  have counts : ∀ i, ∃ stage, wf.journey i s.trace = some stage ∧ s.phase.Expects i stage ∧
      Counts i stage s.trace := by
    intro i
    obtain ⟨stage, reached, expected⟩ := journeys.reached i
    exact ⟨stage, reached, expected, journey_counts reached⟩
  -- a node in the completion log is at the end of its journey
  have completed : ∀ i ∈ completions s.trace, wf.journey i s.trace = some .completed := by
    intro i member
    obtain ⟨stage, reached, -, counts⟩ := counts i
    have positive := List.count_pos_iff.mpr member
    rw [counts.completions] at positive
    split at positive
    · rename_i same
      exact same ▸ reached
    · simp at positive
  have targets : ∀ i ∈ wf.rollbackTarget s.trace, i ∈ completions s.trace :=
    fun i member => (mem_rollbackTarget.mp member).1
  have undoneSubset := unwinding.undone_prefix
  refine ⟨(runInner_dependencies ran).ordered, ?_, ?_, ?_, ?_, ?_⟩
  · intro i
    obtain ⟨stage, -, -, counts⟩ := counts i
    rw [counts.starts]
    cases stage <;> simp
  · have once : (completions s.trace).Nodup := by
      rw [List.nodup_iff_count_le_one]
      intro i
      obtain ⟨stage, -, -, counts⟩ := counts i
      rw [counts.completions]
      split <;> simp
    exact (List.nodup_reverse.mpr (once.filter _)).sublist undoneSubset.sublist
  · intro i member
    have tally := journey_counts (completed i (targets i (undoneSubset.subset member)))
    exact ⟨List.count_eq_zero.mp tally.failures, List.count_eq_zero.mp tally.skips,
      mem_of_count_eq_one tally.starts⟩
  · intro error returned
    have phase := unwinding.phase
    rw [returned] at phase
    have tallies : ∀ i, (completions s.trace).count i = (successes s.trace).count i := by
      intro i
      obtain ⟨stage, -, expected, counts⟩ := counts i
      rw [returned] at expected
      rw [counts.completions, counts.successes]
      cases stage with
      | running | ended => exact expected.elim
      | _ => simp
    have perm : (completions s.trace).Perm (successes s.trace) := List.perm_iff_count.mpr tallies
    refine ⟨phase, perm, fun i => ?_⟩
    rw [mem_rollbackTarget, ← perm.mem_iff]
    refine ⟨fun ⟨member, declared⟩ => ⟨member, declared, ?_⟩, fun ⟨member, declared, _⟩ => ⟨member, declared⟩⟩
    by_contra async
    have resting := journey_async (by simpa using async) (completed i member)
    simp at resting
  · intro returned
    have phase := unwinding.phase
    rw [returned] at phase
    exact phase

-- Only `finish` and `settle` touch the two orders.
theorem orders_transition {s s' : State wf.size} {choice : Choice wf.size}
    (transition : Transition wf s choice s') (unfinished : ∀ i result, choice ≠ .finish i result)
    (unsettled : ∀ i, choice ≠ .settle i) :
    completions s'.trace = completions s.trace ∧ successes s'.trace = successes s.trace := by
  cases transition
  case finish i result members still progress phase running => exact absurd rfl (unfinished i result)
  case complete i members still progress phase ended => exact absurd rfl (unsettled i)
  case fail i source members still progress phase ended => exact absurd rfl (unsettled i)
  all_goals simp [State.goto, State.record, rollback]

theorem finish_effect {s s' : State wf.size} {i : Fin wf.size} {result : Except BoxError Unit}
    (transition : Transition wf s (.finish i result) s') :
    s'.trace = s.trace ++ [.bodyEnded i result] ∧
      ∃ members progress still, s'.phase = .wave members progress still ∧
        progress i = .ended result := by
  cases transition with
  | finish _ _ members still progress =>
    exact ⟨rfl, members, Function.update progress i (.ended result), still, rfl, by simp⟩

theorem settle_effect {s s' : State wf.size} {i : Fin wf.size}
    (transition : Transition wf s (.settle i) s') :
    ∃ members progress still, s.phase = .wave members progress still ∧
      (progress i = .ended (.ok ()) ∧ s'.trace = s.trace ++ [.completed i] ∨
        ∃ source, progress i = .ended (.error source) ∧ s'.trace = s.trace ++ [.failed i]) := by
  cases transition with
  | complete _ members still progress phase ended =>
    exact ⟨members, progress, still, phase, .inl ⟨ended, rfl⟩⟩
  | fail _ source members still progress phase ended =>
    exact ⟨members, progress, still, phase, .inr ⟨source, ended, rfl⟩⟩

theorem orders_finish {s middle s' : State wf.size} {i : Fin wf.size} {result : Except BoxError Unit}
    (first : Transition wf s (.finish i result) middle)
    (second : Transition wf middle (.settle i) s')
    (same : completions s.trace = successes s.trace) :
    completions s'.trace = successes s'.trace := by
  obtain ⟨trace, members, progress, still, phase, ended⟩ := finish_effect first
  obtain ⟨members', progress', still', phase', settled⟩ := settle_effect second
  obtain ⟨-, rfl, -⟩ := Phase.wave.inj (phase.symm.trans phase')
  rcases settled with ⟨ok, trace'⟩ | ⟨source, failed, trace'⟩
  · obtain rfl : result = .ok () := by simpa [ended] using ok
    simp only [trace', trace, completions_concat, successes_concat, same]
    simp
  · obtain rfl : result = .error source := by simpa [ended] using failed
    simp only [trace', trace, completions_concat, successes_concat, same]
    simp

-- When no hook delays a node, nodes complete in the order in which their bodies return.
theorem silent_in_order {choices : List (Choice wf.size)} {s : State wf.size}
    (ran : wf.runInner (silent choices) = some s) : completions s.trace = successes s.trace := by
  have initial : completions wf.init.trace = successes wf.init.trace := by
    rw [init]
    split <;> rfl
  rw [runInner] at ran
  generalize wf.init = start at ran initial
  induction choices generalizing start with
  | nil =>
    obtain rfl : start = s := by simpa [silent] using ran
    exact initial
  | cons choice choices ih =>
    rw [silent, List.flatMap_cons, run_append] at ran
    obtain ⟨next, block, rest⟩ := Option.bind_eq_some_iff.mp ran
    refine ih next rest ?_
    cases choice with
    | finish i result =>
      simp only [run_cons, run_nil] at block
      obtain ⟨middle, first, second⟩ := Option.bind_eq_some_iff.mp block
      have second : wf.step middle (.settle i) = some next := by simpa [run_cons] using second
      exact orders_finish (step_transition first) (step_transition second) initial
    | settle i =>
      obtain rfl : start = next := by simpa using block
      exact initial
    | _ =>
      simp only [run_cons, run_nil] at block
      obtain ⟨after, stepped, same⟩ := Option.bind_eq_some_iff.mp block
      obtain rfl := Option.some.inj same
      have kept := orders_transition (step_transition stepped) (by simp) (by simp)
      rw [kept.1, kept.2, initial]

theorem workflow_runs_correct (wf : Workflow) (choices : List (Choice wf.size)) (s : State wf.size)
    (ran : wf.runInner choices = some s) :
    wf.RunContract s ∧
      ∀ quiet, choices = silent quiet → completions s.trace = successes s.trace := by
  refine ⟨runInner_contract wf choices s ran, ?_⟩
  rintro quiet rfl
  exact silent_in_order ran

def pipeline : Workflow where
  name := "pipeline"
  nodes :=
    [{ name := "reserve", compensatable := true }, { name := "charge", compensatable := true },
     { name := "ship", dependsOn := ["reserve", "charge"], compensatable := true }]

def pipelineSchedule : List (Choice 3) := silent
  [.checkPending, .schedule true, .schedule true, .launch, .poll 0 true, .poll 1 true, .start 0,
   .start 1, .finish 1 (.ok ()), .finish 0 (.ok ()), .gather, .checkPending, .schedule true, .launch,
   .poll 2 true, .start 2, .finish 2 (.error "no carrier"), .gather, .compensate (.error "busy"),
   .compensate (.ok ()), .compensate (.ok ()), .joinAsync]

theorem pipeline_rolls_back : ∃ s, pipeline.runInner pipelineSchedule = some s ∧
    (undone s.trace).map (fun hook => (pipeline.nameOf hook.1, hook.2)) =
      [("reserve", false), ("charge", true)] ∧ pipeline.RunContract s := by
  have computed : (pipeline.runInner pipelineSchedule).map
      (fun s => (undone s.trace).map fun hook => (pipeline.nameOf hook.1, hook.2)) =
        some [("reserve", false), ("charge", true)] := by
    decide
  obtain ⟨s, ran, hooks⟩ := Option.map_eq_some_iff.mp computed
  exact ⟨s, ran, hooks, (workflow_runs_correct pipeline pipelineSchedule s ran).1⟩

end Firefly.Orchestration.Workflow
