import Firefly.Orchestration.Model
import Firefly.Orchestration.WorkflowContract

set_option autoImplicit false

namespace Firefly.Orchestration.Workflow

open Runs Layering

variable {wf : Workflow}

def Choice.succeeds {n : Nat} : Choice n → Bool
  | .finish _ (.error _) | .cancelToken => false
  | _ => true

def Phase.isJoining {n : Nat} : Phase n → Bool
  | .joining _ => true
  | _ => false

def Choice.drives {n : Nat} (phase : Phase n) : Choice n → Bool
  | .schedule holds | .poll _ holds => holds
  | .endTask _ => phase.isJoining
  | choice => choice.succeeds

theorem succeeds_of_drives {n : Nat} {phase : Phase n} {choice : Choice n}
    (drives : choice.drives phase) : choice.succeeds := by
  cases choice <;> first | rfl | exact drives

def Progress.weight : Progress → Nat
  | .waiting => 5
  | .admitted => 4
  | .running => 3
  | .ended _ => 2
  | .settled _ => 1

def Phase.weight {n : Nat} (logged : Nat) : Phase n → Nat
  | .head pending => 20 * pending.length + logged + 5
  | .scheduling ready blocking still =>
    20 * still.length + 12 * ready.length + 11 * blocking.length + logged + 7
  | .wave members progress still =>
    20 * still.length + 2 * (members.map fun i => (progress i).weight).sum + logged + 6
  | .compensating order _ _ => order.length + 4
  | .joining _ => 2
  | .returned _ => 1

def State.weight {n : Nat} (s : State n) : Nat :=
  s.tasks.length + s.phase.weight s.completedOrder.length

theorem weight_update_lt {n : Nat} {members : List (Fin n)} {progress : Fin n → Progress} {i : Fin n}
    {next : Progress} (member : i ∈ members) (less : next.weight < (progress i).weight) :
    (members.map fun j => (Function.update progress i next j).weight).sum <
      (members.map fun j => (progress j).weight).sum := by
  refine List.sum_lt_sum _ _ ?_ ⟨i, member, by simpa using less⟩
  intro j _
  by_cases same : j = i
  · subst same
    simpa using less.le
  · simp [Function.update_of_ne same]

theorem lighter_member {s s' : State wf.size} {members still : List (Fin wf.size)}
    {progress : Fin wf.size → Progress} {i : Fin wf.size} {next : Progress}
    (phase : s.phase = .wave members progress still)
    (phase' : s'.phase = .wave members (Function.update progress i next) still)
    (member : i ∈ members) (less : next.weight < (progress i).weight) (tasks : s'.tasks = s.tasks)
    (logged : s'.completedOrder.length ≤ s.completedOrder.length + 1) : s'.weight < s.weight := by
  have sum := weight_update_lt member less
  simp only [State.weight, phase, phase', Phase.weight, tasks]
  omega

theorem exists_lighter (s : State wf.size) (running : ∀ result, s.phase ≠ .returned result) :
    ∃ choice s', choice.drives s.phase ∧ wf.step s choice = some s' ∧ s'.weight < s.weight := by
  cases phase : s.phase with
  | head pending =>
    cases pending with
    | nil =>
      refine ⟨.checkPending, s.goto (.joining (.ok ())), rfl, by simp [step, stepCheckPending, phase], ?_⟩
      simp [State.weight, State.goto, phase, Phase.weight]
    | cons i pending =>
      by_cases none : (i :: pending).filter (wf.isReady s.done) = []
      · refine ⟨.checkPending, rollback s (.noProgress wf.name) false, rfl, ?_, ?_⟩
        · simp only [step, stepCheckPending, phase, List.partition_eq_filter_filter, none, if_true]
        · simp [State.weight, rollback, State.goto, phase, Phase.weight]
      · refine ⟨.checkPending, s.goto (.scheduling ((i :: pending).filter (wf.isReady s.done)) []
          ((i :: pending).filter (not ∘ wf.isReady s.done))), rfl, ?_, ?_⟩
        · simp only [step, stepCheckPending, phase, List.partition_eq_filter_filter, none, if_false]
        · have split := (List.filter_append_perm (wf.isReady s.done) (i :: pending)).length_eq
          have some := List.length_pos_iff.mpr none
          simp only [List.length_append] at split
          simp only [State.weight, State.goto, phase, Phase.weight, List.length_nil, Function.comp_def]
          omega
  | scheduling ready blocking still =>
    cases ready with
    | nil =>
      refine ⟨.launch, s.goto (.wave blocking (fun _ => .waiting) still), rfl,
        by simp [step, stepLaunch, phase], ?_⟩
      simp [State.weight, State.goto, phase, Phase.weight, Progress.weight]
      omega
    | cons i ready =>
      by_cases async : (wf.nodeAt i).fireAndForget
      · by_cases holds : wf.conditionHolds i true
        · refine ⟨.schedule true, _, rfl, by
            simp only [step, stepSchedule, phase, async, holds, if_true]; rfl, ?_⟩
          simp [State.weight, State.goto, State.record, phase, Phase.weight]
          omega
        · refine ⟨.schedule true, _, rfl, by
            simp only [step, stepSchedule, phase, async, holds, if_true]; rfl, ?_⟩
          simp [State.weight, State.goto, State.record, phase, Phase.weight]
      · refine ⟨.schedule true, s.goto (.scheduling ready (blocking ++ [i]) still), rfl,
          by simp [step, stepSchedule, phase, async], ?_⟩
        simp [State.weight, State.goto, phase, Phase.weight]
        omega
  | wave members progress still =>
    by_cases settled : members.all fun i => (progress i).isSettled
    · refine ⟨.gather, ?_⟩
      simp only [step, stepGather, phase, settled, if_true]
      split
      · refine ⟨_, rfl, rfl, ?_⟩
        simp only [State.weight, State.goto, phase, Phase.weight]
        omega
      · refine ⟨_, rfl, rfl, ?_⟩
        simp only [State.weight, State.goto, rollback, phase, Phase.weight, List.length_reverse]
        omega
    · obtain ⟨i, member, unsettled⟩ : ∃ i ∈ members, (progress i).isSettled = false := by
        simpa using settled
      cases at_i : progress i with
      | waiting =>
        have polled : ∃ next, Progress.weight next < Progress.weight .waiting ∧ ∃ s', wf.step s (.poll i true) = some s' ∧
            s'.phase = .wave members (Function.update progress i next) still ∧ s'.tasks = s.tasks ∧
            s'.completedOrder = s.completedOrder := by
          simp only [step, stepPoll, phase, at_i, member, not_true_eq_false, if_false]
          split
          · exact ⟨_, by decide, _, rfl, rfl, rfl, rfl⟩
          · split
            · exact ⟨_, by decide, _, rfl, rfl, rfl, rfl⟩
            · exact ⟨_, by decide, _, rfl, rfl, rfl, rfl⟩
        obtain ⟨next, less, s', stepped, phase', tasks, logged⟩ := polled
        refine ⟨.poll i true, s', rfl, stepped, ?_⟩
        exact lighter_member phase phase' member (at_i ▸ less) tasks (by simp [logged])
      | admitted =>
        refine ⟨.start i, _, rfl, by simp only [step, stepStart, phase, at_i]; rfl, ?_⟩
        exact lighter_member phase rfl member (by simp [at_i, Progress.weight]) rfl
          (by simp [State.goto, State.record])
      | running =>
        refine ⟨.finish i (.ok ()), _, rfl, by simp only [step, stepFinish, phase, at_i]; rfl, ?_⟩
        exact lighter_member phase rfl member (by simp [at_i, Progress.weight]) rfl
          (by simp [State.goto, State.record])
      | ended result =>
        cases result with
        | ok =>
          refine ⟨.settle i, _, rfl, by simp only [step, stepSettle, phase, at_i]; rfl, ?_⟩
          refine lighter_member phase rfl member (by simp [at_i, Progress.weight]) rfl ?_
          simp only [State.goto, State.record, List.length_append]
          split <;> simp
        | error source =>
          refine ⟨.settle i, _, rfl, by simp only [step, stepSettle, phase, at_i]; rfl, ?_⟩
          exact lighter_member phase rfl member (by simp [at_i, Progress.weight]) rfl
            (by simp [State.goto, State.record])
      | settled result => simp [at_i, Progress.isSettled] at unsettled
  | compensating order failure joins =>
    refine ⟨.compensate (.ok ()), ?_⟩
    cases order with
    | nil =>
      refine ⟨_, rfl, by simp only [step, stepCompensate, phase]; rfl, ?_⟩
      cases joins <;> simp [State.weight, State.goto, phase, Phase.weight]
    | cons name rest =>
      simp only [step, stepCompensate, phase]
      split
      · exact ⟨_, rfl, rfl, by simp [State.weight, State.goto, phase, Phase.weight]⟩
      · split
        · exact ⟨_, rfl, rfl, by simp [State.weight, State.goto, State.record, phase, Phase.weight]⟩
        · exact ⟨_, rfl, rfl, by simp [State.weight, State.goto, phase, Phase.weight]⟩
  | joining result =>
    cases tasks : s.tasks with
    | nil =>
      refine ⟨.joinAsync, _, rfl, by simp only [step, stepJoinAsync, phase, tasks, if_true]; rfl, ?_⟩
      simp [State.weight, State.goto, phase, Phase.weight]
    | cons i rest =>
      refine ⟨.endTask i, _, rfl, by simp only [step, tasks, List.mem_cons, true_or, if_true]; rfl, ?_⟩
      simp [State.weight, State.record, phase, Phase.weight, tasks]
  | returned result => exact absurd phase (running result)

theorem exists_return (s : State wf.size) : ∃ choices s' result,
    (∀ choice ∈ choices, choice.succeeds) ∧ run wf.step s choices = some s' ∧
      s'.phase = .returned result := by
  induction weight : s.weight using Nat.strong_induction_on generalizing s with
  | _ weight ih =>
    by_cases returned : ∃ result, s.phase = .returned result
    · obtain ⟨result, phase⟩ := returned
      exact ⟨[], s, result, by simp, by simp, phase⟩
    · obtain ⟨choice, next, drives, stepped, lighter⟩ :=
        exists_lighter s fun result phase => returned ⟨result, phase⟩
      obtain ⟨choices, s', result, all, ran, phase⟩ := ih next.weight (weight ▸ lighter) next rfl
      exact ⟨choice :: choices, s', result, by simpa [succeeds_of_drives drives] using all,
        by simp [run_cons, stepped, ran], phase⟩

theorem getElem?_foldl_insert (nodes : List Node) (graph : Graph)
    (distinct : (nodes.map Node.name).Nodup) (name : String) (deps : List String) :
    (nodes.foldl (fun graph node => graph.insert node.name node.dependsOn) graph)[name]? = some deps ↔
      (∃ node ∈ nodes, node.name = name ∧ node.dependsOn = deps) ∨
        (∀ node ∈ nodes, node.name ≠ name) ∧ graph[name]? = some deps := by
  induction nodes generalizing graph with
  | nil => simp
  | cons node nodes ih =>
    obtain ⟨fresh, distinct⟩ := List.nodup_cons.mp distinct
    have others : ∀ other ∈ nodes, other.name ≠ node.name := fun other member same =>
      fresh (List.mem_map.mpr ⟨other, member, same⟩)
    rw [List.foldl_cons, ih _ distinct, Std.TreeMap.getElem?_insert]
    by_cases same : node.name = name
    · subst same
      simp only [Std.compare_self, if_true, Option.some.injEq, List.mem_cons, exists_eq_or_imp,
        forall_eq_or_imp, ne_eq, not_true_eq_false, false_and, or_false, true_and]
      constructor
      · rintro (⟨other, member, clash, -⟩ | ⟨-, own⟩)
        · exact absurd clash (others other member)
        · exact .inl own
      · rintro (own | ⟨other, member, clash, -⟩)
        · exact .inr ⟨others, own⟩
        · exact absurd clash (others other member)
    · have differs : ¬ compare node.name name = .eq := by simpa using same
      simp [same, differs]

theorem graph_getElem? (distinct : wf.nodeNames.Nodup) (i : Fin wf.size) :
    wf.graph[wf.nameOf i]? = some (wf.nodeAt i).dependsOn := by
  rw [graph, getElem?_foldl_insert wf.nodes ∅ distinct]
  exact .inl ⟨wf.nodeAt i, List.get_mem _ _, rfl, rfl⟩

theorem nameOf_finRange (wf : Workflow) : (List.finRange wf.size).map wf.nameOf = wf.nodeNames := by
  rw [nodeNames, ← List.map_get_finRange wf.nodes, List.map_map]
  simp [Function.comp_def, nameOf, nodeAt]

theorem graph_keys_perm (distinct : wf.nodeNames.Nodup) : wf.graph.keys.Perm wf.nodeNames := by
  refine (List.perm_ext_iff_of_nodup (nodup_keys _) distinct).mpr fun name => ?_
  rw [mem_keys_iff]
  constructor
  · rintro ⟨deps, found⟩
    rw [graph, getElem?_foldl_insert wf.nodes ∅ distinct] at found
    rcases found with ⟨node, member, rfl, -⟩ | ⟨-, empty⟩
    · exact List.mem_map_of_mem member
    · simp at empty
  · rw [← nameOf_finRange]
    intro listed
    obtain ⟨i, -, rfl⟩ := List.mem_map.mp listed
    exact ⟨_, graph_getElem? distinct i⟩

def blamesGraph : WorkflowError → Bool
  | .unknownDependency .. | .noProgress _ => true
  | _ => false

structure Drained (wf : Workflow) (done : List String) (rest candidates : List (Fin wf.size)) :
    Prop where
  order : ∃ order, (∀ name, name ∈ order ↔ name ∈ done) ∧ Topological (depsOf wf.graph) order ∧
    (order ++ rest.map wf.nameOf).Perm wf.nodeNames
  free : ∀ i ∈ candidates, ∀ dep ∈ (wf.nodeAt i).dependsOn, dep ∈ done

def Phase.Drains (wf : Workflow) (done : List String) : Phase wf.size → Prop
  | .compensating _ failure _ => blamesGraph failure ∧ ¬ Sound wf.graph
  | .joining (.ok ()) | .returned (.ok ()) => Sound wf.graph
  | .joining (.error error) | .returned (.error error) =>
    blamesGraph error ∧ ¬ Sound wf.graph
  | phase => wf.Drained done phase.open phase.candidates

structure Undisturbed {n : Nat} (s : State n) : Prop where
  live : (s.token || s.internal) = false
  clean : ∀ members progress still, s.phase = .wave members progress still →
    ∀ i, (progress i).error? = none ∧ ∀ source, progress i ≠ .ended (.error source)

theorem undisturbed_transition {s s' : State wf.size} {choice : Choice wf.size}
    (undisturbed : Undisturbed s) (succeeds : choice.succeeds) (transition : Transition wf s choice s') :
    Undisturbed s' := by
  -- a member that moves on keeps the wave clean
  have moved : ∀ {members still : List (Fin wf.size)} {progress : Fin wf.size → Progress}
      {i : Fin wf.size} {next : Progress}, s.phase = .wave members progress still →
      next.error? = none → (∀ source, next ≠ .ended (.error source)) →
      ∀ members' progress' still', Phase.wave members (Function.update progress i next) still =
        .wave members' progress' still' →
      ∀ j, (progress' j).error? = none ∧ ∀ source, progress' j ≠ .ended (.error source) := by
    intro members still progress i next phase noError notFailed members' progress' still' same j
    obtain ⟨-, rfl, -⟩ := Phase.wave.inj same
    by_cases own : j = i
    · subst own
      simpa using ⟨noError, notFailed⟩
    · rw [Function.update_of_ne own]
      exact undisturbed.clean members progress still phase j
  have clean := undisturbed.clean
  have live := undisturbed.live
  cases transition with
  | drained | stuck | advance | block | passOver => exact ⟨live, by simp [State.goto, rollback]⟩
  | spawn | skipAsync | undo => exact ⟨live, by simp [State.goto, State.record]⟩
  | launch blocking still phase =>
    refine ⟨live, fun members progress still' same i => ?_⟩
    obtain ⟨-, rfl, -⟩ := Phase.wave.inj same
    simp [Progress.error?]
  | refuse holds i members still progress phase member waiting cancelled => simp [live] at cancelled
  | enter holds i members still progress phase member waiting live condition =>
    exact ⟨live, moved phase rfl (by simp)⟩
  | skip holds i members still progress phase member waiting live condition =>
    exact ⟨live, moved phase rfl (by simp)⟩
  | start i members still progress phase admitted => exact ⟨live, moved phase rfl (by simp)⟩
  | finish i result members still progress phase running =>
    cases result with
    | ok => exact ⟨live, moved phase rfl (by simp)⟩
    | error => simp [Choice.succeeds] at succeeds
  | complete i members still progress phase ended => exact ⟨live, moved phase rfl (by simp)⟩
  | fail i source members still progress phase ended =>
    exact absurd ended ((clean members progress still phase i).2 source)
  | nextWave => exact ⟨live, by simp [State.goto]⟩
  | abort => exact ⟨live, by simp [State.goto, rollback]⟩
  | rolledBack result failure joins | giveUp err i name rest failure joins =>
    exact ⟨live, by cases joins <;> simp [State.goto, State.record]⟩
  | join => exact ⟨live, by simp [State.goto]⟩
  | endTask => exact ⟨live, clean⟩
  | cancelToken => simp [Choice.succeeds] at succeeds

theorem depsOf_nameOf (distinct : wf.nodeNames.Nodup) (i : Fin wf.size) :
    depsOf wf.graph (wf.nameOf i) = (wf.nodeAt i).dependsOn :=
  depsOf_eq (graph_getElem? distinct i)

theorem Drained.sound_iff (distinct : wf.nodeNames.Nodup) {done : List String}
    {pending : List (Fin wf.size)} (drained : wf.Drained done pending [])
    (stuck : ∀ i ∈ pending, wf.isReady done i = false) : pending = [] ↔ Sound wf.graph := by
  obtain ⟨order, members, sorted, perm⟩ := drained.order
  have whole := perm.trans (graph_keys_perm distinct).symm
  rw [Sound, ← drained_iff whole sorted, List.map_eq_nil_iff]
  intro name listed
  obtain ⟨i, member, rfl⟩ := List.mem_map.mp listed
  obtain ⟨dep, needs, missing⟩ : ∃ dep ∈ (wf.nodeAt i).dependsOn, dep ∉ done := by
    simpa [isReady] using stuck i member
  exact ⟨dep, depsOf_nameOf distinct i ▸ needs, mt (members dep).mp missing⟩

theorem Drained.mark (distinct : wf.nodeNames.Nodup) (more : List (Fin wf.size))
    {done done' : List String} {rest candidates : List (Fin wf.size)}
    (drained : wf.Drained done (more ++ rest) candidates)
    (free : ∀ i ∈ more, i ∈ candidates)
    (marked : ∀ name, name ∈ done' ↔ name ∈ done ∨ name ∈ more.map wf.nameOf)
    {candidates' : List (Fin wf.size)} (subset : candidates' ⊆ candidates) :
    wf.Drained done' rest candidates' := by
  obtain ⟨order, members, sorted, perm⟩ := drained.order
  refine ⟨⟨order ++ more.map wf.nameOf, ?_, ?_, ?_⟩, ?_⟩
  · intro name
    rw [marked, List.mem_append, members]
  · refine topological_append sorted ?_
    intro name listed dep needs
    obtain ⟨i, member, rfl⟩ := List.mem_map.mp listed
    rw [depsOf_nameOf distinct] at needs
    exact (members dep).mpr (drained.free i (free i member) dep needs)
  · simpa using perm
  · intro i listed dep needs
    exact (marked dep).mpr (.inl (drained.free i (subset listed) dep needs))

theorem Drained.reorder {done : List String} {rest rest' candidates candidates' : List (Fin wf.size)}
    (drained : wf.Drained done rest candidates) (perm : rest'.Perm rest)
    (free : ∀ i ∈ candidates', ∀ dep ∈ (wf.nodeAt i).dependsOn, dep ∈ done) :
    wf.Drained done rest' candidates' := by
  obtain ⟨order, members, sorted, whole⟩ := drained.order
  exact ⟨⟨order, members, sorted, ((perm.map _).append_left order).trans whole⟩, free⟩

theorem drains_transition {s s' : State wf.size} {choice : Choice wf.size}
    (distinct : wf.nodeNames.Nodup) (undisturbed : Undisturbed s) (succeeds : choice.succeeds)
    (drains : s.phase.Drains wf s.done) (transition : Transition wf s choice s') :
    s'.phase.Drains wf s'.done := by
  cases transition with
  | drained phase =>
    rw [phase] at drains
    have none : ∀ i ∈ ([] : List (Fin wf.size)), wf.isReady s.done i = false := by simp
    exact (Drained.sound_iff distinct drains none).mp rfl
  | stuck pending phase nonempty none =>
    rw [phase] at drains
    exact ⟨rfl, mt (Drained.sound_iff distinct drains none).mpr nonempty⟩
  | advance pending phase some =>
    rw [phase] at drains
    refine Drained.reorder drains ?_ ?_
    · simpa [Phase.open, State.goto] using List.filter_append_perm (wf.isReady s.done) pending
    · intro i listed dep needs
      simp only [Phase.candidates, State.goto, List.append_nil, List.mem_filter] at listed
      simpa [State.goto] using List.all_eq_true.mp listed.2 dep needs
  | spawn holds i ready blocking still phase | skipAsync holds i ready blocking still phase =>
    rw [phase] at drains
    refine Drained.mark distinct [i] drains (by simp [Phase.candidates]) ?_ ?_
    · simp [State.goto, State.record, or_comm]
    · simp [Phase.candidates, State.goto, State.record]
  | block holds i ready blocking still phase sync =>
    rw [phase] at drains
    have shift : (ready ++ blocking ++ [i]).Perm ([i] ++ (ready ++ blocking)) :=
      List.perm_append_comm
    refine Drained.reorder drains (by simpa [Phase.open, State.goto] using shift.append_right still) ?_
    intro j listed
    refine drains.free j (shift.mem_iff.mp ?_)
    simpa [Phase.candidates, State.goto] using listed
  | launch blocking still phase =>
    rw [phase] at drains
    exact Drained.reorder drains (by simp [Phase.open, State.goto])
      (by simpa [Phase.candidates, State.goto] using drains.free)
  | refuse holds i members still progress phase | enter holds i members still progress phase
  | skip holds i members still progress phase | start i members still progress phase
  | finish i result members still progress phase | complete i members still progress phase
  | fail i source members still progress phase =>
    rw [phase] at drains
    exact drains
  | nextWave members still progress phase succeeded =>
    rw [phase] at drains
    exact Drained.mark distinct members drains (fun i member => member) (by simp [State.goto])
      (by simp [Phase.candidates, State.goto])
  | abort members still progress errors phase settled failed some =>
    have none : members.filterMap (fun i => (progress i).error?) = [] :=
      List.filterMap_eq_nil_iff.mpr fun i _ => (undisturbed.clean members progress still phase i).1
    exact absurd (failed.trans none) some
  | rolledBack result failure joins phase =>
    rw [phase] at drains
    cases joins <;> exact drains
  | passOver result name rest failure joins phase | undo result i name rest failure joins phase =>
    rw [phase] at drains
    exact drains
  | giveUp err i name rest failure joins phase =>
    rw [phase] at drains
    cases joins <;> exact drains
  | join result phase =>
    rw [phase] at drains
    cases result <;> exact drains
  | endTask => exact drains
  | cancelToken => simp [Choice.succeeds] at succeeds

theorem firstUnknown_eq_none_iff (names : List String) (nodes : List Node) :
    firstUnknown names nodes = none ↔ ∀ node ∈ nodes, ∀ dep ∈ node.dependsOn, dep ∈ names := by
  induction nodes with
  | nil => simp [firstUnknown]
  | cons node nodes ih =>
    rw [firstUnknown]
    cases found : node.dependsOn.find? (· ∉ names) with
    | none =>
      have known : ∀ dep ∈ node.dependsOn, dep ∈ names := by simpa using List.find?_eq_none.mp found
      simp only [ih, List.mem_cons, forall_eq_or_imp]
      exact ⟨fun rest => ⟨known, rest⟩, And.right⟩
    | some dep =>
      have unknown : dep ∉ names := by simpa using List.find?_some found
      simp only [reduceCtorEq, List.mem_cons, forall_eq_or_imp, false_iff, not_and]
      intro known
      exact absurd (known dep (List.mem_of_find?_eq_some found)) unknown

theorem closed_iff (distinct : wf.nodeNames.Nodup) :
    Closed wf.graph.keys (depsOf wf.graph) ↔ firstUnknown wf.nodeNames wf.nodes = none := by
  have keys := graph_keys_perm distinct
  rw [firstUnknown_eq_none_iff]
  constructor
  · intro closed node member dep needs
    obtain ⟨i, rfl⟩ := List.mem_iff_get.mp member
    have listed : wf.nameOf i ∈ wf.graph.keys := mem_keys_iff.mpr ⟨_, graph_getElem? distinct i⟩
    exact keys.mem_iff.mp (closed _ listed dep (depsOf_nameOf distinct i ▸ needs))
  · intro known name listed dep needs
    rw [keys.mem_iff, ← nameOf_finRange] at listed
    obtain ⟨i, -, rfl⟩ := List.mem_map.mp listed
    rw [depsOf_nameOf distinct] at needs
    exact keys.mem_iff.mpr (known _ (List.get_mem _ _) dep needs)

theorem firstDuplicate_of_nodup {names : List String} {nodes : List Node}
    (distinct : (nodes.map Node.name).Nodup) (fresh : ∀ node ∈ nodes, node.name ∉ names) :
    firstDuplicate names nodes = none := by
  induction nodes generalizing names with
  | nil => rfl
  | cons node nodes ih =>
    obtain ⟨own, distinct⟩ := List.nodup_cons.mp distinct
    rw [firstDuplicate, if_neg (fresh node (by simp))]
    refine ih distinct fun other member => ?_
    have differs : other.name ≠ node.name := fun same => own (same ▸ List.mem_map_of_mem member)
    simp [differs, fresh other (by simp [member])]

theorem init_drains (distinct : wf.nodeNames.Nodup) : wf.init.phase.Drains wf wf.init.done := by
  have unique : firstDuplicate [] wf.nodes = none := firstDuplicate_of_nodup distinct (by simp)
  rw [init]
  cases unknown : firstUnknown wf.nodeNames wf.nodes with
  | none =>
    simp only [definitionError, unique, unknown]
    refine ⟨⟨[], by simp, topological_nil _, ?_⟩, by simp [Phase.candidates]⟩
    simp [Phase.open, nameOf_finRange]
  | some pair =>
    simp only [definitionError, unique, unknown]
    refine ⟨rfl, fun sound => ?_⟩
    simp [(closed_iff distinct).mp sound.1] at unknown

theorem init_undisturbed (wf : Workflow) : Undisturbed wf.init := by
  rw [init]
  split <;> exact ⟨rfl, by simp⟩

theorem succeeding_run (distinct : wf.nodeNames.Nodup) {choices : List (Choice wf.size)}
    (succeeds : ∀ choice ∈ choices, choice.succeeds) {s : State wf.size}
    (ran : wf.runInner choices = some s) {result : Except WorkflowError Unit}
    (returned : s.phase = .returned result) :
    (result = .ok () ∧ Sound wf.graph) ∨
      ∃ error, result = .error error ∧ blamesGraph error ∧ ¬ Sound wf.graph := by
  have both := run_invariant (fun s => Undisturbed s ∧ s.phase.Drains wf s.done)
    (fun s choice s' member both stepped =>
      have transition := step_transition stepped
      ⟨undisturbed_transition both.1 (succeeds choice member) transition,
        drains_transition distinct both.1 (succeeds choice member) both.2 transition⟩)
    ⟨wf.init_undisturbed, init_drains distinct⟩ ran
  have drains := both.2
  rw [returned] at drains
  cases result with
  | ok => exact .inl ⟨rfl, drains⟩
  | error error => exact .inr ⟨error, rfl, drains⟩

end Firefly.Orchestration.Workflow
