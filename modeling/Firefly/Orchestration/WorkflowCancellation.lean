import Firefly.Orchestration.WorkflowProgress

set_option autoImplicit false

-- The token is looked at when a blocking node is about to start. A node that is past its check goes
-- on, and so does the wave it belongs to.

namespace Firefly.Orchestration

def WorkflowError.MentionsCancelled : WorkflowError → Prop
  | .cancelled => True
  | .multiple errors => .cancelled ∈ errors
  | _ => False

namespace Workflow

open Runs

variable {wf : Workflow}

def Admitted {n : Nat} (s : State n) (i : Fin n) : Prop :=
  ∃ members progress still, s.phase = .wave members progress still ∧ progress i = .admitted

def Unchecked {n : Nat} (s : State n) (i : Fin n) : Prop :=
  i ∈ s.phase.open ∧ ∀ members progress still, s.phase = .wave members progress still →
    i ∈ members → progress i = .waiting

def WaveFailed (wf : Workflow) (cut : State wf.size) (error : WorkflowError) : Prop :=
  ∃ members progress still errors, cut.phase = .wave members progress still ∧
    (∀ j ∈ members, progress j ≠ .waiting) ∧ errors ≠ [] ∧ error = .join errors ∧
    ∀ one ∈ errors, ∃ j ∈ members, ∃ source, one = .node (wf.nameOf j) source

def Verdict (wf : Workflow) (cut : State wf.size) (error : WorkflowError) : Prop :=
  error.MentionsCancelled ∨ error = .noProgress wf.name ∨ wf.WaveFailed cut error

def Choice.cancels {n : Nat} : Choice n → Bool
  | .cancelToken => true
  | _ => false

structure Stops (wf : Workflow) (cut s : State wf.size) : Prop where
  started : ∃ later, s.trace = cut.trace ++ later ∧ ∀ i, .bodyStarted i ∈ later → Admitted cut i
  refused : ∀ i, Unchecked cut i → (wf.nodeAt i).fireAndForget = false →
    ∀ result, s.phase = .returned result → ∃ error, result = .error error ∧ wf.Verdict cut error ∧
      Unwound wf.policy (wf.rollbackTarget s.trace) (undone s.trace) ∧
      ∀ j, j ∈ wf.rollbackTarget s.trace ↔
        j ∈ successes s.trace ∧ (wf.nodeAt j).compensatable ∧ (wf.nodeAt j).fireAndForget = false
  returns : ∃ more s' result, run wf.step s more = some s' ∧ s'.phase = .returned result
  bounded : ∃ bound, ∀ moves s', (∀ choice ∈ moves, choice.cancels = false) →
    run wf.step s moves = some s' → moves.length ≤ bound

def Progress.Shut (progress : Progress) : Prop :=
  progress = .waiting ∨ progress = .settled (.error .cancelled)

def OwnError (wf : Workflow) (i : Fin wf.size) (progress : Progress) : Prop :=
  ∀ error, progress = .settled (.error error) →
    error = .cancelled ∨ ∃ source, error = .node (wf.nameOf i) source

def OwnErrors (wf : Workflow) (s : State wf.size) : Prop :=
  ∀ members progress still, s.phase = .wave members progress still → ∀ i, wf.OwnError i (progress i)

theorem ownErrors_update {members still : List (Fin wf.size)} {progress : Fin wf.size → Progress}
    {s s' : State wf.size} (own : wf.OwnErrors s) (phase : s.phase = .wave members progress still)
    {i : Fin wf.size} {next : Progress} (mine : wf.OwnError i next)
    (phase' : s'.phase = .wave members (Function.update progress i next) still) :
    wf.OwnErrors s' := by
  intro members' progress' still' same j
  obtain ⟨-, rfl, -⟩ := Phase.wave.inj (phase'.symm.trans same)
  by_cases here : j = i
  · subst here
    simpa using mine
  · rw [Function.update_of_ne here]
    exact own members progress still phase j

theorem ownErrors_transition {s s' : State wf.size} {choice : Choice wf.size} (own : wf.OwnErrors s)
    (transition : Transition wf s choice s') : wf.OwnErrors s' := by
  cases transition with
  | launch blocking still phase =>
    intro members progress still' same i error settled
    obtain ⟨-, rfl, -⟩ := Phase.wave.inj same
    cases settled
  | refuse holds i members still progress phase =>
    refine ownErrors_update own phase (fun error same => .inl ?_) rfl
    simpa using same.symm
  | fail i source members still progress phase =>
    refine ownErrors_update own phase (fun error same => .inr ⟨source, ?_⟩) rfl
    simpa using same.symm
  | enter holds i members still progress phase | skip holds i members still progress phase
  | start i members still progress phase | finish i result members still progress phase
  | complete i members still progress phase =>
    exact ownErrors_update own phase (fun error same => by simp at same) rfl
  | rolledBack result failure joins | giveUp err i name rest failure joins =>
    intro members progress still same
    cases joins <;> simp [State.goto, State.record] at same
  | endTask | cancelToken => exact own
  | _ =>
    intro members progress still same
    simp [State.goto, State.record, rollback] at same

def Refuses (wf : Workflow) (cut : State wf.size) (members : List (Fin wf.size))
    (progress : Fin wf.size → Progress) (still : List (Fin wf.size)) : Prop :=
  (∀ j ∈ members, (progress j).Shut) ∨
    ∃ before, cut.phase = .wave members before still ∧
      (∀ j ∈ members, before j = .waiting → (progress j).Shut) ∧ ∀ j, wf.OwnError j (progress j)

theorem Refuses.update {cut : State wf.size} {members still : List (Fin wf.size)}
    {progress : Fin wf.size → Progress} (refuses : wf.Refuses cut members progress still)
    {i : Fin wf.size} {next : Progress} (keeps : (progress i).Shut → next.Shut)
    (own : wf.OwnError i next) : wf.Refuses cut members (Function.update progress i next) still := by
  have kept : ∀ j, (progress j).Shut → (Function.update progress i next j).Shut := by
    intro j shut
    by_cases here : j = i
    · subst here
      simpa using keeps shut
    · rwa [Function.update_of_ne here]
  refine refuses.imp (fun fresh j member => kept j (fresh j member)) ?_
  rintro ⟨before, phase, waiting, owned⟩
  refine ⟨before, phase, fun j member idle => kept j (waiting j member idle), fun j => ?_⟩
  by_cases here : j = i
  · subst here
    simpa using own
  · rw [Function.update_of_ne here]
    exact owned j

theorem mentionsCancelled_join {errors : List WorkflowError} (listed : .cancelled ∈ errors) :
    (WorkflowError.join errors).MentionsCancelled := by
  match errors with
  | [] => simp at listed
  | [error] =>
    obtain rfl := List.mem_singleton.mp listed
    trivial
  | first :: second :: rest => exact listed

theorem Refuses.verdict {cut : State wf.size} {members still : List (Fin wf.size)}
    {progress : Fin wf.size → Progress} (refuses : wf.Refuses cut members progress still)
    (settled : ∀ j ∈ members, (progress j).isSettled)
    (failed : (members.filterMap fun j => (progress j).error?) ≠ []) :
    wf.Verdict cut (.join (members.filterMap fun j => (progress j).error?)) := by
  have refused : ∀ j ∈ members, (progress j).Shut →
      .cancelled ∈ members.filterMap fun j => (progress j).error? := by
    rintro j member (waiting | cancelled)
    · have done := settled j member
      simp [waiting, Progress.isSettled] at done
    · exact List.mem_filterMap.mpr ⟨j, member, by rw [cancelled]; rfl⟩
  rcases refuses with fresh | ⟨before, phase, waiting, own⟩
  · obtain ⟨j, member⟩ : ∃ j, j ∈ members := by
      refine List.exists_mem_of_ne_nil members fun empty => failed ?_
      rw [empty, List.filterMap_nil]
    exact .inl (mentionsCancelled_join (refused j member (fresh j member)))
  · by_cases some : .cancelled ∈ members.filterMap fun j => (progress j).error?
    · exact .inl (mentionsCancelled_join some)
    · refine .inr (.inr ⟨members, before, still, _, phase, fun j member idle => ?_, failed, rfl, ?_⟩)
      · exact some (refused j member (waiting j member idle))
      · intro one listed
        obtain ⟨j, member, error⟩ := List.mem_filterMap.mp listed
        have mine : progress j = .settled (.error one) := by
          cases state : progress j with
          | settled result =>
            cases result <;> simp_all [Progress.error?]
          | _ => simp [state, Progress.error?] at error
        rcases own j one mine with rfl | node
        · exact absurd listed some
        · exact ⟨j, member, node⟩

def Phase.Fate (wf : Workflow) (cut : State wf.size) (i : Fin wf.size) : Phase wf.size → Prop
  | .head pending => i ∈ pending
  | .scheduling ready blocking still => i ∈ ready ++ blocking ++ still
  | .wave members progress still =>
    i ∈ members ++ still ∧ wf.Refuses cut members progress still ∧ (i ∈ members → (progress i).Shut)
  | .compensating _ failure _ => wf.Verdict cut failure
  | .joining result | .returned result => ∃ error, result = .error error ∧ wf.Verdict cut error

theorem fate_update {s s' : State wf.size} {cut : State wf.size} {i j : Fin wf.size}
    {members still : List (Fin wf.size)} {progress : Fin wf.size → Progress}
    (fate : s.phase.Fate wf cut i) (phase : s.phase = .wave members progress still) {next : Progress}
    (keeps : (progress j).Shut → next.Shut) (own : wf.OwnError j next)
    (phase' : s'.phase = .wave members (Function.update progress j next) still) :
    s'.phase.Fate wf cut i := by
  rw [phase] at fate
  obtain ⟨listed, refuses, shut⟩ := fate
  rw [phase']
  refine ⟨listed, refuses.update keeps own, fun member => ?_⟩
  by_cases here : i = j
  · subst here
    simpa using keeps (shut member)
  · rw [Function.update_of_ne here]
    exact shut member

theorem fate_transition {cut s s' : State wf.size} {choice : Choice wf.size} {i : Fin wf.size}
    (blocking : (wf.nodeAt i).fireAndForget = false) (token : s.token = true)
    (fate : s.phase.Fate wf cut i) (transition : Transition wf s choice s') :
    s'.phase.Fate wf cut i := by
  cases transition with
  | drained phase =>
    rw [phase] at fate
    exact absurd fate (by simp [Phase.Fate])
  | stuck pending phase => exact .inr (.inl rfl)
  | advance pending phase some =>
    rw [phase] at fate
    have listed : i ∈ pending := fate
    by_cases ready : wf.isReady s.done i <;> simp [State.goto, Phase.Fate, listed, ready]
  | spawn holds j ready blocked still phase async | skipAsync holds j ready blocked still phase async =>
    rw [phase] at fate
    have other : i ≠ j := by
      rintro rfl
      simp [async] at blocking
    simpa [State.goto, State.record, Phase.Fate, other] using fate
  | block holds j ready blocked still phase sync =>
    rw [phase] at fate
    simp only [Phase.Fate, State.goto, List.mem_append, List.mem_cons, List.not_mem_nil,
      or_false] at fate ⊢
    tauto
  | launch members still phase =>
    rw [phase] at fate
    exact ⟨fate, .inl fun j _ => .inl rfl, fun _ => .inl rfl⟩
  | refuse holds j members still progress phase =>
    exact fate_update fate phase (fun _ => .inr rfl) (fun error same => .inl (by simpa using same.symm)) rfl
  | enter holds j members still progress phase member waiting live
  | skip holds j members still progress phase member waiting live =>
    simp [token] at live
  | start j members still progress phase state | finish j result members still progress phase state
  | complete j members still progress phase state =>
    refine fate_update fate phase (fun shut => ?_) (fun error same => by simp at same) rfl
    rcases shut with waiting | cancelled <;> simp_all
  | fail j source members still progress phase state =>
    refine fate_update fate phase (fun shut => ?_) (fun error same => .inr ⟨source, ?_⟩) rfl
    · rcases shut with waiting | cancelled <;> simp_all
    · simpa using same.symm
  | nextWave members still progress phase succeeded =>
    rw [phase] at fate
    obtain ⟨listed, -, shut⟩ := fate
    refine (List.mem_append.mp listed).resolve_left fun member => ?_
    have ok := succeeded i member
    rcases shut member with waiting | cancelled <;> simp_all [Progress.succeeded]
  | abort members still progress errors phase settled failed some =>
    rw [phase] at fate
    subst failed
    exact fate.2.1.verdict settled some
  | rolledBack result failure joins phase | giveUp err j name rest failure joins phase =>
    rw [phase] at fate
    cases joins <;> exact ⟨failure, rfl, fate⟩
  | passOver result name rest failure joins phase | undo result j name rest failure joins phase =>
    rw [phase] at fate
    exact fate
  | join result phase =>
    rw [phase] at fate
    exact fate
  | endTask | cancelToken => exact fate

structure Barred {n : Nat} (cut s : State n) : Prop where
  token : s.token = true
  admitted : ∀ i, Admitted s i → Admitted cut i
  started : ∃ later, s.trace = cut.trace ++ later ∧ ∀ i, .bodyStarted i ∈ later → Admitted cut i

theorem Barred.record {n : Nat} {cut s s' : State n} {event : Event n} (barred : Barred cut s)
    (token : s'.token = s.token) (trace : s'.trace = s.trace ++ [event])
    (admitted : ∀ i, Admitted s' i → Admitted s i)
    (start : ∀ i, event = .bodyStarted i → Admitted s i) : Barred cut s' := by
  obtain ⟨later, shape, started⟩ := barred.started
  refine ⟨token ▸ barred.token, fun i admitted' => barred.admitted i (admitted i admitted'),
    later ++ [event], by rw [trace, shape, List.append_assoc], ?_⟩
  intro i listed
  rcases List.mem_append.mp listed with before | now
  · exact started i before
  · exact barred.admitted i (start i (List.mem_singleton.mp now).symm)

theorem Barred.rephase {n : Nat} {cut s s' : State n} (barred : Barred cut s)
    (token : s'.token = s.token) (trace : s'.trace = s.trace)
    (admitted : ∀ i, Admitted s' i → Admitted s i) : Barred cut s' :=
  ⟨token ▸ barred.token, fun i admitted' => barred.admitted i (admitted i admitted'),
    trace ▸ barred.started⟩

theorem admitted_update {n : Nat} {s s' : State n} {members still : List (Fin n)}
    {progress : Fin n → Progress} {j : Fin n} {next : Progress}
    (phase : s.phase = .wave members progress still) (moved : next ≠ .admitted)
    (phase' : s'.phase = .wave members (Function.update progress j next) still) (i : Fin n)
    (admitted : Admitted s' i) : Admitted s i := by
  obtain ⟨members', progress', still', same, state⟩ := admitted
  obtain ⟨-, rfl, -⟩ := Phase.wave.inj (phase'.symm.trans same)
  refine ⟨members, progress, still, phase, ?_⟩
  by_cases here : i = j
  · subst here
    exact absurd (by simpa using state) moved
  · rwa [Function.update_of_ne here] at state

theorem barred_transition {cut s s' : State wf.size} {choice : Choice wf.size}
    (barred : Barred cut s) (transition : Transition wf s choice s') : Barred cut s' := by
  cases transition with
  | launch members still phase =>
    refine barred.rephase rfl rfl fun i admitted => ?_
    obtain ⟨members', progress', still', same, state⟩ := admitted
    obtain ⟨-, rfl, -⟩ := Phase.wave.inj same
    cases state
  | refuse holds j members still progress phase =>
    exact barred.rephase rfl rfl (admitted_update phase (by simp) rfl)
  | enter holds j members still progress phase member waiting live
  | skip holds j members still progress phase member waiting live =>
    simp [barred.token] at live
  | start j members still progress phase state =>
    refine barred.record rfl rfl (admitted_update phase (by simp) rfl) fun i same => ?_
    obtain rfl := Event.bodyStarted.inj same
    exact ⟨members, progress, still, phase, state⟩
  | finish j result members still progress phase | complete j members still progress phase
  | fail j source members still progress phase =>
    exact barred.record rfl rfl (admitted_update phase (by simp) rfl) (by simp)
  | rolledBack result failure joins =>
    refine barred.rephase rfl rfl ?_
    cases joins <;> simp [Admitted, State.goto]
  | giveUp err j name rest failure joins =>
    refine barred.record rfl rfl ?_ (by simp)
    cases joins <;> simp [Admitted, State.goto, State.record]
  | spawn | skipAsync | undo =>
    exact barred.record rfl rfl (by simp [Admitted, State.goto, State.record]) (by simp)
  | endTask => exact barred.record rfl rfl (fun _ admitted => admitted) (by simp)
  | cancelToken =>
    exact barred.record barred.token.symm rfl (fun _ admitted => admitted) (by simp)
  | _ => exact barred.rephase rfl rfl (by simp [Admitted, State.goto, rollback])

theorem lighter_transition {s s' : State wf.size} {choice : Choice wf.size} (journeys : wf.Journeys s)
    (moves : choice.cancels = false) (transition : Transition wf s choice s') :
    s'.weight < s.weight := by
  -- a member of a wave moves to a lighter stage
  have moved : ∀ {members still : List (Fin wf.size)} {progress : Fin wf.size → Progress}
      {i : Fin wf.size} {next : Progress}, s.phase = .wave members progress still →
      s'.phase = .wave members (Function.update progress i next) still → i ∈ members →
      next.weight < (progress i).weight → s'.tasks = s.tasks →
      s'.completedOrder.length ≤ s.completedOrder.length + 1 → s'.weight < s.weight :=
    fun phase phase' member => lighter_member phase phase' member
  cases transition with
  | drained phase | stuck pending phase | skipAsync holds i ready blocking still phase
  | nextWave members still progress phase | passOver result name rest failure joins phase
  | undo result i name rest failure joins phase | join result phase =>
    simp [State.weight, State.goto, State.record, rollback, phase, Phase.weight]
  | spawn holds i ready blocking still phase | block holds i ready blocking still phase
  | launch blocking still phase | abort members still progress errors phase =>
    simp [State.weight, State.goto, State.record, rollback, phase, Phase.weight, Progress.weight]
    omega
  | advance pending phase some =>
    have split := (List.filter_append_perm (wf.isReady s.done) pending).length_eq
    obtain ⟨i, listed, ready⟩ := some
    have one : 0 < (pending.filter (wf.isReady s.done)).length :=
      List.length_pos_of_mem (List.mem_filter.mpr ⟨listed, ready⟩)
    simp only [List.length_append] at split
    simp only [State.weight, State.goto, phase, Phase.weight, List.length_nil]
    omega
  | refuse holds i members still progress phase member waiting
  | enter holds i members still progress phase member waiting
  | skip holds i members still progress phase member waiting =>
    exact moved phase rfl member (by simp [waiting, Progress.weight]) rfl
      (by simp [State.goto, State.record])
  | start i members still progress phase state | finish i result members still progress phase state
  | fail i source members still progress phase state =>
    exact moved phase rfl (journeys.member phase i (by simp [state]))
      (by simp [state, Progress.weight]) rfl (by simp [State.goto, State.record])
  | complete i members still progress phase state =>
    refine moved phase rfl (journeys.member phase i (by simp [state]))
      (by simp [state, Progress.weight]) rfl ?_
    simp only [State.goto, State.record, List.length_append]
    split <;> simp
  | rolledBack result failure joins phase | giveUp err i name rest failure joins phase =>
    cases joins <;> simp [State.weight, State.goto, State.record, phase, Phase.weight]
  | endTask i task =>
    have some := List.length_pos_of_mem task
    simp only [State.weight, State.record, List.length_erase_of_mem task]
    omega
  | cancelToken => cases moves

theorem init_ownErrors (wf : Workflow) : wf.OwnErrors wf.init := by
  rw [init]
  split <;> simp [OwnErrors]

theorem fate_cut {cut : State wf.size} {i : Fin wf.size} (own : wf.OwnErrors cut)
    (unchecked : Unchecked cut i) : cut.phase.Fate wf cut i := by
  obtain ⟨listed, waiting⟩ := unchecked
  cases phase : cut.phase with
  | head pending | scheduling ready blocking still =>
    rw [phase] at listed
    exact listed
  | wave members progress still =>
    rw [phase] at listed
    refine ⟨listed, .inr ⟨progress, phase, fun _ _ idle => .inl idle, own members progress still phase⟩, ?_⟩
    exact fun member => .inl (waiting members progress still phase member)
  | compensating | joining | returned => simp [phase, Phase.open] at listed

theorem cancellation_stops (wf : Workflow) (earlier later : List (Choice wf.size))
    (cut s : State wf.size) (reached : wf.runInner earlier = some cut)
    (ran : run wf.step cut (.cancelToken :: later) = some s) : wf.Stops cut s := by
  have whole : wf.runInner (earlier ++ .cancelToken :: later) = some s := by
    rw [runInner, run_append, show run wf.step wf.init earlier = some cut from reached]
    exact ran
  have own : wf.OwnErrors cut := run_invariant wf.OwnErrors
    (fun _ _ _ _ own stepped => ownErrors_transition own (step_transition stepped))
    wf.init_ownErrors reached
  rw [run_cons] at ran
  obtain ⟨start, cancelled, ran⟩ := Option.bind_eq_some_iff.mp ran
  obtain rfl := Option.some.inj cancelled
  have barred : Barred cut ({ cut with token := true }.record .tokenCancelled) :=
    ⟨rfl, fun _ admitted => admitted, [.tokenCancelled], rfl, by simp⟩
  refine ⟨?_, ?_, exists_return s |>.imp fun more found => ?_, s.weight, ?_⟩
  · exact (run_invariant (Barred cut) (fun _ _ _ _ barred stepped =>
      barred_transition barred (step_transition stepped)) barred ran).started
  · intro i unchecked blocking result returned
    have kept := run_invariant (fun s => Barred cut s ∧ s.phase.Fate wf cut i)
      (fun _ _ _ _ kept stepped =>
        have transition := step_transition stepped
        ⟨barred_transition kept.1 transition,
          fate_transition blocking kept.1.token kept.2 transition⟩)
      ⟨barred, fate_cut own unchecked⟩ ran
    have fate := kept.2
    rw [returned] at fate
    obtain ⟨error, rfl, verdict⟩ := fate
    obtain ⟨unwound, -, target⟩ := (runInner_contract wf _ s whole).rolledBack error returned
    exact ⟨error, rfl, verdict, unwound, target⟩
  · obtain ⟨s', result, -, ran', returned⟩ := found
    exact ⟨s', result, ran', returned⟩
  · intro moves s' own ran'
    refine Along.length_le wf.Journeys State.weight ?_ (runInner_journeys whole)
      (along_of_forall (P := fun _ choice => choice.cancels = false) (fun choice member _ => own choice member) s) ran'
    exact fun _ _ _ moves journeys stepped => ⟨journeys_transition journeys (step_transition stepped),
      lighter_transition journeys moves (step_transition stepped)⟩

theorem pipeline_cancelled : ∃ cut s, pipeline.runInner (pipelineSchedule.take 14) = some cut ∧
    run pipeline.step cut [.cancelToken, .schedule true, .launch, .poll ⟨2, by decide⟩ true, .gather] =
      some s ∧ pipeline.Stops cut s := by
  have computed : ((pipeline.runInner (pipelineSchedule.take 14)).bind fun cut => run pipeline.step cut
      [.cancelToken, .schedule true, .launch, .poll ⟨2, by decide⟩ true, .gather]).isSome := by
    decide
  obtain ⟨s, both⟩ := Option.isSome_iff_exists.mp computed
  obtain ⟨cut, reached, ran⟩ := Option.bind_eq_some_iff.mp both
  exact ⟨cut, s, reached, ran, cancellation_stops pipeline _ _ cut s reached ran⟩

def CancelsOutright (wf : Workflow) : Prop :=
  ∀ earlier later cut s, wf.runInner earlier = some cut →
    run wf.step cut (.cancelToken :: later) = some s →
    (∃ after, s.trace = cut.trace ++ after ∧ ∀ i, .bodyStarted i ∉ after ∧ .spawned i ∉ after) ∧
      ∀ i, .completed i ∉ cut.trace → .skipped i ∉ cut.trace → .taskEnded i ∉ cut.trace →
        ∀ result, s.phase = .returned result →
          ∃ error, result = .error error ∧ error.MentionsCancelled

def Phase.succeeded {n : Nat} : Phase n → Bool
  | .returned (.ok ()) => true
  | _ => false

theorem succeeded_iff {n : Nat} {phase : Phase n} : phase.succeeded ↔ phase = .returned (.ok ()) := by
  rcases phase with _ | _ | _ | _ | _ | ⟨_ | _⟩ <;> simp [Phase.succeeded]

def lastNode : Workflow where
  name := "dispatch"
  nodes := [{ name := "ship" }]

theorem lastNode_completes : ¬ lastNode.CancelsOutright := by
  intro outright
  have computed : ((lastNode.runInner [.checkPending, .schedule true, .launch,
      .poll ⟨0, by decide⟩ true, .start ⟨0, by decide⟩]).bind fun cut =>
        (run lastNode.step cut [.cancelToken, .finish ⟨0, by decide⟩ (.ok ()), .settle ⟨0, by decide⟩,
          .gather, .checkPending, .joinAsync]).map fun s => (cut.trace, s.phase.succeeded)) =
      some ([.bodyStarted ⟨0, by decide⟩], true) := by
    decide
  obtain ⟨cut, reached, rest⟩ := Option.bind_eq_some_iff.mp computed
  obtain ⟨s, ran, both⟩ := Option.map_eq_some_iff.mp rest
  obtain ⟨trace, succeeded⟩ := Prod.mk.inj both
  have returned := succeeded_iff.mp succeeded
  obtain ⟨error, failed, -⟩ := (outright _ _ cut s reached ran).2 ⟨0, by decide⟩ (by simp [trace])
    (by simp [trace]) (by simp [trace]) _ returned
  cases failed

end Workflow

end Firefly.Orchestration
