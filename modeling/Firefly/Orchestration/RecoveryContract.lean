import Firefly.Orchestration.Recovery

set_option autoImplicit false

namespace Firefly.Orchestration.Recovery

open Runs

namespace Phase

def cutoff : Phase → Option Int
  | begun cutoff | looping cutoff _ _ _ => some cutoff
  | _ => none

def recovered : Phase → Nat
  | looping _ _ recovered _ | finished recovered => recovered
  | _ => 0

def owner : Phase → Option (ExecutionState Int)
  | looping _ _ _ (.claimed _ state) | looping _ _ _ (.running _ state) => some state
  | _ => none

def pending : Phase → Option String
  | looping _ _ _ (.claimed _ state) | looping _ _ _ (.running _ state)
  | looping _ _ _ (.returned _ state _) => some state.correlationId
  | _ => none

end Phase

inductive Transition (recovery : Recovery) (s : State) : Choice → State → Prop where
  | tick (elapsed : Nat) : Transition recovery s (.tick elapsed) { s with now := s.now + elapsed }
  | began (pass : Nat) (idle : s.passes pass = .idle) :
      Transition recovery s (.begin pass) (s.setPass pass (.begun (s.now - recovery.staleThreshold)))
  | quiet (choice : Choice) (pass : Nat) (phase : Phase)
      (cutoff : ∀ cutoff, phase.cutoff = some cutoff → (s.passes pass).cutoff = some cutoff)
      (owner : ∀ state, phase.owner = some state → (s.passes pass).owner = some state)
      (pending : phase.pending = (s.passes pass).pending)
      (recovered : phase.recovered = (s.passes pass).recovered) :
      Transition recovery s choice (s.setPass pass phase)
  | failed (choice : Choice) (pass : Nat) (cutoff : Int) (candidates rest : List (ExecutionState Int))
      (recovered : Nat) (row : ExecutionState Int)
      (phase : s.passes pass = .looping cutoff candidates recovered .scanning)
      (found : s.memory.store[row.correlationId]? = some row)
      (stale : MemoryPersistence.stale cutoff row) :
      Transition recovery s choice ({ s with
        memory := s.memory.save (row.transition s.now .failed)
        claims := s.claims ++ [(pass, row.correlationId)]
        counted := s.counted ++ [(pass, row.correlationId)] }.setPass pass
          (.looping cutoff rest (recovered + 1) .scanning))
  | won (choice : Choice) (pass : Nat) (cutoff : Int) (candidates rest : List (ExecutionState Int))
      (recovered : Nat) (row : ExecutionState Int) (handler : RecoveryHandler)
      (phase : s.passes pass = .looping cutoff candidates recovered .scanning)
      (found : s.memory.store[row.correlationId]? = some row)
      (stale : MemoryPersistence.stale cutoff row) :
      Transition recovery s choice ({ s with
        memory := s.memory.save (row.transition s.now handler.claimStatus)
        claims := s.claims ++ [(pass, row.correlationId)] }.setPass pass
          (.looping cutoff rest recovered
            (.claimed handler (row.transition s.now handler.claimStatus))))
  | saved (choice : Choice) (pass : Nat) (cutoff : Int) (candidates : List (ExecutionState Int))
      (recovered : Nat) (handler : RecoveryHandler) (state : ExecutionState Int)
      (outcome : Except BoxError Unit)
      (phase : s.passes pass = .looping cutoff candidates recovered (.returned handler state outcome)) :
      Transition recovery s choice ({ s with
        memory := s.memory.save (state.transition s.now (handler.status outcome))
        counted := s.counted ++ [(pass, state.correlationId)] }.setPass pass
          (.looping cutoff candidates (recovered + 1) .scanning))

variable {recovery : Recovery} {s s' : State} {choice : Choice}

theorem claim_cases (s : State) (pass : Nat) (cutoff : Int) (candidate : ExecutionState Int)
    (status : ExecutionStatus) :
    (∃ row, s.memory.store[row.correlationId]? = some row ∧ MemoryPersistence.stale cutoff row ∧
      claim s pass cutoff candidate status = (some (row.transition s.now status), { s with
        memory := s.memory.save (row.transition s.now status)
        claims := s.claims ++ [(pass, row.correlationId)] })) ∨
    claim s pass cutoff candidate status = (none, s) := by
  rcases s.memory.claimStale_cases candidate.correlationId cutoff status s.now with
    ⟨row, found, stale, claimed⟩ | ⟨lost, -⟩
  · refine .inl ⟨row, ?_, stale, ?_⟩
    · rw [s.memory.keyed _ _ found, found]
    · simp [claim, claimed]
  · right
    simp [claim, lost]

theorem claim_transition {pass : Nat} {cutoff : Int} {candidate : ExecutionState Int}
    {rest : List (ExecutionState Int)} {recovered : Nat} (handler : RecoveryHandler)
    (phase : s.passes pass = .looping cutoff (candidate :: rest) recovered .scanning)
    (passOver : Transition recovery s choice (s.setPass pass (.looping cutoff rest recovered .scanning))) :
    Transition recovery s choice
      (match claim s pass cutoff candidate handler.claimStatus with
        | (none, s) => s.setPass pass (.looping cutoff rest recovered .scanning)
        | (some state, s) => s.setPass pass (.looping cutoff rest recovered (.claimed handler state))) := by
  rcases claim_cases s pass cutoff candidate handler.claimStatus with ⟨row, found, stale, claimed⟩ | lost
  · rw [claimed]
    exact .won _ _ _ _ _ _ _ _ phase found stale
  · rw [lost]
    exact passOver

theorem next_transition {pass : Nat} {cutoff : Int} {candidates : List (ExecutionState Int)}
    {recovered : Nat} (phase : s.passes pass = .looping cutoff candidates recovered .scanning) :
    Transition recovery s choice (recovery.next s pass cutoff candidates recovered) := by
  cases candidates with
  | nil =>
    exact .quiet _ pass (.finished recovered) (by simp [Phase.cutoff]) (by simp [Phase.owner])
      (by simp [Phase.pending, phase]) (by simp [Phase.recovered, phase])
  | cons candidate rest =>
    have passOver : Transition recovery s choice
        (s.setPass pass (.looping cutoff rest recovered .scanning)) :=
      .quiet _ _ _ (by simp [Phase.cutoff, phase]) (by simp [Phase.owner])
        (by simp [Phase.pending, phase]) (by simp [Phase.recovered, phase])
    rw [next]
    cases (recovery.services pass).decide candidate with
    | skip => exact passOver
    | resume => exact claim_transition .resume phase passOver
    | compensate => exact claim_transition .compensate phase passOver
    | markFailed =>
      rcases claim_cases s pass cutoff candidate .failed with ⟨row, found, stale, claimed⟩ | lost
      · simp only [claimed]
        exact .failed _ _ _ _ _ _ _ phase found stale
      · simp only [lost]
        exact passOver

theorem step_transition (stepped : recovery.step s choice = some s') :
    Transition recovery s choice s' := by
  cases choice with
  | tick elapsed =>
    obtain rfl : _ = s' := by simpa [step] using stepped
    exact .tick elapsed
  | begin pass =>
    simp only [step] at stepped
    split at stepped
    · rename_i idle
      obtain rfl := Option.some.inj stepped
      exact .began pass idle
    · simp at stepped
  | list pass scan =>
    simp only [step] at stepped
    split at stepped
    · rename_i cutoff phase
      obtain rfl := Option.some.inj stepped
      exact .quiet _ _ _ (by simp [Phase.cutoff, phase]) (by simp [Phase.owner])
        (by simp [Phase.pending, phase]) (by simp [Phase.recovered, phase])
    · simp at stepped
  | next pass =>
    simp only [step] at stepped
    split at stepped
    · rename_i phase
      obtain rfl := Option.some.inj stepped
      exact next_transition phase
    · simp at stepped
  | start pass =>
    simp only [step] at stepped
    split at stepped
    · rename_i phase
      obtain rfl := Option.some.inj stepped
      split
      · exact .quiet _ _ _ (by simp [Phase.cutoff, phase]) (by simp [Phase.owner, phase])
          (by simp [Phase.pending, phase]) (by simp [Phase.recovered, phase])
      · exact .quiet _ _ _ (by simp [Phase.cutoff, phase]) (by simp [Phase.owner])
          (by simp [Phase.pending, phase]) (by simp [Phase.recovered, phase])
    · simp at stepped
  | finish pass outcome =>
    simp only [step] at stepped
    split at stepped
    · rename_i phase
      obtain rfl := Option.some.inj stepped
      exact .quiet _ _ _ (by simp [Phase.cutoff, phase]) (by simp [Phase.owner])
        (by simp [Phase.pending, phase]) (by simp [Phase.recovered, phase])
    · simp at stepped
  | save pass =>
    simp only [step] at stepped
    split at stepped
    · rename_i phase
      obtain rfl := Option.some.inj stepped
      exact .saved _ _ _ _ _ _ _ _ phase
    · simp at stepped

@[simp] theorem setPass_passes (s : State) (pass other : Nat) (phase : Phase) :
    (s.setPass pass phase).passes other = if other = pass then phase else s.passes other := by
  simp [State.setPass, Function.update_apply]

@[simp] theorem setPass_now (s : State) (pass : Nat) (phase : Phase) :
    (s.setPass pass phase).now = s.now := rfl

@[simp] theorem setPass_memory (s : State) (pass : Nat) (phase : Phase) :
    (s.setPass pass phase).memory = s.memory := rfl

@[simp] theorem setPass_claims (s : State) (pass : Nat) (phase : Phase) :
    (s.setPass pass phase).claims = s.claims := rfl

@[simp] theorem setPass_counted (s : State) (pass : Nat) (phase : Phase) :
    (s.setPass pass phase).counted = s.counted := rfl

structure Tally (s : State) : Prop where
  claims : ∀ pass execution, s.claims.count (pass, execution) =
    s.counted.count (pass, execution) + (s.passes pass).pending.toList.count execution
  recovered : ∀ pass,
    (s.passes pass).recovered = (s.counted.filter fun entry => entry.1 = pass).length

theorem count_tagged (pass other : Nat) (executions : List String) (execution : String) :
    (executions.map (Prod.mk pass)).count (other, execution) =
      if other = pass then executions.count execution else 0 := by
  split
  · rename_i same
    subst same
    exact List.count_map_of_injective _ _ (fun _ _ same => (Prod.mk.inj same).2) _
  · rename_i differs
    refine List.count_eq_zero.mpr fun member => ?_
    obtain ⟨_, _, same⟩ := List.mem_map.mp member
    exact differs (Prod.mk.inj same).1.symm

theorem Tally.move (tally : Tally s) {pass : Nat} {phase : Phase} (claimed counted : List String)
    (passes : ∀ other, s'.passes other = if other = pass then phase else s.passes other)
    (claims : s'.claims = s.claims ++ claimed.map (Prod.mk pass))
    (counts : s'.counted = s.counted ++ counted.map (Prod.mk pass))
    (pending : (claimed ++ (s.passes pass).pending.toList).Perm (counted ++ phase.pending.toList))
    (recovered : phase.recovered = (s.passes pass).recovered + counted.length) : Tally s' := by
  refine ⟨fun other execution => ?_, fun other => ?_⟩
  · have before := tally.claims other execution
    have balance := pending.count_eq execution
    rw [claims, counts, passes, List.count_append, List.count_append, count_tagged, count_tagged]
    simp only [List.count_append] at balance
    by_cases same : other = pass
    · subst same
      simp only [if_true]
      omega
    · simpa only [same, if_false, Nat.add_zero] using before
  · rw [counts, passes, List.filter_append, List.length_append, ← tally.recovered]
    by_cases same : other = pass
    · subst same
      simp [recovered, List.filter_map, Function.comp_def]
    · simp [same, Ne.symm same, List.filter_map, Function.comp_def]

theorem Transition.tally (moves : Transition recovery s choice s') (tally : Tally s) : Tally s' := by
  cases moves with
  | tick elapsed => exact ⟨tally.claims, tally.recovered⟩
  | began pass idle =>
    exact tally.move [] [] (setPass_passes _ _ · _) (by simp) (by simp)
      (by simp [idle, Phase.pending]) (by simp [idle, Phase.recovered])
  | quiet _ pass phase _ _ pending recovered =>
    exact tally.move [] [] (setPass_passes _ _ · _) (by simp) (by simp) (by simp [pending])
      (by simp [recovered])
  | failed _ pass cutoff candidates rest recovered row phase =>
    exact tally.move [row.correlationId] [row.correlationId] (setPass_passes _ _ · _) rfl rfl
      (by simp [phase, Phase.pending]) (by simp [phase, Phase.recovered])
  | won _ pass cutoff candidates rest recovered row handler phase =>
    exact tally.move [row.correlationId] [] (setPass_passes _ _ · _) rfl (by simp)
      (by simp [phase, Phase.pending]) (by simp [phase, Phase.recovered])
  | saved _ pass cutoff candidates recovered handler state outcome phase =>
    exact tally.move [] [state.correlationId] (setPass_passes _ _ · _) (by simp) rfl
      (by simp [phase, Phase.pending]) (by simp [phase, Phase.recovered])

theorem Tally.countsClaims (tally : Tally s) : CountsClaims s := by
  intro execution
  have inside : s.counted.Subperm s.claims := by
    rw [List.subperm_ext_iff]
    rintro ⟨pass, execution⟩ _
    have counted := tally.claims pass execution
    omega
  exact (inside.filter _).length_le

theorem Tally.countsTrue (tally : Tally s) : CountsTrue s := by
  intro pass
  have matches_phase : s.recovered pass = (s.passes pass).recovered := rfl
  exact matches_phase.trans (tally.recovered pass)

/-- No pass takes its cutoff while a claim older than the threshold still has its handler to run or
to finish. -/
def Timely (recovery : Recovery) (s : State) : Choice → Prop
  | .begin _ => ∀ pass state, (s.passes pass).owner = some state →
    s.now ≤ state.updatedAt + recovery.staleThreshold
  | _ => True

structure Owned (s : State) : Prop where
  past : ∀ pass cutoff, (s.passes pass).cutoff = some cutoff → cutoff ≤ s.now
  guarded : ∀ pass state, (s.passes pass).owner = some state → ∀ other cutoff,
    (s.passes other).cutoff = some cutoff → cutoff ≤ state.updatedAt
  row : ∀ pass state, (s.passes pass).owner = some state →
    ∃ row, s.memory.store[state.correlationId]? = some row ∧
      (row.isTerminal ∨ state.updatedAt ≤ row.updatedAt)
  alone : ∀ first second a b, (s.passes first).owner = some a → (s.passes second).owner = some b →
    a.correlationId = b.correlationId → first = second

theorem Owned.quiet (owned : Owned s) {pass : Nat} {phase : Phase}
    (cutoff : ∀ cutoff, phase.cutoff = some cutoff → (s.passes pass).cutoff = some cutoff)
    (owner : ∀ state, phase.owner = some state → (s.passes pass).owner = some state) :
    Owned (s.setPass pass phase) := by
  have cutoffs : ∀ other cutoff, ((s.setPass pass phase).passes other).cutoff = some cutoff →
      (s.passes other).cutoff = some cutoff := by
    intro other value
    by_cases same : other = pass
    · subst same
      simpa using cutoff value
    · simp [same]
  have owners : ∀ other state, ((s.setPass pass phase).passes other).owner = some state →
      (s.passes other).owner = some state := by
    intro other state
    by_cases same : other = pass
    · subst same
      simpa using owner state
    · simp [same]
  exact ⟨fun other value has => owned.past other value (cutoffs _ _ has),
    fun other state owns third value has =>
      owned.guarded other state (owners _ _ owns) third value (cutoffs _ _ has),
    fun other state owns => owned.row other state (owners _ _ owns),
    fun first second a b ownsFirst ownsSecond same =>
      owned.alone first second a b (owners _ _ ownsFirst) (owners _ _ ownsSecond) same⟩

theorem Owned.saveTerminal (owned : Owned s) {state : ExecutionState Int} (terminal : state.isTerminal)
    (claims counted : List (Nat × String)) :
    Owned { s with memory := s.memory.save state, claims := claims, counted := counted } := by
  refine ⟨owned.past, owned.guarded, fun pass other owns => ?_, owned.alone⟩
  obtain ⟨row, found, late⟩ := owned.row pass other owns
  by_cases same : state.correlationId = other.correlationId
  · exact ⟨state, by simp [MemoryPersistence.save, same], .inl terminal⟩
  · exact ⟨row, by simp [MemoryPersistence.save, Std.TreeMap.getElem?_insert, same, found], late⟩

theorem Owned.began (owned : Owned s) {pass : Nat} (idle : s.passes pass = .idle)
    (timely : recovery.Timely s (.begin pass)) :
    Owned (s.setPass pass (.begun (s.now - recovery.staleThreshold))) := by
  have owners : ∀ other, ((s.setPass pass (.begun (s.now - recovery.staleThreshold))).passes
      other).owner = (s.passes other).owner := by
    intro other
    by_cases same : other = pass
    · subst same
      simp [idle, Phase.owner]
    · simp [same]
  refine ⟨fun other cutoff has => ?_, fun first state owns other cutoff has => ?_, ?_, ?_⟩
  · by_cases same : other = pass
    · obtain rfl : _ = cutoff := by simpa [same, Phase.cutoff] using has
      simp
    · exact owned.past other cutoff (by simpa [same] using has)
  · rw [owners] at owns
    by_cases same : other = pass
    · obtain rfl : _ = cutoff := by simpa [same, Phase.cutoff] using has
      have soon := timely first state owns
      omega
    · exact owned.guarded first state owns other cutoff (by simpa [same] using has)
  · simpa only [owners, setPass_memory] using owned.row
  · simpa only [owners] using owned.alone

-- Nobody owns an execution that a pass under way finds stale.
theorem Owned.unowned (owned : Owned s) {pass : Nat} {cutoff : Int} {row : ExecutionState Int}
    (has : (s.passes pass).cutoff = some cutoff)
    (found : s.memory.store[row.correlationId]? = some row)
    (stale : MemoryPersistence.stale cutoff row) (other : Nat) (state : ExecutionState Int)
    (owns : (s.passes other).owner = some state) : state.correlationId ≠ row.correlationId := by
  intro same
  obtain ⟨current, there, late⟩ := owned.row other state owns
  rw [same, found] at there
  obtain rfl := Option.some.inj there
  obtain ⟨live, old⟩ : row.isTerminal = false ∧ row.updatedAt < cutoff := by
    simpa [MemoryPersistence.stale] using stale
  have bound := owned.guarded other state owns pass cutoff has
  rcases late with terminal | later
  · simp [live] at terminal
  · omega

theorem Owned.won (owned : Owned s) {pass : Nat} {cutoff : Int}
    {candidates rest : List (ExecutionState Int)} {recovered : Nat} {row : ExecutionState Int}
    {handler : RecoveryHandler} (claims : List (Nat × String))
    (phase : s.passes pass = .looping cutoff candidates recovered .scanning)
    (found : s.memory.store[row.correlationId]? = some row)
    (stale : MemoryPersistence.stale cutoff row) :
    Owned ({ s with
      memory := s.memory.save (row.transition s.now handler.claimStatus)
      claims := claims }.setPass pass (.looping cutoff rest recovered
        (.claimed handler (row.transition s.now handler.claimStatus)))) := by
  have has : (s.passes pass).cutoff = some cutoff := by simp [phase, Phase.cutoff]
  have unowned := owned.unowned has found stale
  have cutoffs : ∀ other value, (if other = pass then Phase.looping cutoff rest recovered
      (.claimed handler (row.transition s.now handler.claimStatus)) else s.passes other).cutoff =
        some value → (s.passes other).cutoff = some value := by
    intro other value
    by_cases same : other = pass
    · subst same
      simp [phase, Phase.cutoff]
    · simp [same]
  refine ⟨fun other value holds => ?_, fun first state owns other value holds => ?_,
    fun first state owns => ?_, fun first second a b ownsFirst ownsSecond same => ?_⟩
  · exact owned.past other value (cutoffs other value (by simpa using holds))
  · have before := cutoffs other value (by simpa using holds)
    by_cases mine : first = pass
    · obtain rfl : _ = state := by simpa [mine, Phase.owner] using owns
      exact owned.past other value before
    · exact owned.guarded first state (by simpa [mine] using owns) other value before
  · by_cases mine : first = pass
    · obtain rfl : _ = state := by simpa [mine, Phase.owner] using owns
      exact ⟨_, by simp [MemoryPersistence.save], .inr le_rfl⟩
    · have old : (s.passes first).owner = some state := by simpa [mine] using owns
      obtain ⟨current, there, late⟩ := owned.row first state old
      refine ⟨current, ?_, late⟩
      simp [MemoryPersistence.save, Std.TreeMap.getElem?_insert, Ne.symm (unowned first state old),
        there]
  · by_cases firstMine : first = pass <;> by_cases secondMine : second = pass
    · rw [firstMine, secondMine]
    · obtain rfl : _ = a := by simpa [firstMine, Phase.owner] using ownsFirst
      exact absurd same.symm (unowned second b (by simpa [secondMine] using ownsSecond))
    · obtain rfl : _ = b := by simpa [secondMine, Phase.owner] using ownsSecond
      exact absurd same (unowned first a (by simpa [firstMine] using ownsFirst))
    · exact owned.alone first second a b (by simpa [firstMine] using ownsFirst)
        (by simpa [secondMine] using ownsSecond) same

theorem Transition.owned (moves : Transition recovery s choice s') (timely : recovery.Timely s choice)
    (owned : Owned s) : Owned s' := by
  cases moves with
  | tick elapsed =>
    refine ⟨fun pass cutoff has => ?_, owned.guarded, owned.row, owned.alone⟩
    have before := owned.past pass cutoff has
    simp only
    omega
  | began pass idle => exact owned.began idle timely
  | quiet _ pass phase cutoff owner => exact owned.quiet cutoff owner
  | failed _ pass cutoff candidates rest recovered row phase =>
    refine (owned.saveTerminal (by simp [ExecutionStatus.isTerminal]) _ _).quiet ?_ ?_
    · simp [phase, Phase.cutoff]
    · simp [Phase.owner]
  | won _ pass cutoff candidates rest recovered row handler phase found stale =>
    exact owned.won _ phase found stale
  | saved _ pass cutoff candidates recovered handler state outcome phase =>
    have terminal : (handler.status outcome).isTerminal := by
      cases handler <;> rcases outcome with _ | _ <;> rfl
    refine (owned.saveTerminal (by simpa using terminal) _ _).quiet ?_ ?_
    · simp [phase, Phase.cutoff]
    · simp [Phase.owner]

theorem Owned.exclusive (owned : Owned s) : Exclusive s := by
  have owner : ∀ pass execution, s.handling pass = some execution →
      ∃ state, (s.passes pass).owner = some state ∧ state.correlationId = execution := by
    intro pass execution handles
    rw [State.handling] at handles
    split at handles
    · rename_i phase
      exact ⟨_, by rw [phase, Phase.owner], by simpa using handles⟩
    · simp at handles
  intro first second execution handlesFirst handlesSecond
  obtain ⟨a, ownsFirst, rfl⟩ := owner first execution handlesFirst
  obtain ⟨b, ownsSecond, same⟩ := owner second _ handlesSecond
  exact owned.alone first second a b ownsFirst ownsSecond same.symm

theorem init_tally (now : Int) (memory : MemoryPersistence Int) : Tally (init now memory) :=
  ⟨by simp [init, Phase.pending], by simp [init, Phase.recovered]⟩

theorem init_owned (now : Int) (memory : MemoryPersistence Int) : Owned (init now memory) :=
  ⟨by simp [init, Phase.cutoff], by simp [init, Phase.owner], by simp [init, Phase.owner],
    by simp [init, Phase.owner]⟩

theorem recover_stale_runs_correct (recovery : Recovery) (now : Int)
    (memory : MemoryPersistence Int) (choices : List Choice) (s : State)
    (ran : run recovery.step (init now memory) choices = some s) :
    CountsClaims s ∧ CountsTrue s ∧
      (Along recovery.step recovery.Timely (init now memory) choices → Exclusive s) := by
  have tally : Tally s := run_invariant Tally
    (fun _ _ _ _ tally stepped => (step_transition stepped).tally tally) (init_tally now memory) ran
  refine ⟨tally.countsClaims, tally.countsTrue, fun timely => ?_⟩
  have owned : Owned s := run_invariant_along Owned
    (fun _ _ _ timely owned stepped => (step_transition stepped).owned timely owned)
    (init_owned now memory) timely ran
  exact owned.exclusive

def resuming : Recovery where
  staleThreshold := 10
  services _ := { decider := some fun _ => .resume, resume := true }

def stuck : MemoryPersistence Int :=
  MemoryPersistence.empty.save
    { correlationId := "order-7", name := "ship", pattern := .saga, status := .running
      startedAt := 0, updatedAt := 0 }

def overlapping : List Choice :=
  [.begin 0, .begin 1, .list 0 (.stored _), .list 1 (.stored _), .next 0, .start 0, .next 1,
    .finish 0 (.ok ()), .save 0, .next 1]

theorem overlapping_safe : ∃ s, run resuming.step (init 100 stuck) overlapping = some s ∧
    s.handling 1 = none ∧ times s.counted "order-7" = 1 ∧ CountsClaims s ∧ CountsTrue s ∧
      Exclusive s := by
  have ends : ((run resuming.step (init 100 stuck) overlapping).map fun s =>
      (s.handling 1, times s.counted "order-7")) = some (none, 1) := by decide
  obtain ⟨s, ran, seen⟩ := Option.map_eq_some_iff.mp ends
  obtain ⟨idle, once⟩ := Prod.mk.inj seen
  obtain ⟨claims, counts, exclusive⟩ :=
    recover_stale_runs_correct resuming 100 stuck overlapping s ran
  refine ⟨s, ran, idle, once, claims, counts, exclusive ⟨?_, fun s₁ first => ⟨?_, fun s₂ second => ?_⟩⟩⟩
  · simp [Timely, init, Phase.owner]
  · obtain rfl := Option.some.inj first
    intro pass state owns
    by_cases same : pass = 0 <;> simp [same, init, Phase.owner] at owns
  · refine along_of_forall ?_ s₂
    simp [Timely]

def overrunning : List Choice :=
  [.begin 0, .list 0 (.stored _), .next 0, .start 0, .tick 11, .begin 1, .list 1 (.stored _),
    .next 1, .start 1]

theorem overrunning_resumes_twice :
    ∃ s, run resuming.step (init 100 stuck) overrunning = some s ∧ ¬ Exclusive s := by
  have ends : ((run resuming.step (init 100 stuck) overrunning).map fun s =>
      (s.handling 0, s.handling 1)) = some (some "order-7", some "order-7") := by decide
  obtain ⟨s, ran, seen⟩ := Option.map_eq_some_iff.mp ends
  obtain ⟨first, second⟩ := Prod.mk.inj seen
  exact ⟨s, ran, fun exclusive => absurd (exclusive 0 1 "order-7" first second) (by decide)⟩

end Firefly.Orchestration.Recovery
