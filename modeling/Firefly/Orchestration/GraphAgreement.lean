import Firefly.Orchestration.Model
import Firefly.Orchestration.SagaLayers
import Firefly.Orchestration.WorkflowProgress
import Firefly.Shared.Text

set_option autoImplicit false

namespace Firefly.Orchestration

open Text

inductive IssueLevel where
  | warning | error
deriving DecidableEq, Repr

structure ValidationIssue where
  target : String
  level : IssueLevel
  message : String
deriving DecidableEq, Repr

structure ValidationReport where
  issues : List ValidationIssue := []
deriving DecidableEq, Repr

namespace ValidationReport

def hasErrors (report : ValidationReport) : Bool :=
  report.issues.any fun issue => issue.level = .error

def isEmpty (report : ValidationReport) : Bool := report.issues.isEmpty

def joined (issues : List ValidationIssue) : String :=
  "; ".intercalate (issues.map fun issue => "[" ++ issue.target ++ "] " ++ issue.message)

def raiseIfErrors (report : ValidationReport) : Except String Unit :=
  if report.hasErrors then .error (joined (report.issues.filter fun issue => issue.level = .error))
  else .ok ()

end ValidationReport

def resolveEntry (node : String) (remaining : Std.TreeMap String Nat)
    (entry : String × List String) : Std.TreeMap String Nat :=
  if node ∈ entry.2 then remaining.modify entry.1 (· - 1) else remaining

def resolveDependency (graph : Graph) (remaining : Std.TreeMap String Nat) (node : String) :
    Std.TreeMap String Nat :=
  graph.toList.foldl (resolveEntry node) remaining

def removeReady (graph : Graph) (remaining : Std.TreeMap String Nat) (ready : List String) :
    Std.TreeMap String Nat :=
  ready.foldl (fun remaining node => resolveDependency graph (remaining.erase node) node) remaining

-- A round with a ready node shrinks `remaining`, so one round for each node is enough.
def drainReady (graph : Graph) : Nat → Std.TreeMap String Nat → Std.TreeMap String Nat
  | 0, remaining => remaining
  | fuel + 1, remaining =>
    let ready := (remaining.toList.filter fun entry => entry.2 = 0).map Prod.fst
    if ready = [] then remaining else drainReady graph fuel (removeReady graph remaining ready)

def firstCycle (graph : Graph) : Option (List String) :=
  let remaining := drainReady graph graph.size (graph.map fun _ deps => deps.length)
  if remaining.isEmpty then none else some (remaining.keys.insertionSort (· ≤ ·))

structure OrchestrationValidator where
  failOnWarning : Bool := false

namespace OrchestrationValidator

def unknownIssues (target : String) (graph : Graph) : List ValidationIssue :=
  graph.toList.flatMap fun entry => (entry.2.filter (· ∉ graph)).map fun dep =>
    { target, level := .error,
      message := "node " ++ debugStr entry.1 ++ " depends on unknown " ++ debugStr dep }

def validateDag (target : String) (graph : Graph) : ValidationReport :=
  if graph.isEmpty then
    { issues := [{ target, level := .error, message := "no steps defined" }] }
  else
    let report : ValidationReport := { issues := unknownIssues target graph }
    if report.hasErrors then report
    else
      match firstCycle graph with
      | none => report
      | some cycle =>
        let message := "dependency cycle: " ++ " -> ".intercalate cycle
        { issues := report.issues ++ [{ target, level := .error, message }] }

def failIfNeeded (validator : OrchestrationValidator) (report : ValidationReport) :
    Except String Unit :=
  if validator.failOnWarning && !report.isEmpty then .error (ValidationReport.joined report.issues)
  else report.raiseIfErrors

end OrchestrationValidator

end Firefly.Orchestration

namespace Firefly.Orchestration

open Layering

-- The dependencies as the counting of `first_cycle` treats them: a repeated entry is counted twice
-- and resolved once, so its node can never become ready.
def countedDeps (graph : Graph) (name : String) : List String :=
  if (depsOf graph name).Nodup then depsOf graph name else name :: depsOf graph name

theorem resolveEntries_untouched {node name : String} (entries : List (String × List String))
    (free : ∀ entry ∈ entries, entry.1 = name → node ∉ entry.2) (remaining : Std.TreeMap String Nat) :
    (entries.foldl (resolveEntry node) remaining)[name]? = remaining[name]? := by
  induction entries generalizing remaining with
  | nil => rfl
  | cons entry entries ih =>
    rw [List.foldl_cons, ih (fun other member => free other (by simp [member])), resolveEntry]
    split
    · rename_i needs
      have other : entry.1 ≠ name := fun same => free entry (by simp) same needs
      rw [Std.TreeMap.getElem?_modify]
      simp [other]
    · rfl

theorem resolveEntries_counted {node name : String} {deps : List String}
    (entries : List (String × List String)) (distinct : (entries.map Prod.fst).Nodup)
    (listed : (name, deps) ∈ entries) (needs : node ∈ deps) (remaining : Std.TreeMap String Nat) :
    (entries.foldl (resolveEntry node) remaining)[name]? = remaining[name]?.map (· - 1) := by
  induction entries generalizing remaining with
  | nil => simp at listed
  | cons entry entries ih =>
    obtain ⟨fresh, distinct⟩ := List.nodup_cons.mp distinct
    rw [List.foldl_cons]
    rcases List.mem_cons.mp listed with rfl | later
    · rw [resolveEntries_untouched entries, resolveEntry, if_pos needs, Std.TreeMap.getElem?_modify]
      · simp
      · rintro other member rfl
        exact absurd (List.mem_map_of_mem member) fresh
    · rw [ih distinct later, resolveEntry]
      have other : entry.1 ≠ name := fun same => fresh (same ▸ List.mem_map_of_mem later)
      split
      · rw [Std.TreeMap.getElem?_modify]
        simp [other]
      · rfl

theorem resolveDependency_getElem? (graph : Graph) (remaining : Std.TreeMap String Nat)
    (node name : String) : (resolveDependency graph remaining node)[name]? =
      if node ∈ depsOf graph name then remaining[name]?.map (· - 1) else remaining[name]? := by
  have distinct : (graph.toList.map Prod.fst).Nodup := by
    rw [Std.TreeMap.map_fst_toList_eq_keys]
    exact nodup_keys graph
  split
  · rename_i needs
    cases found : graph[name]? with
    | none => simp [depsOf, Std.TreeMap.getD_eq_getD_getElem?, found] at needs
    | some deps =>
      exact resolveEntries_counted graph.toList distinct
        (Std.TreeMap.mem_toList_iff_getElem?_eq_some.mpr found) (depsOf_eq found ▸ needs) remaining
  · rename_i needless
    refine resolveEntries_untouched graph.toList ?_ remaining
    rintro ⟨other, deps⟩ member rfl needs
    rw [depsOf_eq (Std.TreeMap.mem_toList_iff_getElem?_eq_some.mp member)] at needless
    exact needless needs

structure Counted (graph : Graph) (remaining : Std.TreeMap String Nat) (removed : List String) :
    Prop where
  left : ∀ name, remaining[name]? = if name ∈ removed then none else
    graph[name]?.map fun deps => deps.length - removed.countP (· ∈ deps)
  nodes : ∀ name ∈ removed, name ∈ graph.keys
  distinct : removed.Nodup
  sorted : Topological (countedDeps graph) removed

theorem length_le_countP_iff {removed deps : List String} (distinct : removed.Nodup) :
    deps.length ≤ removed.countP (· ∈ deps) ↔ deps.Nodup ∧ ∀ dep ∈ deps, dep ∈ removed := by
  rw [List.countP_eq_length_filter]
  have inside : (removed.filter (· ∈ deps)).Subperm deps :=
    List.subperm_of_subset (distinct.filter _) fun dep member => by
      simpa using (List.mem_filter.mp member).2
  constructor
  · intro long
    have perm := inside.perm_of_length_le long
    refine ⟨perm.nodup_iff.mp (distinct.filter _), fun dep member => ?_⟩
    exact (List.mem_filter.mp (perm.mem_iff.mpr member)).1
  · rintro ⟨once, resolved⟩
    have back : deps.Subperm (removed.filter (· ∈ deps)) :=
      List.subperm_of_subset once fun dep member =>
        List.mem_filter.mpr ⟨resolved dep member, by simpa using member⟩
    exact back.length_le

theorem countedDeps_resolved_iff {graph : Graph} {removed : List String} {name : String}
    (kept : name ∉ removed) : (∀ dep ∈ countedDeps graph name, dep ∈ removed) ↔
      (depsOf graph name).Nodup ∧ ∀ dep ∈ depsOf graph name, dep ∈ removed := by
  rw [countedDeps]
  split
  · rename_i once
    simp [once]
  · rename_i repeated
    simp [repeated, kept]

theorem Counted.ready_iff {graph : Graph} {remaining : Std.TreeMap String Nat}
    {removed : List String} (counted : Counted graph remaining removed) {name : String} :
    remaining[name]? = some 0 ↔ name ∈ graph.keys ∧ name ∉ removed ∧
      ∀ dep ∈ countedDeps graph name, dep ∈ removed := by
  rw [counted.left, mem_keys_iff]
  by_cases gone : name ∈ removed
  · simp [gone]
  · cases found : graph[name]? with
    | none => simp [gone]
    | some deps =>
      rw [countedDeps_resolved_iff gone, depsOf_eq found,
        ← length_le_countP_iff counted.distinct]
      simp [gone, Nat.sub_eq_zero_iff_le]

theorem Counted.remove {graph : Graph} {remaining : Std.TreeMap String Nat} {removed : List String}
    {node : String} (counted : Counted graph remaining removed) (listed : node ∈ graph.keys)
    (fresh : node ∉ removed) (free : ∀ dep ∈ countedDeps graph node, dep ∈ removed) :
    Counted graph (resolveDependency graph (remaining.erase node) node) (removed ++ [node]) := by
  refine ⟨?_, ?_, ?_, topological_concat counted.sorted free⟩
  · intro name
    rw [resolveDependency_getElem?, Std.TreeMap.getElem?_erase, counted.left]
    by_cases same : node = name
    · subst same
      simp
    · by_cases gone : name ∈ removed
      · simp [same, gone]
      · cases found : graph[name]? with
        | none => simp [same, gone, Ne.symm same]
        | some deps =>
          rw [depsOf_eq found]
          by_cases needs : node ∈ deps
          · simp [same, gone, Ne.symm same, needs, Nat.sub_sub]
          · simp [same, gone, Ne.symm same, needs]
  · intro name member
    rcases List.mem_append.mp member with before | now
    · exact counted.nodes name before
    · rwa [List.mem_singleton.mp now]
  · rw [List.nodup_append]
    refine ⟨counted.distinct, by simp, ?_⟩
    rintro a before b now rfl
    exact fresh (List.mem_singleton.mp now ▸ before)

theorem removeReady_counted {graph : Graph} (ready : List String)
    (remaining : Std.TreeMap String Nat) (removed : List String)
    (counted : Counted graph remaining removed) (distinct : ready.Nodup)
    (free : ∀ name ∈ ready, remaining[name]? = some 0) :
    Counted graph (removeReady graph remaining ready) (removed ++ ready) := by
  -- a node that is free when the round starts stays free while the others are removed
  have start : ∀ name ∈ ready, name ∈ graph.keys ∧ name ∉ removed ∧
      ∀ dep ∈ countedDeps graph name, dep ∈ removed :=
    fun name member => counted.ready_iff.mp (free name member)
  clear free
  induction ready generalizing remaining removed with
  | nil => simpa [removeReady] using counted
  | cons node ready ih =>
    obtain ⟨fresh, distinct⟩ := List.nodup_cons.mp distinct
    obtain ⟨listed, kept, resolved⟩ := start node (by simp)
    have next := ih _ _ (counted.remove listed kept resolved) distinct fun name member => by
      obtain ⟨listed, kept, resolved⟩ := start name (by simp [member])
      have differs : name ≠ node := fun same => fresh (same ▸ member)
      exact ⟨listed, by simp [kept, differs], fun dep needed =>
        List.mem_append_left _ (resolved dep needed)⟩
    simpa [removeReady] using next

theorem Counted.mem_keys {graph : Graph} {remaining : Std.TreeMap String Nat}
    {removed : List String} (counted : Counted graph remaining removed) (name : String) :
    name ∈ remaining.keys ↔ name ∉ removed ∧ name ∈ graph.keys := by
  rw [mem_keys_iff, mem_keys_iff, counted.left]
  by_cases gone : name ∈ removed <;> simp [gone]

theorem Counted.perm {graph : Graph} {remaining : Std.TreeMap String Nat} {removed : List String}
    (counted : Counted graph remaining removed) : (removed ++ remaining.keys).Perm graph.keys :=
  perm_of_left counted.distinct counted.nodes counted.mem_keys

theorem Counted.empty_iff {graph : Graph} {remaining : Std.TreeMap String Nat}
    {removed : List String} (counted : Counted graph remaining removed)
    (stuck : ∀ name : String, remaining[name]? ≠ some 0) :
    remaining.isEmpty ↔
      Closed graph.keys (countedDeps graph) ∧ Acyclic graph.keys (countedDeps graph) := by
  rw [← drained_iff counted.perm counted.sorted, isEmpty_iff_keys]
  intro name listed
  obtain ⟨kept, node⟩ := (counted.mem_keys name).mp listed
  by_contra resolved
  push Not at resolved
  exact stuck name (counted.ready_iff.mpr ⟨node, kept, resolved⟩)

theorem mem_zeroes {remaining : Std.TreeMap String Nat} {name : String} :
    name ∈ (remaining.toList.filter fun entry => entry.2 = 0).map Prod.fst ↔
      remaining[name]? = some 0 := by
  constructor
  · intro listed
    obtain ⟨⟨name, degree⟩, member, rfl⟩ := List.mem_map.mp listed
    obtain ⟨inside, zero⟩ := List.mem_filter.mp member
    obtain rfl : degree = 0 := by simpa using zero
    exact Std.TreeMap.mem_toList_iff_getElem?_eq_some.mp inside
  · intro found
    refine List.mem_map.mpr ⟨(name, 0), List.mem_filter.mpr ⟨?_, by simp⟩, rfl⟩
    exact Std.TreeMap.mem_toList_iff_getElem?_eq_some.mpr found

theorem drainReady_empty_iff {graph : Graph} (fuel : Nat) (remaining : Std.TreeMap String Nat)
    (removed : List String) (counted : Counted graph remaining removed)
    (enough : remaining.size ≤ fuel) :
    (drainReady graph fuel remaining).isEmpty ↔
      Closed graph.keys (countedDeps graph) ∧ Acyclic graph.keys (countedDeps graph) := by
  induction fuel generalizing remaining removed with
  | zero =>
    have empty : remaining.keys = [] := by
      rw [← List.length_eq_zero_iff, Std.TreeMap.length_keys]
      exact Nat.le_zero.mp enough
    refine counted.empty_iff fun name ready => ?_
    have listed := mem_keys_iff.mpr ⟨0, ready⟩
    simp [empty] at listed
  | succ fuel ih =>
    rw [drainReady]
    generalize isReady : (remaining.toList.filter fun entry => entry.2 = 0).map Prod.fst = ready
    have free : ∀ name, name ∈ ready ↔ remaining[name]? = some 0 := by
      intro name
      rw [← isReady, mem_zeroes]
    by_cases stuck : ready = []
    · rw [if_pos stuck]
      refine counted.empty_iff fun name zero => ?_
      have member := (free name).mpr zero
      simp [stuck] at member
    · rw [if_neg stuck]
      have distinct : ready.Nodup := by
        have keys := nodup_keys remaining
        rw [← Std.TreeMap.map_fst_toList_eq_keys] at keys
        exact isReady ▸ keys.sublist (List.filter_sublist.map _)
      have next := removeReady_counted ready remaining removed counted distinct fun name member =>
        (free name).mp member
      refine ih _ _ next ?_
      have smaller := next.perm.length_eq
      have whole := counted.perm.length_eq
      have some : 0 < ready.length := List.length_pos_iff.mpr stuck
      simp only [List.length_append, Std.TreeMap.length_keys] at smaller whole
      omega

-- Counting twice what is resolved once turns every repeated entry into a cycle.
theorem counted_sound_iff (graph : Graph) (closed : Closed graph.keys (depsOf graph)) :
    Closed graph.keys (countedDeps graph) ∧ Acyclic graph.keys (countedDeps graph) ↔
      Acyclic graph.keys (depsOf graph) ∧ ∀ name ∈ graph.keys, (depsOf graph name).Nodup := by
  have agree : (∀ name ∈ graph.keys, (depsOf graph name).Nodup) →
      Depends graph.keys (countedDeps graph) = Depends graph.keys (depsOf graph) := by
    intro once
    funext a b
    refine propext (and_congr_right fun listed => ?_)
    rw [countedDeps, if_pos (once a listed)]
  constructor
  · rintro ⟨-, acyclic⟩
    have once : ∀ name ∈ graph.keys, (depsOf graph name).Nodup := by
      intro name listed
      by_contra repeated
      refine acyclic name (.single ⟨listed, listed, ?_⟩)
      rw [countedDeps, if_neg repeated]
      exact List.mem_cons_self
    exact ⟨by simpa only [Acyclic, agree once] using acyclic, once⟩
  · rintro ⟨acyclic, once⟩
    refine ⟨fun a listed => ?_, by simpa only [Acyclic, agree once] using acyclic⟩
    rw [countedDeps, if_pos (once a listed)]
    exact closed a listed

theorem firstCycle_eq_none_iff (graph : Graph) (closed : Closed graph.keys (depsOf graph)) :
    firstCycle graph = none ↔
      Acyclic graph.keys (depsOf graph) ∧ ∀ name ∈ graph.keys, (depsOf graph name).Nodup := by
  have start : Counted graph (graph.map fun _ deps => deps.length) [] := by
    refine ⟨fun name => ?_, by simp, by simp, topological_nil _⟩
    rw [Std.TreeMap.getElem?_map]
    simp
  rw [← counted_sound_iff graph closed, ← drainReady_empty_iff graph.size _ _ start (by simp), firstCycle]
  split <;> simp_all

theorem unknownIssues_clean_iff (target : String) (graph : Graph) :
    (⟨OrchestrationValidator.unknownIssues target graph⟩ : ValidationReport).hasErrors = false ↔
      Closed graph.keys (depsOf graph) := by
  simp only [ValidationReport.hasErrors, OrchestrationValidator.unknownIssues, List.any_eq_false,
    List.mem_flatMap, List.mem_map, List.mem_filter]
  constructor
  · intro clean name listed dep needs
    obtain ⟨deps, found⟩ := mem_keys_iff.mp listed
    rw [depsOf_eq found] at needs
    by_contra unknown
    rw [Std.TreeMap.mem_keys] at unknown
    exact clean _ ⟨(name, deps), Std.TreeMap.mem_toList_iff_getElem?_eq_some.mpr found, dep,
      ⟨needs, by simpa using unknown⟩, rfl⟩ (by simp)
  · rintro closed - ⟨⟨name, deps⟩, member, dep, ⟨needs, unknown⟩, rfl⟩ -
    have found := Std.TreeMap.mem_toList_iff_getElem?_eq_some.mp member
    have known := closed name (mem_keys_iff.mpr ⟨deps, found⟩) dep (depsOf_eq found ▸ needs)
    rw [Std.TreeMap.mem_keys] at known
    simp [known] at unknown

theorem validateDag_clean_iff (target : String) (graph : Graph) (nonempty : graph.isEmpty = false) :
    (OrchestrationValidator.validateDag target graph).hasErrors = false ↔
      Sound graph ∧ ∀ name ∈ graph.keys, (depsOf graph name).Nodup := by
  have unknown := unknownIssues_clean_iff target graph
  simp only [OrchestrationValidator.validateDag, nonempty, Bool.false_eq_true, if_false, Sound]
  by_cases errors : (⟨OrchestrationValidator.unknownIssues target graph⟩ :
      ValidationReport).hasErrors
  · rw [if_pos errors]
    simp only [errors, Bool.true_eq_false, false_iff] at unknown ⊢
    exact fun sound => unknown sound.1.1
  · rw [if_neg errors]
    have clean : (⟨OrchestrationValidator.unknownIssues target graph⟩ :
        ValidationReport).hasErrors = false := by simpa using errors
    have closed := unknown.mp clean
    have cycle := firstCycle_eq_none_iff graph closed
    cases found : firstCycle graph with
    | none =>
      obtain ⟨acyclic, once⟩ := cycle.mp found
      exact iff_of_true clean ⟨⟨closed, acyclic⟩, once⟩
    | some names =>
      simp only [found, reduceCtorEq, false_iff] at cycle
      constructor
      · simp [ValidationReport.hasErrors]
      · exact fun sound => absurd ⟨sound.1.2, sound.2⟩ cycle

def RunsClean (wf : Workflow) : Prop :=
  (∃ choices s result, (∀ choice ∈ choices, choice.succeeds) ∧ wf.runInner choices = some s ∧
      s.phase = .returned result) ∧
    ∀ choices s error, (∀ choice ∈ choices, choice.succeeds) → wf.runInner choices = some s →
      s.phase = .returned (.error error) → Workflow.blamesGraph error = false

theorem runsClean_iff {wf : Workflow} (distinct : wf.nodeNames.Nodup) :
    RunsClean wf ↔ Sound wf.graph := by
  obtain ⟨choices, s, result, succeeds, ran, returned⟩ := Workflow.exists_return wf.init
  constructor
  · rintro ⟨-, clean⟩
    rcases Workflow.succeeding_run distinct succeeds ran returned with ⟨-, sound⟩ | ⟨error, rfl, blames, -⟩
    · exact sound
    · simp [clean choices s error succeeds ran returned] at blames
  · intro sound
    refine ⟨⟨choices, s, result, succeeds, ran, returned⟩, fun choices s error succeeds ran returned => ?_⟩
    rcases Workflow.succeeding_run distinct succeeds ran returned with ⟨ok, -⟩ | ⟨_, -, -, unsound⟩
    · simp at ok
    · exact absurd sound unsound

structure Agreement (target : String) (wf : Workflow) : Prop where
  validator : (OrchestrationValidator.validateDag target wf.graph).hasErrors = false ↔ Sound wf.graph
  engine : RunsClean wf ↔ Sound wf.graph
  layers : (∃ layers, computeLayers wf.graph = .ok layers) ↔ Sound wf.graph

theorem nodup_dependsOn_iff {wf : Workflow} (distinct : wf.nodeNames.Nodup) :
    (∀ name ∈ wf.graph.keys, (depsOf wf.graph name).Nodup) ↔
      ∀ node ∈ wf.nodes, node.dependsOn.Nodup := by
  constructor
  · intro once node member
    obtain ⟨i, rfl⟩ := List.mem_iff_get.mp member
    have listed := mem_keys_iff.mpr ⟨_, Workflow.graph_getElem? distinct i⟩
    exact Workflow.depsOf_nameOf distinct i ▸ once _ listed
  · intro once name listed
    rw [(Workflow.graph_keys_perm distinct).mem_iff, ← Workflow.nameOf_finRange] at listed
    obtain ⟨i, -, rfl⟩ := List.mem_map.mp listed
    rw [Workflow.depsOf_nameOf distinct]
    exact once _ (List.get_mem _ _)

theorem graph_nonempty {wf : Workflow} (nonempty : wf.nodes ≠ []) (distinct : wf.nodeNames.Nodup) :
    wf.graph.isEmpty = false := by
  rw [Bool.eq_false_iff, ne_eq, isEmpty_iff_keys]
  intro empty
  have perm := Workflow.graph_keys_perm distinct
  rw [empty] at perm
  have none : wf.nodeNames = [] := perm.nil_eq.symm
  exact nonempty (by simpa [Workflow.nodeNames] using none)

theorem agreement_iff (target : String) (wf : Workflow) (nonempty : wf.nodes ≠ [])
    (distinct : wf.nodeNames.Nodup) :
    Agreement target wf ↔ (Sound wf.graph → ∀ node ∈ wf.nodes, node.dependsOn.Nodup) := by
  have validator := validateDag_clean_iff target wf.graph (graph_nonempty nonempty distinct)
  rw [nodup_dependsOn_iff distinct] at validator
  constructor
  · intro agreement sound
    exact (validator.mp (agreement.validator.mpr sound)).2
  · intro once
    refine ⟨?_, runsClean_iff distinct, computeLayers_ok_iff wf.graph⟩
    rw [validator]
    exact ⟨And.left, fun sound => ⟨sound, once sound⟩⟩

theorem agreement_pipeline : Agreement "pipeline" Workflow.pipeline :=
  (agreement_iff "pipeline" Workflow.pipeline (by decide) (by decide)).mpr fun _ => by decide

def repeatedEntry : Workflow where
  name := "repeated"
  nodes := [{ name := "reserve" }, { name := "ship", dependsOn := ["reserve", "reserve"] }]

theorem repeatedEntry_disagrees : ¬ Agreement "repeated" repeatedEntry := by
  intro agreement
  have sound : Sound repeatedEntry.graph :=
    (computeLayers_ok_iff _).mp ⟨[["reserve"], ["ship"]], by decide⟩
  have rejected : (OrchestrationValidator.validateDag "repeated" repeatedEntry.graph).hasErrors := by
    decide
  simp [agreement.validator.mpr sound] at rejected

end Firefly.Orchestration
