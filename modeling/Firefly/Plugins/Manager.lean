import Firefly.Plugins.Resolve
import Firefly.Shared.Runs
import Firefly.Shared.Tables
import Firefly.Shared.Worklist

set_option autoImplicit false

namespace Firefly.Plugins

open Layering Runs Tables Text Worklist

inductive PluginState where
  | loaded
  | started
  | stopped
  | failed
deriving DecidableEq, Repr

structure Plugin where
  name : String
  dependsOn : List String

structure PluginDescriptor where
  id : String
  dependsOn : List String
  state : PluginState
  failedReason : Option String
deriving DecidableEq, Repr

structure Entry where
  plugin : Nat
  descriptor : PluginDescriptor
deriving DecidableEq, Repr

inductive PluginError where
  | start (name source : String)
  | stop (name source : String)
  | resolution (error : ResolutionError)
deriving DecidableEq, Repr

def PluginError.toString : PluginError → String
  | .start name source => "plugin " ++ debugStr name ++ " start: " ++ source
  | .stop name source => "plugin " ++ debugStr name ++ " stop: " ++ source
  | .resolution error => error.toString

structure Hooks where
  start : Nat → Option String
  stop : Nat → Option String

/-- `running` and `swept` are no fields of the source: whether the start hook of a plugin has
succeeded and its stop hook has not run since, and whether the last call was a sweep of all. -/
structure State where
  entries : String → Option Entry
  order : List String
  started : Bool
  running : Nat → Bool
  swept : Bool

namespace State

def new : State where
  entries := fun _ => none
  order := []
  started := false
  running := fun _ => false
  swept := false

def add (plugins : Nat → Plugin) (s : State) (plugin : Nat) : State :=
  let id := (plugins plugin).name
  let descriptor : PluginDescriptor :=
    { id, dependsOn := (plugins plugin).dependsOn, state := .loaded, failedReason := none }
  { s with
    order := if (s.entries id).isNone then s.order ++ [id] else s.order
    entries := Function.update s.entries id (some { plugin, descriptor }) }

def nodes (s : State) : Nodes :=
  s.order.filterMap fun id => (s.entries id).map fun e => (id, e.descriptor.dependsOn)

def fullOrder (s : State) : Except ResolutionError (List String) :=
  (topologicalOrder s.nodes).map fun order => order.map fun i => (s.nodes.get i).1

def depsOf (s : State) (id : String) : List String :=
  ((s.entries id).map fun e => e.descriptor.dependsOn).getD []

def depsBound (s : State) (id : String) : Nat :=
  (s.depsOf id).length + (s.order.map fun other => (s.depsOf other).length).sum

-- The queue is popped at its end: the top is the head of the list here.
def transitiveDeps (s : State) (id : String) : List String :=
  (explore (fun other => (s.depsOf other).reverse) (s.depsBound id) (s.depsOf id).reverse []).getD []

def meetEntry (id : String) (met : List String × Bool) (node : String × List String) :
    List String × Bool :=
  if node.1 ∈ met.1 then met
  else if id ∈ node.2 ∨ ∃ dep ∈ node.2, dep ∈ met.1 then (node.1 :: met.1, true)
  else met

def dependentsPass (id : String) (nodes : Nodes) (dependents : List String) : List String × Bool :=
  nodes.foldl (meetEntry id) (dependents, false)

-- Every pass but the last finds a dependent, so as many passes as there are entries and one more
-- are enough.
def dependentsLoop (id : String) (nodes : Nodes) : Nat → List String → List String
  | 0, dependents => dependents
  | fuel + 1, dependents =>
    match dependentsPass id nodes dependents with
    | (more, true) => dependentsLoop id nodes fuel more
    | (same, false) => same

def transitiveDependents (s : State) (id : String) : List String :=
  dependentsLoop id s.nodes (s.nodes.length + 1) []

def transition (s : State) (id : String) (e : Entry) (state : PluginState) (reason : Option String) :
    State :=
  { s with
    entries := Function.update s.entries id
      (some { e with descriptor := { e.descriptor with state, failedReason := reason } }) }

def setRunning (s : State) (plugin : Nat) (running : Bool) : State :=
  { s with running := Function.update s.running plugin running }

def runStart (hooks : Hooks) : List String → State → Except PluginError Unit × State
  | [], s => (.ok (), s)
  | id :: ids, s =>
    match s.entries id with
    | none => runStart hooks ids s
    | some e =>
      if e.descriptor.state = .started then runStart hooks ids s
      else
        match hooks.start e.plugin with
        | some reason => (.error (.start id reason), s.transition id e .failed (some reason))
        | none =>
          runStart hooks ids ((s.transition id e .started none).setRunning e.plugin true)

def runStop (hooks : Hooks) : List String → State → Except PluginError Unit × State
  | [], s => (.ok (), s)
  | id :: ids, s =>
    match s.entries id with
    | none => runStop hooks ids s
    | some e =>
      if e.descriptor.state = .stopped ∨ e.descriptor.state = .loaded then runStop hooks ids s
      else
        match hooks.stop e.plugin with
        | some reason =>
          (.error (.stop id reason),
            (s.transition id e .failed (some reason)).setRunning e.plugin false)
        | none =>
          runStop hooks ids ((s.transition id e .stopped none).setRunning e.plugin false)

def startPlugin (hooks : Hooks) (s : State) (id : String) : Except PluginError Unit × State :=
  match s.entries id with
  | none => (.error (.resolution (.missingDependency id id)), s)
  | some _ =>
    match s.fullOrder with
    | .error error => (.error (.resolution error), s)
    | .ok full =>
      let subset := id :: s.transitiveDeps id
      runStart hooks (full.filter (· ∈ subset)) s

def stopPlugin (hooks : Hooks) (s : State) (id : String) : Except PluginError Unit × State :=
  match s.entries id with
  | none => (.error (.resolution (.missingDependency id id)), s)
  | some _ =>
    match s.fullOrder with
    | .error error => (.error (.resolution error), s)
    | .ok full =>
      let subset := id :: s.transitiveDependents id
      runStop hooks (full.reverse.filter (· ∈ subset)) s

def startAll (hooks : Hooks) (s : State) : Except PluginError Unit × State :=
  if s.started then (.ok (), s)
  else
    match s.fullOrder with
    | .error error => (.error (.resolution error), s)
    | .ok order =>
      match runStart hooks order s with
      | (.error error, s) => (.error error, s)
      | (.ok _, s) => (.ok (), { s with started := true })

def stopAll (hooks : Hooks) (s : State) : Except PluginError Unit × State :=
  if s.started then
    match s.fullOrder with
    | .error error => (.error (.resolution error), s)
    | .ok order =>
      match runStop hooks order.reverse s with
      | (.error error, s) => (.error error, s)
      | (.ok _, s) => (.ok (), { s with started := false })
  else (.ok (), s)

-- The stop hook runs for a started plugin; its error is ignored.
def remove (s : State) (id : String) : Bool × State :=
  match s.entries id with
  | none => (false, s)
  | some e =>
    (true, { s with
      entries := Function.update s.entries id none
      order := s.order.filter (· ≠ id)
      running :=
        if e.descriptor.state = .started then Function.update s.running e.plugin false
        else s.running })

def removeEach (ids : List String) (s : State) : State :=
  ids.foldl (fun s id => (s.remove id).2) s

def unloadAll (s : State) : Except PluginError Unit × State :=
  match s.fullOrder with
  | .error error => (.error (.resolution error), s)
  | .ok order => (.ok (), { removeEach order.reverse s with started := false })

end State

inductive Call where
  | add (plugin : Nat)
  | startPlugin (id : String)
  | stopPlugin (id : String)
  | startAll
  | stopAll
  | remove (id : String)
  | unloadAll
deriving DecidableEq, Repr

def Call.after (plugins : Nat → Plugin) (hooks : Hooks) (s : State) : Call → State
  | .add plugin => s.add plugins plugin
  | .startPlugin id => (s.startPlugin hooks id).2
  | .stopPlugin id => (s.stopPlugin hooks id).2
  | .startAll => (s.startAll hooks).2
  | .stopAll => (s.stopAll hooks).2
  | .remove id => (s.remove id).2
  | .unloadAll => s.unloadAll.2

structure Choice where
  call : Call
  hooks : Hooks

def step (plugins : Nat → Plugin) (s : State) (choice : Choice) : Option State :=
  some { choice.call.after plugins choice.hooks s with
    swept := choice.call = .stopAll ∨ choice.call = .unloadAll }

namespace State

variable {s : State} {id : String}

theorem mem_nodes {deps : List String} :
    (id, deps) ∈ s.nodes ↔ id ∈ s.order ∧ ∃ e, s.entries id = some e ∧ e.descriptor.dependsOn = deps := by
  simp only [nodes, List.mem_filterMap, Option.map_eq_some_iff, Prod.mk.injEq]
  constructor
  · rintro ⟨other, listed, e, here, rfl, rfl⟩
    exact ⟨listed, e, here, rfl⟩
  · rintro ⟨listed, e, here, rfl⟩
    exact ⟨id, listed, e, here, rfl, rfl⟩

theorem depsOf_eq {e : Entry} (here : s.entries id = some e) : s.depsOf id = e.descriptor.dependsOn := by
  simp [depsOf, here]

theorem mem_transitiveDeps (distinct : s.order.Nodup)
    (listed : ∀ other, s.entries other ≠ none → other ∈ s.order) (other : String) :
    other ∈ s.transitiveDeps id ↔
      ∃ dep ∈ s.depsOf id, Reaches (fun other => (s.depsOf other).reverse) dep other := by
  have leads : ∀ key, (s.depsOf key).reverse ≠ [] → key ∈ s.order.toFinset := by
    intro key pushes
    refine List.mem_toFinset.mpr (listed key fun absent => pushes ?_)
    simp [depsOf, absent]
  have counted : remaining (fun other => (s.depsOf other).reverse) s.order.toFinset [] =
      (s.order.map fun other => (s.depsOf other).length).sum := by
    simp [remaining, List.sum_toFinset _ distinct]
  obtain ⟨all, ends, exact⟩ := explore_eq leads (Explored.start (s.depsOf id).reverse)
    (show _ ≤ s.depsBound id by rw [List.length_reverse, counted, depsBound])
  rw [transitiveDeps, ends, Option.getD_some, exact]
  simp only [List.mem_reverse]

-- A pass adds names of entries, and without adding any it has found the dependents closed.
theorem foldl_meetEntry (id : String) (nodes : Nodes) (met : List String × Bool) :
    ∃ more, (nodes.foldl (meetEntry id) met).1 = more ++ met.1 ∧
      (met.1.Nodup → (more ++ met.1).Nodup) ∧ more ⊆ nodes.map Prod.fst ∧
      ((nodes.foldl (meetEntry id) met).2 = true ↔ met.2 = true ∨ more ≠ []) ∧
      (more = [] → ∀ node ∈ nodes,
        node.1 ∈ met.1 ∨ id ∉ node.2 ∧ ∀ dep ∈ node.2, dep ∉ met.1) := by
  induction nodes generalizing met with
  | nil => exact ⟨[], rfl, fun distinct => distinct, by simp, by simp, by simp⟩
  | cons node nodes ih =>
    obtain ⟨more, all, distinct, names, changed, closed⟩ := ih (meetEntry id met node)
    rw [List.foldl_cons]
    by_cases known : node.1 ∈ met.1
    · rw [meetEntry, if_pos known] at all distinct changed closed ⊢
      refine ⟨more, all, distinct, fun name member => List.mem_cons_of_mem _ (names member), changed, ?_⟩
      intro none other member
      rcases List.mem_cons.mp member with rfl | later
      · exact .inl known
      · exact closed none other later
    · by_cases touches : id ∈ node.2 ∨ ∃ dep ∈ node.2, dep ∈ met.1
      · rw [meetEntry, if_neg known, if_pos touches] at all distinct changed closed ⊢
        refine ⟨more ++ [node.1], by rw [all]; simp, fun before => ?_, ?_, ?_, by simp⟩
        · simpa using distinct (List.nodup_cons.mpr ⟨known, before⟩)
        · intro name member
          rcases List.mem_append.mp member with later | own
          · exact List.mem_cons_of_mem _ (names later)
          · exact List.mem_cons.mpr (.inl (List.mem_singleton.mp own))
        · simp [changed]
      · rw [meetEntry, if_neg known, if_neg touches] at all distinct changed closed ⊢
        refine ⟨more, all, distinct, fun name member => List.mem_cons_of_mem _ (names member), changed, ?_⟩
        intro none other member
        rcases List.mem_cons.mp member with rfl | later
        · exact .inr ⟨fun declared => touches (.inl declared),
            fun dep declared inside => touches (.inr ⟨dep, declared, inside⟩)⟩
        · exact closed none other later

theorem dependentsLoop_closed (id : String) (nodes : Nodes) {fuel : Nat} {dependents : List String}
    (distinct : dependents.Nodup) (names : dependents ⊆ nodes.map Prod.fst)
    (enough : nodes.length < fuel + dependents.length) :
    ∀ node ∈ nodes, (id ∈ node.2 ∨ ∃ dep ∈ node.2, dep ∈ dependentsLoop id nodes fuel dependents) →
      node.1 ∈ dependentsLoop id nodes fuel dependents := by
  induction fuel generalizing dependents with
  | zero =>
    have bound := (List.subperm_of_subset distinct names).length_le
    rw [List.length_map] at bound
    omega
  | succ fuel ih =>
    obtain ⟨more, all, next, among, changed, closed⟩ := foldl_meetEntry id nodes (dependents, false)
    rw [dependentsLoop]
    cases pass : dependentsPass id nodes dependents with
    | mk found new =>
      have pass : nodes.foldl (meetEntry id) (dependents, false) = (found, new) := pass
      rw [pass] at all changed
      obtain rfl : found = more ++ dependents := all
      cases new with
      | true =>
        have grown : more ≠ [] := by simpa using changed
        have longer := List.length_pos_iff.mpr grown
        refine ih (next distinct) (List.append_subset.mpr ⟨among, names⟩) ?_
        rw [List.length_append]
        omega
      | false =>
        obtain rfl : more = [] := by simpa using changed
        intro node member touches
        rcases closed rfl node member with known | ⟨apart, none⟩
        · exact known
        · rcases touches with declared | ⟨dep, declared, inside⟩
          · exact absurd declared apart
          · exact absurd inside (none dep declared)

theorem mem_transitiveDependents {other : String} {deps : List String} (there : (other, deps) ∈ s.nodes)
    (touches : id ∈ deps ∨ ∃ dep ∈ deps, dep ∈ s.transitiveDependents id) :
    other ∈ s.transitiveDependents id :=
  dependentsLoop_closed id s.nodes List.nodup_nil (List.nil_subset _) (by simp) _ there touches

end State

end Firefly.Plugins
