import Firefly.Orchestration.SagaOrder
import Firefly.Shared.Text

set_option autoImplicit false

namespace Firefly.Plugins

open Layering Text Orchestration.Saga

inductive ResolutionError where
  | missingDependency (plugin missing : String)
  | cycle
deriving DecidableEq, Repr

def ResolutionError.toString : ResolutionError → String
  | .missingDependency plugin missing =>
    "plugin " ++ debugStr plugin ++ " depends on missing plugin " ++ debugStr missing
  | .cycle => "plugin dependency cycle detected"

abbrev Nodes := List (String × List String)

variable {nodes : Nodes}

def indexOf (nodes : Nodes) (name : String) : Option (Fin nodes.length) :=
  nodes.findFinIdx? fun node => node.1 = name

def missing (nodes : Nodes) : Option ResolutionError :=
  nodes.findSome? fun node =>
    (node.2.find? fun dep => (indexOf nodes dep).isNone).map (.missingDependency node.1 ·)

def inDegree (nodes : Nodes) (i : Fin nodes.length) : Nat := (nodes.get i).2.length

def dependents (nodes : Nodes) (d : Fin nodes.length) : List (Fin nodes.length) :=
  (List.finRange nodes.length).flatMap fun i =>
    (nodes.get i).2.filterMap fun dep => if indexOf nodes dep = some d then some i else none

-- `ready` is a set; its first element is the smallest one.
def drainReady {n : Nat} (dependents : Fin n → List (Fin n)) :
    Nat → (Fin n → Nat) → List (Fin n) → List (Fin n) → List (Fin n)
  | 0, _, ordered, _ => ordered
  | fuel + 1, inDegree, ordered, ready =>
    match ready.insertionSort (· ≤ ·) with
    | [] => ordered
    | current :: rest =>
      let visited := Drain.visit dependents ⟨inDegree, ordered, rest⟩ current
      drainReady dependents fuel visited.inDegree visited.order visited.next

def topologicalOrder (nodes : Nodes) : Except ResolutionError (List (Fin nodes.length)) :=
  match missing nodes with
  | some error => .error error
  | none =>
    let ready := (List.finRange nodes.length).filter fun i => inDegree nodes i = 0
    let ordered := drainReady (dependents nodes) (nodes.length + 1) (inDegree nodes) [] ready
    if ordered.length ≠ nodes.length then .error .cycle else .ok ordered

example : topologicalOrder [("c", ["b"]), ("a", []), ("b", ["a"])] = .ok [1, 2, 0] := by decide

def sources (nodes : Nodes) (i : Fin nodes.length) : List (Fin nodes.length) :=
  (nodes.get i).2.filterMap (indexOf nodes)

theorem name_of_indexOf {name : String} {i : Fin nodes.length} (found : indexOf nodes name = some i) :
    (nodes.get i).1 = name := by
  have holds := (List.findFinIdx?_eq_some_iff.mp found).1
  simpa using holds

theorem indexOf_of_missing {i : Fin nodes.length} {dep : String} (clean : missing nodes = none)
    (declared : dep ∈ (nodes.get i).2) : ∃ d, indexOf nodes dep = some d := by
  have here := List.findSome?_eq_none_iff.mp clean (nodes.get i) (List.get_mem nodes i)
  have known := List.find?_eq_none.mp (Option.map_eq_none_iff.mp here) dep declared
  exact Option.ne_none_iff_exists'.mp (by simpa using known)

theorem count_dependents (nodes : Nodes) (d j : Fin nodes.length) :
    (dependents nodes d).count j = (sources nodes j).count d := by
  have own : ∀ deps : List String, List.count j (deps.filterMap fun dep =>
      if indexOf nodes dep = some d then some j else none) =
        (deps.filterMap (indexOf nodes)).count d := by
    intro deps
    induction deps with
    | nil => rfl
    | cons dep rest ih =>
      cases found : indexOf nodes dep with
      | none => simpa [List.filterMap_cons, found] using ih
      | some e =>
        by_cases same : e = d
        · subst same
          simp [found, ih]
        · simp [found, ih, same, List.count_cons_of_ne]
  rw [dependents, List.count_flatMap, ← Fin.sum_univ_def, Finset.sum_eq_single j]
  · exact own _
  · intro i _ differs
    refine List.count_eq_zero.mpr fun among => ?_
    obtain ⟨dep, -, same⟩ := List.mem_filterMap.mp among
    split at same
    · exact differs (Option.some.inj same)
    · cases same
  · exact fun absent => absurd (Finset.mem_univ j) absent

theorem drainReady_correct {n : Nat} {deps : Fin n → List (Fin n)}
    {dependents : Fin n → List (Fin n)}
    (edges : ∀ d j, (dependents d).count j = (deps j).count d) (fuel : Nat) (inDegree : Fin n → Nat)
    (ordered ready : List (Fin n)) (enough : n < fuel + ordered.length)
    (draining : Draining deps inDegree ordered ready) :
    ∃ final, Draining deps final (drainReady dependents fuel inDegree ordered ready) [] := by
  induction fuel generalizing inDegree ordered ready with
  | zero =>
    have bound := draining.length_le
    omega
  | succ fuel ih =>
    have sorted := draining.perm (List.perm_insertionSort (· ≤ ·) ready).symm
    rw [drainReady]
    cases first : ready.insertionSort (· ≤ ·) with
    | nil =>
      rw [first] at sorted
      exact ⟨inDegree, sorted⟩
    | cons current rest =>
      rw [first] at sorted
      have alone : Draining deps inDegree ordered (current :: ([] ++ rest)) := sorted
      obtain ⟨order, next⟩ := alone.visit edges
      refine ih _ _ _ ?_ ?_
      · rw [order, List.length_append, List.length_singleton]
        omega
      · rw [order]
        exact next

theorem topologicalOrder_ok {order : List (Fin nodes.length)}
    (resolved : topologicalOrder nodes = .ok order) :
    order.Perm (List.finRange nodes.length) ∧
      ∀ before i after, order = before ++ i :: after → ∀ dep ∈ (nodes.get i).2,
        ∃ d ∈ before, (nodes.get d).1 = dep := by
  unfold topologicalOrder at resolved
  cases clean : missing nodes with
  | some error => simp [clean] at resolved
  | none =>
    simp only [clean] at resolved
    split at resolved
    · cases resolved
    next full =>
      obtain rfl := Except.ok.inj resolved
      have degree : ∀ i, inDegree nodes i = (sources nodes i).length := by
        intro i
        have all : ∀ deps : List String, (∀ dep ∈ deps, ∃ d, indexOf nodes dep = some d) →
            deps.length = (deps.filterMap (indexOf nodes)).length := by
          intro deps known
          induction deps with
          | nil => rfl
          | cons dep rest ih =>
            obtain ⟨d, found⟩ := known dep List.mem_cons_self
            have rest := ih fun dep member => known dep (List.mem_cons_of_mem _ member)
            simp [found, rest]
        exact all _ fun dep declared => indexOf_of_missing clean declared
      have initial : Draining (sources nodes) (inDegree nodes) []
          ((List.finRange nodes.length).filter fun i => inDegree nodes i = 0) := by
        refine ⟨?_, fun d => ?_, fun d => ?_, topological_nil _⟩
        · simpa using (List.nodup_finRange nodes.length).filter _
        · simp [degree]
        · simp
      obtain ⟨final, drained⟩ := drainReady_correct (count_dependents nodes) (nodes.length + 1)
        (inDegree nodes) [] _ (by simp) initial
      have distinct := drained.distinct
      rw [List.append_nil] at distinct
      refine ⟨?_, fun before i after split dep declared => ?_⟩
      · refine (List.subperm_of_subset distinct fun i _ => List.mem_finRange i).perm_of_length_le ?_
        rw [List.length_finRange]
        omega
      · obtain ⟨d, found⟩ := indexOf_of_missing clean declared
        exact ⟨d, drained.sorted before i after split d (List.mem_filterMap.mpr ⟨dep, declared, found⟩),
          name_of_indexOf found⟩

end Firefly.Plugins
