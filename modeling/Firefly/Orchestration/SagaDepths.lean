import Firefly.Shared.Layering
import Firefly.Orchestration.SagaOrder

set_option autoImplicit false

namespace Firefly.Orchestration.Saga

open Layering

variable {σ : Type} {n : Nat}

def Before (deps : Fin n → List (Fin n)) (i j : Fin n) : Prop :=
  ∃ d e, AtDepth deps i d ∧ AtDepth deps j e ∧ (d < e ∨ d = e ∧ i < j)

structure Sorting (deps : Fin n → List (Fin n)) (k : Nat) (order ready : List (Fin n)) : Prop where
  sorted : order.Pairwise (Before deps)
  visited : ∀ i ∈ order, ∃ d < k, AtDepth deps i d
  ready : ∀ i ∈ ready, AtDepth deps i k

variable {deps : Fin n → List (Fin n)}

theorem Sorting.append {k : Nat} {order ready : List (Fin n)} (sorting : Sorting deps k order ready)
    (distinct : ready.Nodup) :
    (order ++ ready.insertionSort (· ≤ ·)).Pairwise (Before deps) := by
  rw [List.pairwise_append]
  refine ⟨sorting.sorted, ?_, ?_⟩
  · have ascending : (ready.insertionSort (· ≤ ·)).Pairwise (· ≤ ·) := List.pairwise_insertionSort _ _
    have apart : (ready.insertionSort (· ≤ ·)).Nodup :=
      (List.perm_insertionSort _ _).nodup_iff.mpr distinct
    refine (ascending.and apart).imp_of_mem ?_
    intro i j first second less
    have one := sorting.ready i ((List.perm_insertionSort _ _).mem_iff.mp first)
    have other := sorting.ready j ((List.perm_insertionSort _ _).mem_iff.mp second)
    exact ⟨k, k, one, other, .inr ⟨rfl, lt_of_le_of_ne less.1 less.2⟩⟩
  · intro i earlier j later
    obtain ⟨d, below, at_d⟩ := sorting.visited i earlier
    exact ⟨d, k, at_d, sorting.ready j ((List.perm_insertionSort _ _).mem_iff.mp later), .inl below⟩

-- A node that becomes ready waited for a node of the layer just visited.
theorem Sorting.next {k : Nat} {inDegree inDegree' : Fin n → Nat} {order ready next : List (Fin n)}
    (sorting : Sorting deps k order ready) (before : Draining deps inDegree order ready)
    (after : Draining deps inDegree' (order ++ ready.insertionSort (· ≤ ·)) next) :
    Sorting deps (k + 1) (order ++ ready.insertionSort (· ≤ ·)) next := by
  have layer : ∀ i, i ∈ ready.insertionSort (· ≤ ·) ↔ i ∈ ready := fun i =>
    (List.perm_insertionSort _ _).mem_iff
  have distinct : ready.Nodup := (List.nodup_append.mp before.distinct).2.1
  refine ⟨sorting.append distinct, ?_, ?_⟩
  · intro i listed
    rcases List.mem_append.mp listed with earlier | now
    · obtain ⟨d, below, at_d⟩ := sorting.visited i earlier
      exact ⟨d, by omega, at_d⟩
    · exact ⟨k, by omega, sorting.ready i ((layer i).mp now)⟩
  · intro i becomes
    obtain ⟨fresh, zero⟩ := (after.free i).mp becomes
    simp only [List.mem_append, layer, not_or] at fresh
    have waited : inDegree i ≠ 0 := fun none => fresh.2 ((before.free i).mpr ⟨fresh.1, none⟩)
    rw [before.degree, ← Nat.pos_iff_ne_zero, List.countP_pos_iff] at waited
    obtain ⟨b, dependency, missing⟩ := waited
    have resolved : ∀ c ∈ deps i, c ∈ order ∨ c ∈ ready := by
      rw [after.degree, List.countP_eq_zero] at zero
      intro c member
      have listed := zero c member
      simp only [decide_not, Bool.not_eq_eq_eq_not, Bool.not_true, decide_eq_false_iff_not,
        not_not, List.mem_append, layer] at listed
      exact listed
    have released : b ∈ ready := (resolved b dependency).resolve_left (by simpa using missing)
    refine atDepth_succ dependency (sorting.ready b released) ?_
    intro c member
    rcases resolved c member with earlier | now
    · obtain ⟨d, below, at_d⟩ := sorting.visited c earlier
      exact ⟨d, by omega, at_d⟩
    · exact ⟨k, le_rfl, sorting.ready c now⟩

theorem drainLayers_sorted {dependents : Fin n → List (Fin n)}
    (edges : ∀ d j, (dependents d).count j = (deps j).count d) (fuel k : Nat)
    (inDegree : Fin n → Nat) (order ready : List (Fin n))
    (draining : Draining deps inDegree order ready) (sorting : Sorting deps k order ready) :
    (drainLayers dependents fuel inDegree order ready).Pairwise (Before deps) := by
  induction fuel generalizing k inDegree order ready with
  | zero => exact sorting.sorted
  | succ fuel ih =>
    rw [drainLayers]
    split
    next => exact sorting.sorted
    next =>
      have layer := Draining.foldl_visit edges (ready.insertionSort (· ≤ ·)) ⟨inDegree, order, []⟩
        (by simpa using draining.perm (List.perm_insertionSort _ _).symm)
      dsimp only at layer
      have later := ih (k + 1) _ _ _ layer.2 (sorting.next draining layer.2)
      rw [← layer.1] at later
      exact later

theorem buildIndex_ok_iff (saga : Saga σ) (done rest : List (Fin saga.size))
    (index : Std.TreeMap String (Fin saga.size))
    (known : ∀ name, name ∈ index ↔ ∃ i ∈ done, saga.nameOf i = name) :
    (∃ result, saga.buildIndex rest index = .ok result) ↔
      (rest.map saga.nameOf).Nodup ∧ ∀ i ∈ rest, ∀ j ∈ done, saga.nameOf i ≠ saga.nameOf j := by
  induction rest generalizing done index with
  | nil => simp [buildIndex]
  | cons a rest ih =>
    rw [buildIndex]
    by_cases taken : saga.nameOf a ∈ index
    · obtain ⟨j, earlier, same⟩ := (known _).mp taken
      rw [if_pos taken]
      constructor
      · rintro ⟨result, error⟩
        cases error
      · rintro ⟨-, apart⟩
        exact absurd same.symm (apart a (by simp) j earlier)
    · rw [if_neg taken, ih (done ++ [a])]
      · have fresh : ∀ j ∈ done, saga.nameOf a ≠ saga.nameOf j := fun j member same =>
          taken ((known _).mpr ⟨j, member, same.symm⟩)
        simp only [List.map_cons, List.nodup_cons, List.mem_map, List.mem_append, List.mem_cons,
          List.not_mem_nil, or_false]
        constructor
        · rintro ⟨distinct, apart⟩
          refine ⟨⟨?_, distinct⟩, ?_⟩
          · rintro ⟨i, member, same⟩
            exact apart i member a (.inr rfl) same
          · rintro i (rfl | member) j earlier
            · exact fresh j earlier
            · exact apart i member j (.inl earlier)
        · rintro ⟨⟨alone, distinct⟩, apart⟩
          refine ⟨distinct, ?_⟩
          rintro i member j (earlier | rfl)
          · exact apart i (.inr member) j earlier
          · exact fun same => alone ⟨i, member, same⟩
      · intro name
        rw [Std.TreeMap.mem_insert, known]
        simp only [compare_eq_iff_eq, List.mem_append, List.mem_cons, List.not_mem_nil, or_false]
        constructor
        · rintro (rfl | ⟨i, member, same⟩)
          · exact ⟨a, .inr rfl, rfl⟩
          · exact ⟨i, .inl member, same⟩
        · rintro ⟨i, member | rfl, same⟩
          · exact .inr ⟨i, member, same⟩
          · exact .inl same

theorem addDependencies_ok_iff (saga : Saga σ) (index : Std.TreeMap String (Fin saga.size))
    (i : Fin saga.size) (names : List String) (edges : Edges saga.size) :
    (∃ result, saga.addDependencies index i names edges = .ok result) ↔
      ∀ dep ∈ names, ∃ j, index[dep]? = some j ∧ j ≠ i := by
  induction names generalizing edges with
  | nil => simp [addDependencies]
  | cons dep names ih =>
    rw [addDependencies]
    cases found : index[dep]? with
    | none => simp [found]
    | some source =>
      by_cases own : source = i
      · simp [found, own]
      · simp [found, own, ih]

theorem addEdges_ok_iff (saga : Saga σ) (index : Std.TreeMap String (Fin saga.size))
    (rest : List (Fin saga.size)) (edges : Edges saga.size) :
    (∃ result, saga.addEdges index rest edges = .ok result) ↔
      ∀ i ∈ rest, ∀ dep ∈ (saga.stepAt i).dependsOn, ∃ j, index[dep]? = some j ∧ j ≠ i := by
  induction rest generalizing edges with
  | nil => simp [addEdges]
  | cons i rest ih =>
    have head := addDependencies_ok_iff saga index i (saga.stepAt i).dependsOn edges
    rw [addEdges]
    cases added : saga.addDependencies index i (saga.stepAt i).dependsOn edges with
    | error message =>
      rw [added] at head
      have refused := mt head.mpr (by rintro ⟨result, same⟩; cases same)
      simp only [List.mem_cons, forall_eq_or_imp]
      constructor
      · rintro ⟨result, same⟩
        cases same
      · rintro ⟨resolved, -⟩
        exact absurd resolved refused
    | ok middle =>
      have resolved := head.mp ⟨middle, added⟩
      simp only [ih, List.mem_cons, forall_eq_or_imp]
      exact ⟨fun later => ⟨resolved, later⟩, fun both => both.2⟩

structure Orderable (saga : Saga σ) : Prop where
  distinct : (saga.steps.map Step.name).Nodup
  others : ∀ i, ∀ dep ∈ (saga.stepAt i).dependsOn, ∃ j, saga.nameOf j = dep ∧ j ≠ i
  acyclic : ∀ i, ¬ Relation.TransGen saga.DependsOn i i

def dependencies (saga : Saga σ) (i : Fin saga.size) : List (Fin saga.size) :=
  (List.finRange saga.size).filter fun j => saga.nameOf j ∈ (saga.stepAt i).dependsOn

theorem names_eq (saga : Saga σ) :
    (List.finRange saga.size).map saga.nameOf = saga.steps.map Step.name := by
  have steps : (List.finRange saga.size).map saga.steps.get = saga.steps := by simp
  calc (List.finRange saga.size).map saga.nameOf
      = ((List.finRange saga.size).map saga.steps.get).map Step.name := by
        rw [List.map_map]
        rfl
    _ = saga.steps.map Step.name := by rw [steps]

section Indexed

variable {saga : Saga σ} {index : Std.TreeMap String (Fin saga.size)}

theorem mem_sources (found : ∀ name i, index[name]? = some i ↔ saga.nameOf i = name)
    (i j : Fin saga.size) : j ∈ saga.sources index i ↔ saga.DependsOn i j := by
  simp only [sources, List.mem_filterMap, found, DependsOn]
  constructor
  · rintro ⟨dep, declared, rfl⟩
    exact declared
  · intro declared
    exact ⟨_, declared, rfl⟩

theorem acyclic_sources (found : ∀ name i, index[name]? = some i ↔ saga.nameOf i = name) :
    Acyclic (List.finRange saga.size) (saga.sources index) ↔
      ∀ i, ¬ Relation.TransGen saga.DependsOn i i := by
  have same : Depends (List.finRange saga.size) (saga.sources index) = saga.DependsOn := by
    funext i j
    simp [Depends, mem_sources found]
  rw [Acyclic, same]

theorem before_dependencies (found : ∀ name i, index[name]? = some i ↔ saga.nameOf i = name)
    {i j : Fin saga.size} (before : Before (saga.sources index) i j) :
    Before saga.dependencies i j := by
  have same : ∀ i j, j ∈ saga.sources index i ↔ j ∈ saga.dependencies i := by
    intro i j
    simp [mem_sources found, dependencies, DependsOn]
  have depth : ∀ {i d}, AtDepth (saga.sources index) i d → AtDepth saga.dependencies i d := by
    intro i d at_d
    exact ⟨at_d.1.congr same, fun k chain => at_d.2 k (chain.congr fun i j => (same i j).symm)⟩
  obtain ⟨d, e, one, other, less⟩ := before
  exact ⟨d, e, depth one, depth other, less⟩

theorem drained_all_iff (found : ∀ name i, index[name]? = some i ↔ saga.nameOf i = name)
    {inDegree : Fin saga.size → Nat} {order : List (Fin saga.size)}
    (drained : Draining (saga.sources index) inDegree order []) :
    order.length = saga.size ↔ ∀ i, ¬ Relation.TransGen saga.DependsOn i i := by
  have distinct : order.Nodup := by simpa using drained.distinct
  let rest := (List.finRange saga.size).filter (· ∉ order)
  have perm : (order ++ rest).Perm (List.finRange saga.size) := by
    rw [List.perm_ext_iff_of_nodup]
    · intro i
      by_cases listed : i ∈ order <;> simp [rest, listed]
    · rw [List.nodup_append]
      refine ⟨distinct, (List.nodup_finRange _).filter _, ?_⟩
      rintro i listed j left rfl
      simp [rest, listed] at left
    · exact List.nodup_finRange _
  have stuck : Stuck (saga.sources index) order rest := by
    intro i left
    have unlisted : i ∉ order := by simpa [rest] using left
    have waits : inDegree i ≠ 0 := fun none => by
      simpa using (drained.free i).mpr ⟨unlisted, none⟩
    rw [drained.degree, ← Nat.pos_iff_ne_zero, List.countP_pos_iff] at waits
    obtain ⟨b, dependency, missing⟩ := waits
    exact ⟨b, dependency, by simpa using missing⟩
  have all := drained_iff perm drained.sorted stuck
  rw [← acyclic_sources found]
  have closed : Closed (List.finRange saga.size) (saga.sources index) :=
    fun _ _ b _ => List.mem_finRange b
  have lengths := perm.length_eq
  rw [List.length_append, List.length_finRange] at lengths
  rw [← List.length_eq_zero_iff] at all
  simp only [closed, true_and] at all
  rw [← all]
  omega

end Indexed

theorem executionOrder_declared (saga : Saga σ)
    (declares : ∃ i, (saga.stepAt i).dependsOn ≠ []) :
    ((∃ order, saga.executionOrder = .ok order) ↔ saga.Orderable) ∧
      ∀ order, saga.executionOrder = .ok order → order.Pairwise (Before saga.dependencies) := by
  have some_edge : ¬ saga.steps.all (fun step => step.dependsOn.isEmpty) = true := by
    intro free
    obtain ⟨i, edge⟩ := declares
    exact edge (executionOrder_insertion saga free i)
  have built_iff := buildIndex_ok_iff saga [] (List.finRange saga.size) ∅ (by simp)
  simp only [names_eq, List.not_mem_nil, false_implies, implies_true, and_true] at built_iff
  rw [executionOrder, if_neg some_edge]
  cases built : saga.buildIndex (List.finRange saga.size) ∅ with
  | error message =>
    rw [built] at built_iff
    have repeated := mt built_iff.mpr (by rintro ⟨result, same⟩; cases same)
    refine ⟨⟨?_, fun orderable => absurd orderable.distinct repeated⟩, ?_⟩
    · rintro ⟨order, same⟩
      cases same
    · intro order same
      cases same
  | ok index =>
    have distinct := built_iff.mp ⟨index, built⟩
    have correct := buildIndex_correct saga [] _ ∅ index built (by simp)
    have found : ∀ name i, index[name]? = some i ↔ saga.nameOf i = name := by
      simpa using correct
    have added_iff := addEdges_ok_iff saga index (List.finRange saga.size)
      ⟨fun _ => 0, fun _ => []⟩
    simp only [List.mem_finRange, true_implies, found] at added_iff
    simp only
    cases added : saga.addEdges index (List.finRange saga.size) ⟨fun _ => 0, fun _ => []⟩ with
    | error message =>
      rw [added] at added_iff
      have unresolved := mt added_iff.mpr (by rintro ⟨result, same⟩; cases same)
      refine ⟨⟨?_, fun orderable => absurd orderable.others unresolved⟩, ?_⟩
      · rintro ⟨order, same⟩
        cases same
      · intro order same
        cases same
    | ok edges =>
      have others := added_iff.mp ⟨edges, added⟩
      obtain ⟨counts, start⟩ := draining_start added
      obtain ⟨final, drained⟩ := drainLayers_correct counts (saga.size + 1) _ [] _ (by simp) start
      have acyclic := drained_all_iff found drained
      have roots : Sorting (saga.sources index) 0 []
          ((List.finRange saga.size).filter fun i => edges.inDegree i = 0) := by
        refine ⟨.nil, by simp, ?_⟩
        intro i free
        apply atDepth_zero
        have none := start.degree i
        rw [((start.free i).mp free).2, eq_comm, List.countP_eq_zero] at none
        exact List.eq_nil_iff_forall_not_mem.mpr (by simpa using none)
      have sorted := drainLayers_sorted counts (saga.size + 1) 0 _ [] _ start roots
      simp only
      split
      next short =>
        refine ⟨⟨?_, fun orderable => absurd (acyclic.mpr orderable.acyclic) short⟩, ?_⟩
        · rintro ⟨order, same⟩
          cases same
        · intro order same
          cases same
      next all =>
        refine ⟨⟨fun _ => ⟨distinct, others, acyclic.mp (not_not.mp all)⟩, fun _ => ⟨_, rfl⟩⟩, ?_⟩
        intro order same
        obtain rfl := Except.ok.inj same
        exact sorted.imp (before_dependencies found)

theorem executionOrder_by_depth (saga : Saga σ) :
    ((∀ i, (saga.stepAt i).dependsOn = []) →
      saga.executionOrder = .ok (List.finRange saga.size)) ∧
    ((∃ i, (saga.stepAt i).dependsOn ≠ []) →
      ((∃ order, saga.executionOrder = .ok order) ↔ saga.Orderable) ∧
      ∀ order, saga.executionOrder = .ok order →
        saga.ValidOrder order ∧ order.Pairwise (Before saga.dependencies)) := by
  constructor
  · intro free
    have none : saga.steps.all (fun step => step.dependsOn.isEmpty) = true := by
      rw [List.all_eq_true]
      intro step member
      obtain ⟨i, rfl⟩ := List.get_of_mem member
      simpa [stepAt] using free i
    rw [executionOrder, if_pos none]
  · intro declares
    obtain ⟨orderable, sorted⟩ := executionOrder_declared saga declares
    exact ⟨orderable, fun order computed =>
      ⟨executionOrder_valid saga order computed, sorted order computed⟩⟩

end Firefly.Orchestration.Saga
