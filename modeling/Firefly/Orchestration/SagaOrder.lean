import Firefly.Shared.Layering
import Firefly.Orchestration.Saga

set_option autoImplicit false

namespace Firefly.Orchestration.Saga

open Layering

variable {σ : Type}

theorem buildIndex_correct (saga : Saga σ) (done rest : List (Fin saga.size))
    (index result : Std.TreeMap String (Fin saga.size))
    (built : saga.buildIndex rest index = .ok result)
    (correct : ∀ name i, index[name]? = some i ↔ i ∈ done ∧ saga.nameOf i = name) :
    ∀ name i, result[name]? = some i ↔ i ∈ done ++ rest ∧ saga.nameOf i = name := by
  induction rest generalizing done index with
  | nil =>
    obtain rfl : index = result := by simpa [buildIndex] using built
    simpa using correct
  | cons a rest ih =>
    rw [buildIndex] at built
    split at built
    · simp at built
    · rename_i fresh
      have next := ih (done ++ [a]) (index.insert (saga.nameOf a) a) built
      have absent : index[saga.nameOf a]? = none := Std.TreeMap.getElem?_eq_none fresh
      have grown : ∀ name i, (index.insert (saga.nameOf a) a)[name]? = some i ↔
          i ∈ done ++ [a] ∧ saga.nameOf i = name := by
        intro name i
        rw [Std.TreeMap.getElem?_insert]
        by_cases same : saga.nameOf a = name
        · subst same
          have others : ∀ j ∈ done, saga.nameOf j ≠ saga.nameOf a := by
            intro j member clash
            have found := (correct (saga.nameOf a) j).mpr ⟨member, clash⟩
            rw [absent] at found
            cases found
          simp only [compare_eq_iff_eq, if_true, Option.some.injEq, List.mem_append,
            List.mem_singleton]
          constructor
          · rintro rfl
            exact ⟨.inr rfl, rfl⟩
          · rintro ⟨old | new, named⟩
            · exact absurd named (others i old)
            · exact new.symm
        · have differs : compare (saga.nameOf a) name ≠ .eq := by simpa using same
          simp only [differs, if_false, correct, List.mem_append, List.mem_singleton]
          constructor
          · rintro ⟨old, named⟩
            exact ⟨.inl old, named⟩
          · rintro ⟨old | rfl, named⟩
            · exact ⟨old, named⟩
            · exact absurd named same
      simpa using next grown

def sources (saga : Saga σ) (index : Std.TreeMap String (Fin saga.size)) (i : Fin saga.size) :
    List (Fin saga.size) :=
  (saga.stepAt i).dependsOn.filterMap fun dep => index[dep]?

theorem addDependencies_correct (saga : Saga σ) (index : Std.TreeMap String (Fin saga.size))
    (i : Fin saga.size) (deps : List String) (edges result : Edges saga.size)
    (added : saga.addDependencies index i deps edges = .ok result) :
    ∃ resolved : List (Fin saga.size),
      deps.map (fun dep => index[dep]?) = resolved.map some ∧ i ∉ resolved ∧
      (∀ j, result.inDegree j = edges.inDegree j + if j = i then resolved.length else 0) ∧
      ∀ d j, (result.dependents d).count j =
        (edges.dependents d).count j + if j = i then resolved.count d else 0 := by
  induction deps generalizing edges with
  | nil =>
    obtain rfl : edges = result := by simpa [addDependencies] using added
    exact ⟨[], by simp⟩
  | cons dep deps ih =>
    rw [addDependencies] at added
    cases found : index[dep]? with
    | none => simp [found] at added
    | some source =>
      simp only [found] at added
      split at added
      · simp at added
      · rename_i other
        obtain ⟨resolved, names, notSelf, degrees, targets⟩ := ih (edges.push source i) added
        refine ⟨source :: resolved, by simp [found, names], ?_, ?_, ?_⟩
        · simpa [Ne.symm other] using notSelf
        · intro j
          rw [degrees]
          by_cases same : j = i
          · simp [Edges.push, same]; omega
          · simp [Edges.push, same]
        · intro d j
          rw [targets]
          by_cases head : d = source
          · subst head
            by_cases same : j = i
            · subst same
              simp [Edges.push]; omega
            · simp [Edges.push, same, List.count_append, Ne.symm same]
          · simp [Edges.push, head, Ne.symm head]

theorem filterMap_of_map_some {α β : Type} {f : α → Option β} {xs : List α} {ys : List β}
    (same : xs.map f = ys.map some) : xs.filterMap f = ys := by
  have step : xs.filterMap f = (xs.map f).filterMap id := by simp [List.filterMap_map]
  rw [step, same]
  simp [List.filterMap_map]

theorem addEdges_correct (saga : Saga σ) (index : Std.TreeMap String (Fin saga.size))
    (rest : List (Fin saga.size)) (edges result : Edges saga.size) (distinct : rest.Nodup)
    (added : saga.addEdges index rest edges = .ok result) :
    (∀ j ∈ rest, (saga.stepAt j).dependsOn.map (fun dep => index[dep]?) =
        (saga.sources index j).map some ∧ j ∉ saga.sources index j) ∧
      (∀ j, result.inDegree j =
        edges.inDegree j + if j ∈ rest then (saga.sources index j).length else 0) ∧
      ∀ d j, (result.dependents d).count j =
        (edges.dependents d).count j + if j ∈ rest then (saga.sources index j).count d else 0 := by
  induction rest generalizing edges with
  | nil =>
    obtain rfl : edges = result := by simpa [addEdges] using added
    simp
  | cons i rest ih =>
    rw [addEdges] at added
    cases head : saga.addDependencies index i (saga.stepAt i).dependsOn edges with
    | error message => simp [head] at added
    | ok middle =>
      simp only [head] at added
      obtain ⟨resolved, names, notSelf, degrees, targets⟩ :=
        addDependencies_correct saga index i _ edges middle head
      have resolvedEq : saga.sources index i = resolved := filterMap_of_map_some names
      obtain ⟨fresh, distinctTail⟩ := List.nodup_cons.mp distinct
      obtain ⟨tailNames, tailDegrees, tailTargets⟩ := ih middle distinctTail added
      refine ⟨?_, ?_, ?_⟩
      · intro j member
        rcases List.mem_cons.mp member with rfl | member
        · exact resolvedEq ▸ ⟨names, notSelf⟩
        · exact tailNames j member
      · intro j
        rw [tailDegrees, degrees]
        by_cases same : j = i
        · subst same
          simp [fresh, resolvedEq]
        · simp [same]
      · intro d j
        rw [tailTargets, targets]
        by_cases same : j = i
        · subst same
          simp [fresh, resolvedEq]
        · simp [same]

structure Draining {n : Nat} (deps : Fin n → List (Fin n)) (inDegree : Fin n → Nat)
    (order waiting : List (Fin n)) : Prop where
  distinct : (order ++ waiting).Nodup
  degree : ∀ d, inDegree d = (deps d).countP (· ∉ order)
  free : ∀ d, d ∈ waiting ↔ d ∉ order ∧ inDegree d = 0
  sorted : Topological deps order

variable {n : Nat} {deps : Fin n → List (Fin n)}

theorem Draining.perm {inDegree : Fin n → Nat} {order waiting other : List (Fin n)}
    (draining : Draining deps inDegree order waiting) (perm : waiting.Perm other) :
    Draining deps inDegree order other where
  distinct := (perm.append_left order).nodup_iff.mp draining.distinct
  degree := draining.degree
  free d := perm.mem_iff.symm.trans (draining.free d)
  sorted := draining.sorted

theorem Draining.visited_zero {inDegree : Fin n → Nat} {order waiting : List (Fin n)}
    (draining : Draining deps inDegree order waiting) {d : Fin n} (visited : d ∈ order) :
    inDegree d = 0 := by
  obtain ⟨before, after, split⟩ := List.append_of_mem visited
  rw [draining.degree, List.countP_eq_zero]
  intro b dependency
  have earlier := draining.sorted before d after split b dependency
  simp [split, earlier]

theorem foldl_release (targets : List (Fin n)) (state : Drain n)
    (bound : ∀ d, targets.count d ≤ state.inDegree d) :
    (targets.foldl Drain.release state).order = state.order ∧
      (∀ d, (targets.foldl Drain.release state).inDegree d = state.inDegree d - targets.count d) ∧
      ∃ fresh : List (Fin n), (targets.foldl Drain.release state).next = state.next ++ fresh ∧
        fresh.Nodup ∧ ∀ d, d ∈ fresh ↔ d ∈ targets ∧ targets.count d = state.inDegree d := by
  induction targets generalizing state with
  | nil => exact ⟨rfl, by simp, [], by simp⟩
  | cons a targets ih =>
    have headBound := bound a
    rw [List.count_cons_self] at headBound
    have tailBound : ∀ d, targets.count d ≤ (state.release a).inDegree d := by
      intro d
      by_cases same : d = a
      · subst same
        simp [Drain.release]
        omega
      · have old := bound d
        rw [List.count_cons_of_ne (Ne.symm same)] at old
        simpa [Drain.release, same] using old
    obtain ⟨sameOrder, degrees, fresh, next, freshNodup, freshIff⟩ := ih (state.release a) tailBound
    refine ⟨sameOrder, ?_, ?_⟩
    · intro d
      rw [List.foldl_cons, degrees]
      by_cases same : d = a
      · subst same
        simp [Drain.release]
        omega
      · simp [Drain.release, same, List.count_cons_of_ne (Ne.symm same)]
    · have others : ∀ d, d ≠ a → (d ∈ fresh ↔
          d ∈ a :: targets ∧ (a :: targets).count d = state.inDegree d) := by
        intro d differs
        rw [freshIff]
        simp [Drain.release, differs, List.count_cons_of_ne (Ne.symm differs)]
      -- `a` is released for good exactly when its last pending edge is this one.
      by_cases last : state.inDegree a - 1 = 0
      · have gone : a ∉ targets := by
          rw [← List.count_eq_zero]
          omega
        have absent : a ∉ fresh := fun member => gone ((freshIff a).mp member).1
        refine ⟨a :: fresh, ?_, List.nodup_cons.mpr ⟨absent, freshNodup⟩, ?_⟩
        · rw [List.foldl_cons, next]
          simp [Drain.release, last]
        · intro d
          by_cases same : d = a
          · subst same
            have none : targets.count d = 0 := List.count_eq_zero.mpr gone
            simp [none]
            omega
          · simp [same, others d same, List.count_cons_of_ne (Ne.symm same)]
      · refine ⟨fresh, ?_, freshNodup, ?_⟩
        · rw [List.foldl_cons, next]
          simp [Drain.release, last]
        · intro d
          by_cases same : d = a
          · subst same
            rw [freshIff]
            have released : (state.release d).inDegree d = state.inDegree d - 1 := by
              simp [Drain.release]
            rw [released, List.count_cons_self]
            constructor
            · rintro ⟨_, total⟩
              exact ⟨by simp, by omega⟩
            · rintro ⟨_, total⟩
              refine ⟨?_, by omega⟩
              rw [← List.count_pos_iff]
              omega
          · exact others d same

theorem countP_notMem_concat (xs order : List (Fin n)) (i : Fin n) (fresh : i ∉ order) :
    xs.countP (· ∉ order ++ [i]) = xs.countP (· ∉ order) - xs.count i := by
  have total : xs.countP (· ∉ order ++ [i]) + xs.count i = xs.countP (· ∉ order) := by
    induction xs with
    | nil => simp
    | cons x xs ih =>
      by_cases same : x = i
      · subst same
        simp [fresh] at ih ⊢
        omega
      · by_cases member : x ∈ order
        · simp [member, same] at ih ⊢
          omega
        · simp [member, same] at ih ⊢
          omega
  omega

theorem Draining.visit {dependents : Fin n → List (Fin n)} {inDegree : Fin n → Nat}
    {order todo next : List (Fin n)} {i : Fin n}
    (edges : ∀ d j, (dependents d).count j = (deps j).count d)
    (draining : Draining deps inDegree order (i :: (todo ++ next))) :
    ((Drain.visit dependents ⟨inDegree, order, next⟩ i).order = order ++ [i]) ∧
      Draining deps (Drain.visit dependents ⟨inDegree, order, next⟩ i).inDegree (order ++ [i])
        (todo ++ (Drain.visit dependents ⟨inDegree, order, next⟩ i).next) := by
  obtain ⟨unvisited, zero⟩ := (draining.free i).mp (by simp)
  have bound : ∀ d, (dependents i).count d ≤ inDegree d := by
    intro d
    rw [edges, draining.degree]
    rw [List.count_eq_countP]
    apply List.countP_mono_left
    intro x _ hit
    have same : x = i := by simpa using hit
    simpa [same] using unvisited
  obtain ⟨sameOrder, degrees, fresh, nextEq, freshNodup, freshIff⟩ :=
    foldl_release (dependents i) ⟨inDegree, order ++ [i], next⟩ bound
  have degreeEq : ∀ d, (Drain.visit dependents ⟨inDegree, order, next⟩ i).inDegree d =
      (deps d).countP (· ∉ order ++ [i]) := by
    intro d
    rw [countP_notMem_concat _ _ _ unvisited, ← draining.degree, ← edges]
    exact degrees d
  have freshMem : ∀ d, d ∈ fresh ↔ 0 < inDegree d ∧ inDegree d - (dependents i).count d = 0 := by
    intro d
    have limit := bound d
    rw [freshIff, ← List.count_pos_iff]
    constructor
    · rintro ⟨some, all⟩
      have all : (dependents i).count d = inDegree d := all
      exact ⟨by omega, by omega⟩
    · rintro ⟨some, none⟩
      refine ⟨by omega, ?_⟩
      change (dependents i).count d = inDegree d
      omega
  have nextIs : (Drain.visit dependents ⟨inDegree, order, next⟩ i).next = next ++ fresh := nextEq
  refine ⟨sameOrder, ?_, degreeEq, ?_, ?_⟩
  · have old := draining.distinct
    have apart : ∀ d ∈ fresh, d ∉ order ++ [i] ++ (todo ++ next) := by
      intro d member listed
      have positive := ((freshMem d).mp member).1
      rcases List.mem_append.mp listed with visited | waiting
      · rcases List.mem_append.mp visited with visited | self
        · have none := draining.visited_zero visited
          omega
        · obtain rfl : d = i := by simpa using self
          omega
      · have zeroDegree := ((draining.free d).mp (List.mem_cons_of_mem _ waiting)).2
        omega
    rw [nextIs]
    have shape : order ++ [i] ++ (todo ++ (next ++ fresh)) =
        (order ++ i :: (todo ++ next)) ++ fresh := by simp
    rw [shape, List.nodup_append']
    refine ⟨old, freshNodup, ?_⟩
    intro d listed member
    exact apart d member (by simpa using listed)
  · intro d
    have step : (Drain.visit dependents ⟨inDegree, order, next⟩ i).inDegree d =
        inDegree d - (dependents i).count d := degrees d
    have old := draining.free d
    rw [nextIs, step]
    by_cases same : d = i
    · subst same
      have split := draining.distinct
      rw [List.nodup_append'] at split
      have alone := (List.nodup_cons.mp split.2.1).1
      have notFresh : d ∉ fresh := fun member => by
        have := ((freshMem d).mp member).1
        omega
      simp only [List.mem_append, not_or] at alone ⊢
      simp [alone.1, alone.2, notFresh]
    · have waiting : d ∈ todo ++ next ↔ d ∉ order ∧ inDegree d = 0 := by
        rw [← old]
        simp [same]
      have assoc : d ∈ todo ++ (next ++ fresh) ↔ d ∈ todo ++ next ∨ d ∈ fresh := by
        simp [or_assoc]
      rw [assoc, waiting, freshMem]
      constructor
      · rintro (⟨absent, none⟩ | ⟨some, none⟩)
        · exact ⟨by simp [absent, same], by omega⟩
        · refine ⟨?_, none⟩
          intro listed
          rcases List.mem_append.mp listed with visited | self
          · have zeroDegree := draining.visited_zero visited
            omega
          · exact same (by simpa using self)
      · rintro ⟨absent, none⟩
        have unlisted : d ∉ order := fun listed => absent (List.mem_append_left _ listed)
        by_cases already : inDegree d = 0
        · exact .inl ⟨unlisted, already⟩
        · exact .inr ⟨by omega, none⟩
  · apply topological_concat draining.sorted
    intro b dependency
    have none := draining.degree i
    rw [zero, eq_comm, List.countP_eq_zero] at none
    simpa using none b dependency

theorem Draining.foldl_visit {dependents : Fin n → List (Fin n)}
    (edges : ∀ d j, (dependents d).count j = (deps j).count d) (todo : List (Fin n))
    (state : Drain n) (draining : Draining deps state.inDegree state.order (todo ++ state.next)) :
    (todo.foldl (Drain.visit dependents) state).order = state.order ++ todo ∧
      Draining deps (todo.foldl (Drain.visit dependents) state).inDegree (state.order ++ todo)
        (todo.foldl (Drain.visit dependents) state).next := by
  induction todo generalizing state with
  | nil => simpa using draining
  | cons i todo ih =>
    obtain ⟨sameOrder, next⟩ := Draining.visit edges (by simpa using draining)
    have later := ih (Drain.visit dependents state i) (by rw [sameOrder]; exact next)
    rw [sameOrder] at later
    simpa using later

theorem Draining.length_le {inDegree : Fin n → Nat} {order waiting : List (Fin n)}
    (draining : Draining deps inDegree order waiting) : order.length + waiting.length ≤ n := by
  have bound := draining.distinct.length_le_card
  simpa using bound

theorem drainLayers_correct {dependents : Fin n → List (Fin n)}
    (edges : ∀ d j, (dependents d).count j = (deps j).count d) (fuel : Nat) (inDegree : Fin n → Nat)
    (order ready : List (Fin n)) (enough : n < fuel + order.length)
    (draining : Draining deps inDegree order ready) :
    ∃ final, Draining deps final (drainLayers dependents fuel inDegree order ready) [] := by
  induction fuel generalizing inDegree order ready with
  | zero =>
    have bound := draining.length_le
    omega
  | succ fuel ih =>
    rw [drainLayers]
    split
    · rename_i empty
      exact ⟨inDegree, empty ▸ draining⟩
    · rename_i nonempty
      have layer := Draining.foldl_visit edges (ready.insertionSort (· ≤ ·)) ⟨inDegree, order, []⟩
        (by simpa using draining.perm (List.perm_insertionSort _ _).symm)
      have positive := List.length_pos_iff.mpr nonempty
      apply ih
      · rw [layer.1]
        simp [List.length_insertionSort]
        omega
      · rw [layer.1]
        exact layer.2

def DependsOn (saga : Saga σ) (i j : Fin saga.size) : Prop :=
  saga.nameOf j ∈ (saga.stepAt i).dependsOn

structure ValidOrder (saga : Saga σ) (order : List (Fin saga.size)) : Prop where
  perm : order.Perm (List.finRange saga.size)
  after : ∀ i j, saga.DependsOn i j → order.idxOf j < order.idxOf i

theorem executionOrder_insertion (saga : Saga σ)
    (free : saga.steps.all (fun step => step.dependsOn.isEmpty) = true) (i : Fin saga.size) :
    (saga.stepAt i).dependsOn = [] := by
  have all := List.all_eq_true.mp free (saga.stepAt i) (List.get_mem _ _)
  simpa using all

theorem draining_start {saga : Saga σ} {index : Std.TreeMap String (Fin saga.size)}
    {edges : Edges saga.size}
    (added : saga.addEdges index (List.finRange saga.size) ⟨fun _ => 0, fun _ => []⟩ = .ok edges) :
    (∀ d j, (edges.dependents d).count j = (saga.sources index j).count d) ∧
      Draining (saga.sources index) edges.inDegree []
        ((List.finRange saga.size).filter fun i => edges.inDegree i = 0) := by
  obtain ⟨-, degrees, targets⟩ :=
    addEdges_correct saga index _ _ edges (List.nodup_finRange _) added
  refine ⟨fun d j => by simpa using targets d j, ?_⟩
  refine ⟨by simpa using (List.nodup_finRange _).filter _, ?_, by simp, topological_nil _⟩
  intro d
  simpa using degrees d

theorem executionOrder_valid (saga : Saga σ) (order : List (Fin saga.size))
    (computed : saga.executionOrder = .ok order) : saga.ValidOrder order := by
  rw [executionOrder] at computed
  split at computed
  · rename_i free
    obtain rfl : List.finRange saga.size = order := by simpa using computed
    refine ⟨.refl _, ?_⟩
    intro i j dependency
    simp [DependsOn, executionOrder_insertion saga free i] at dependency
  · cases built : saga.buildIndex (List.finRange saga.size) ∅ with
    | error message => simp [built] at computed
    | ok index =>
      simp only [built] at computed
      cases added : saga.addEdges index (List.finRange saga.size) ⟨fun _ => 0, fun _ => []⟩ with
      | error message => simp [added] at computed
      | ok edges =>
        simp only [added] at computed
        split at computed
        · simp at computed
        · rename_i full
          have found := buildIndex_correct saga [] _ ∅ index built (by simp)
          obtain ⟨counts, start⟩ := draining_start added
          obtain ⟨final, drained⟩ := drainLayers_correct counts (saga.size + 1) _ [] _ (by simp) start
          obtain rfl := Except.ok.inj computed
          have distinct := drained.distinct
          rw [List.append_nil] at distinct
          have size : (drainLayers edges.dependents (saga.size + 1) edges.inDegree []
              ((List.finRange saga.size).filter fun i => edges.inDegree i = 0)).length =
                saga.size := by
            simpa using full
          have perm := (List.subperm_of_subset distinct fun i _ => List.mem_finRange i).perm_of_length_le
            (by simpa using size.ge)
          refine ⟨perm, ?_⟩
          intro i j dependency
          apply drained.sorted.idxOf_lt (perm.mem_iff.mpr (List.mem_finRange i))
          exact List.mem_filterMap.mpr
            ⟨saga.nameOf j, dependency, (found _ _).mpr ⟨by simp, rfl⟩⟩

end Firefly.Orchestration.Saga
