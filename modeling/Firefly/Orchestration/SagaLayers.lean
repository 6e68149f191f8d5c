import Firefly.Orchestration.Model
import Firefly.Orchestration.SagaComposition

set_option autoImplicit false

namespace Firefly.Orchestration

open Layering

theorem getElem?_foldl_erase {β : Type} (map : Std.TreeMap String β) (keys : List String)
    (key : String) : (keys.foldl (·.erase ·) map)[key]? = if key ∈ keys then none else map[key]? := by
  induction keys generalizing map with
  | nil => simp
  | cons head keys ih =>
    rw [List.foldl_cons, ih, Std.TreeMap.getElem?_erase]
    by_cases later : key ∈ keys
    · simp [later]
    · by_cases same : head = key
      · simp [same]
      · simp [later, same, Ne.symm same]

structure Layered (graph remaining : Graph) (done : List String) : Prop where
  left : ∀ name, remaining[name]? = if name ∈ done then none else graph[name]?
  nodes : ∀ name ∈ done, name ∈ graph.keys
  distinct : done.Nodup
  sorted : Topological (depsOf graph) done

theorem Layered.mem_keys {graph remaining : Graph} {done : List String}
    (layered : Layered graph remaining done) (name : String) :
    name ∈ remaining.keys ↔ name ∉ done ∧ name ∈ graph.keys := by
  rw [mem_keys_iff, mem_keys_iff, layered.left]
  by_cases gone : name ∈ done <;> simp [gone]

theorem Layered.perm {graph remaining : Graph} {done : List String}
    (layered : Layered graph remaining done) : (done ++ remaining.keys).Perm graph.keys :=
  perm_of_left layered.distinct layered.nodes layered.mem_keys

theorem Layered.sound_iff {graph remaining : Graph} {done : List String}
    (layered : Layered graph remaining done) (stuck : ∀ (name : String) (deps : List String),
      remaining[name]? = some deps → ∃ dep ∈ deps, dep ∉ done) : remaining.isEmpty ↔ Sound graph := by
  have drained := drained_iff layered.perm layered.sorted (by
    intro name listed
    obtain ⟨deps, found⟩ := mem_keys_iff.mp listed
    have original := layered.left name
    rw [found] at original
    split at original
    · simp at original
    · rw [depsOf_eq original.symm]
      exact stuck name deps found)
  rw [Sound, ← drained, isEmpty_iff_keys]

theorem mem_ready {remaining : Graph} {done : List String} {name : String} :
    name ∈ (remaining.toList.filter fun entry => entry.2.all (· ∈ done)).map Prod.fst ↔
      ∃ deps, remaining[name]? = some deps ∧ ∀ dep ∈ deps, dep ∈ done := by
  constructor
  · intro listed
    obtain ⟨⟨name, deps⟩, member, rfl⟩ := List.mem_map.mp listed
    obtain ⟨inside, ready⟩ := List.mem_filter.mp member
    exact ⟨deps, Std.TreeMap.mem_toList_iff_getElem?_eq_some.mp inside, by simpa using ready⟩
  · rintro ⟨deps, found, ready⟩
    refine List.mem_map.mpr ⟨(name, deps), List.mem_filter.mpr ⟨?_, by simpa using ready⟩, rfl⟩
    exact Std.TreeMap.mem_toList_iff_getElem?_eq_some.mpr found

theorem Layered.advance {graph remaining : Graph} {done ready : List String}
    (layered : Layered graph remaining done) (distinct : ready.Nodup)
    (free : ∀ name ∈ ready, ∃ deps, remaining[name]? = some deps ∧ ∀ dep ∈ deps, dep ∈ done) :
    Layered graph (ready.foldl (·.erase ·) remaining) (done ++ ready) := by
  have original : ∀ name ∈ ready, name ∉ done ∧
      ∃ deps, graph[name]? = some deps ∧ ∀ dep ∈ deps, dep ∈ done := by
    intro name member
    obtain ⟨deps, found, resolved⟩ := free name member
    rw [layered.left] at found
    split at found
    · simp at found
    · rename_i fresh
      exact ⟨fresh, deps, found, resolved⟩
  refine ⟨?_, ?_, ?_, ?_⟩
  · intro name
    rw [getElem?_foldl_erase, layered.left]
    by_cases now : name ∈ ready <;> by_cases before : name ∈ done <;> simp [now, before]
  · intro name member
    rcases List.mem_append.mp member with before | now
    · exact layered.nodes name before
    · obtain ⟨-, deps, found, -⟩ := original name now
      exact mem_keys_iff.mpr ⟨deps, found⟩
  · rw [List.nodup_append]
    refine ⟨layered.distinct, distinct, ?_⟩
    rintro a before b now rfl
    exact (original a now).1 before
  · refine topological_append layered.sorted ?_
    intro name now
    obtain ⟨-, deps, found, resolved⟩ := original name now
    rw [depsOf_eq found]
    exact resolved

theorem nodup_ready (remaining : Graph) (done : List String) :
    ((remaining.toList.filter fun entry => entry.2.all (· ∈ done)).map Prod.fst).Nodup := by
  have distinct := nodup_keys remaining
  rw [← Std.TreeMap.map_fst_toList_eq_keys] at distinct
  exact distinct.sublist (List.filter_sublist.map _)

theorem layerLoop_ok_iff {graph : Graph} (fuel : Nat) (remaining : Graph) (done : List String)
    (layers : List (List String)) (layered : Layered graph remaining done)
    (enough : remaining.size ≤ fuel) :
    (∃ result, layerLoop fuel remaining done layers = .ok result) ↔ Sound graph := by
  induction fuel generalizing remaining done layers with
  | zero =>
    have empty : remaining.isEmpty := by
      rw [Std.TreeMap.isEmpty_eq_size_eq_zero]
      simpa using enough
    have none : ∀ (name : String), remaining[name]? = none := fun name =>
      Std.TreeMap.getElem?_of_isEmpty empty
    have sound := (layered.sound_iff (by simp [none])).mp empty
    simp [layerLoop, empty, sound]
  | succ fuel ih =>
    rw [layerLoop]
    by_cases empty : remaining.isEmpty
    · have none : ∀ (name : String), remaining[name]? = none := fun name =>
        Std.TreeMap.getElem?_of_isEmpty empty
      have sound := (layered.sound_iff (by simp [none])).mp empty
      simp [empty, sound]
    · simp only [empty, Bool.false_eq_true, if_false]
      generalize isReady : (remaining.toList.filter fun entry => entry.2.all (· ∈ done)).map Prod.fst =
        ready
      have free : ∀ name, name ∈ ready ↔
          ∃ deps, remaining[name]? = some deps ∧ ∀ dep ∈ deps, dep ∈ done := by
        intro name
        rw [← isReady, mem_ready]
      by_cases stuck : ready = []
      · have unsound := layered.sound_iff (by
          intro name deps found
          by_contra resolved
          push Not at resolved
          have member := (free name).mpr ⟨deps, found, resolved⟩
          simp [stuck] at member)
        simp [stuck, ← unsound, empty]
      · simp only [stuck, if_false]
        have next := layered.advance (isReady ▸ nodup_ready remaining done) fun name member =>
          (free name).mp member
        refine ih _ _ _ next ?_
        have smaller := next.perm.length_eq
        have whole := layered.perm.length_eq
        have some : 0 < ready.length := List.length_pos_iff.mpr stuck
        simp only [List.length_append, Std.TreeMap.length_keys] at smaller whole
        omega

theorem computeLayers_ok_iff (graph : Graph) :
    (∃ layers, computeLayers graph = .ok layers) ↔ Sound graph :=
  layerLoop_ok_iff _ _ _ _ ⟨by simp, by simp, by simp, topological_nil _⟩ (Nat.le_refl _)

theorem layerLoop_flatten {graph : Graph} (fuel : Nat) (remaining : Graph) (done : List String)
    (layers : List (List String)) (layered : Layered graph remaining done)
    (taken : layers.flatten = done) (result : List (List String))
    (ok : layerLoop fuel remaining done layers = .ok result) : result.flatten.Perm graph.keys := by
  have finish : remaining.isEmpty → layers.flatten.Perm graph.keys := by
    intro empty
    have perm := layered.perm
    rwa [(isEmpty_iff_keys remaining).mp empty, List.append_nil, ← taken] at perm
  induction fuel generalizing remaining done layers with
  | zero =>
    rw [layerLoop] at ok
    split at ok
    · rename_i empty
      obtain rfl : layers = result := by simpa using ok
      exact finish empty
    · simp at ok
  | succ fuel ih =>
    rw [layerLoop] at ok
    split at ok
    · rename_i empty
      obtain rfl : layers = result := by simpa using ok
      exact finish empty
    · simp only at ok
      split at ok
      · simp at ok
      · have next := layered.advance (nodup_ready remaining done) fun name member =>
          mem_ready.mp member
        refine ih _ _ _ next (by simp [taken]) ok ?_
        intro empty
        have perm := next.perm
        rw [(isEmpty_iff_keys _).mp empty, List.append_nil] at perm
        simpa [taken] using perm

theorem computeLayers_flatten {graph : Graph} {layers : List (List String)}
    (ok : computeLayers graph = .ok layers) : layers.flatten.Perm graph.keys :=
  layerLoop_flatten _ _ _ _ ⟨by simp, by simp, by simp, topological_nil _⟩ rfl _ ok

end Firefly.Orchestration
