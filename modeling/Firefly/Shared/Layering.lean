import Mathlib

set_option autoImplicit false

/-!
# Draining a dependency graph

A scheduler that removes nodes one at a time, each only after everything it depends on, and that
stops when no remaining node is free, drains the whole graph exactly when every dependency is a
node and the dependency relation has no cycle. How the free nodes are found does not matter.
-/

namespace Firefly.Layering

variable {α : Type}

def Depends (nodes : List α) (deps : α → List α) (a b : α) : Prop :=
  a ∈ nodes ∧ b ∈ nodes ∧ b ∈ deps a

def Closed (nodes : List α) (deps : α → List α) : Prop :=
  ∀ a ∈ nodes, ∀ b ∈ deps a, b ∈ nodes

def Acyclic (nodes : List α) (deps : α → List α) : Prop :=
  ∀ a, ¬ Relation.TransGen (Depends nodes deps) a a

def Topological (deps : α → List α) (order : List α) : Prop :=
  ∀ before a after, order = before ++ a :: after → ∀ b ∈ deps a, b ∈ before

def Stuck (deps : α → List α) (removed rest : List α) : Prop :=
  ∀ a ∈ rest, ∃ b ∈ deps a, b ∉ removed

theorem topological_nil (deps : α → List α) : Topological deps [] := by
  intro before a after split
  simp at split

theorem topological_concat {deps : α → List α} {order : List α} {a : α}
    (sorted : Topological deps order) (free : ∀ b ∈ deps a, b ∈ order) :
    Topological deps (order ++ [a]) := by
  intro before x after split b member
  rcases List.eq_nil_or_concat after with rfl | ⟨init, last, rfl⟩
  · have last := List.append_inj' (show order ++ [a] = before ++ [x] from split) rfl
    obtain ⟨rfl, same⟩ := last
    have same : a = x := by simpa using same
    exact free b (same ▸ member)
  · have init : order = before ++ x :: init ∧ [a] = [last] :=
      List.append_inj' (by simpa using split) rfl
    exact sorted before x _ init.1 b member

theorem topological_append {deps : α → List α} {order more : List α}
    (sorted : Topological deps order) (free : ∀ a ∈ more, ∀ b ∈ deps a, b ∈ order) :
    Topological deps (order ++ more) := by
  induction more generalizing order with
  | nil => simpa using sorted
  | cons a more ih =>
    have head := topological_concat sorted (free a (by simp))
    have tail := ih head fun x member b dependency =>
      List.mem_append_left _ (free x (by simp [member]) b dependency)
    simpa using tail

theorem Topological.idxOf_lt [DecidableEq α] {deps : α → List α} {order : List α}
    (sorted : Topological deps order) {a b : α} (listed : a ∈ order) (dependency : b ∈ deps a) :
    order.idxOf b < order.idxOf a := by
  obtain ⟨before, after, rfl, first⟩ := List.eq_append_cons_of_mem listed
  have earlier := sorted before a after rfl b dependency
  rw [List.idxOf_append_of_mem earlier, List.idxOf_append_of_notMem first]
  have bound := List.idxOf_lt_length_iff.mpr earlier
  simpa using bound

theorem Topological.closed {deps : α → List α} {nodes order : List α}
    (sorted : Topological deps order) (perm : order.Perm nodes) : Closed nodes deps := by
  intro a member b dependency
  obtain ⟨before, after, split⟩ := List.append_of_mem (perm.mem_iff.mpr member)
  have earlier := sorted before a after split b dependency
  exact perm.mem_iff.mp (split ▸ List.mem_append_left _ earlier)

theorem Topological.acyclic [DecidableEq α] {deps : α → List α} {nodes order : List α}
    (sorted : Topological deps order) (perm : order.Perm nodes) : Acyclic nodes deps := by
  have decreasing : ∀ a b, Relation.TransGen (Depends nodes deps) a b →
      order.idxOf b < order.idxOf a := by
    intro a b path
    induction path with
    | single edge => exact sorted.idxOf_lt (perm.mem_iff.mpr edge.1) edge.2.2
    | tail _ edge ih =>
      exact Nat.lt_trans (sorted.idxOf_lt (perm.mem_iff.mpr edge.1) edge.2.2) ih
  intro a cycle
  exact Nat.lt_irrefl _ (decreasing a a cycle)

-- In a finite acyclic graph every nonempty set of nodes has one that depends on none of them.
theorem Acyclic.exists_free {nodes : List α} {deps : α → List α} (acyclic : Acyclic nodes deps)
    {rest : List α} (nonempty : rest ≠ []) :
    ∃ a ∈ rest, ∀ b ∈ rest, ¬ Depends nodes deps a b := by
  let later (x y : { a // a ∈ rest }) : Prop := Relation.TransGen (Depends nodes deps) y.1 x.1
  have : Finite { a // a ∈ rest } := List.finite_toSet rest
  have : IsTrans _ later := ⟨fun _ _ _ first second => second.trans first⟩
  have : Std.Irrefl later := ⟨fun x cycle => acyclic x.1 cycle⟩
  have wf : WellFounded later := Finite.wellFounded_of_trans_of_irrefl later
  obtain ⟨a, tail, rfl⟩ := List.exists_cons_of_ne_nil nonempty
  obtain ⟨least, -, minimal⟩ := wf.has_min Set.univ ⟨⟨a, by simp⟩, trivial⟩
  exact ⟨least.1, least.2, fun b member edge => minimal ⟨b, member⟩ trivial (.single edge)⟩

theorem drained_iff [DecidableEq α] {nodes removed rest : List α} {deps : α → List α}
    (perm : (removed ++ rest).Perm nodes) (sorted : Topological deps removed)
    (stuck : Stuck deps removed rest) :
    rest = [] ↔ Closed nodes deps ∧ Acyclic nodes deps := by
  constructor
  · rintro rfl
    rw [List.append_nil] at perm
    exact ⟨sorted.closed perm, sorted.acyclic perm⟩
  · rintro ⟨closed, acyclic⟩
    by_contra nonempty
    obtain ⟨a, member, free⟩ := acyclic.exists_free nonempty
    obtain ⟨b, dependency, kept⟩ := stuck a member
    have node : a ∈ nodes := perm.mem_iff.mp (List.mem_append_right _ member)
    have target := closed a node b dependency
    rcases List.mem_append.mp (perm.mem_iff.mpr target) with gone | left
    · exact kept gone
    · exact free b left ⟨node, target, dependency⟩

end Firefly.Layering

namespace Firefly.Layering

variable {α : Type} {deps : α → List α} {a b : α}

inductive Chain (deps : α → List α) : α → Nat → Prop where
  | here (a : α) : Chain deps a 0
  | through {a b : α} {k : Nat} (dependency : b ∈ deps a) (rest : Chain deps b k) :
    Chain deps a (k + 1)

def AtDepth (deps : α → List α) (a : α) (d : Nat) : Prop :=
  Chain deps a d ∧ ∀ k, Chain deps a k → k ≤ d

theorem atDepth_zero (free : deps a = []) : AtDepth deps a 0 := by
  refine ⟨.here a, ?_⟩
  intro k chain
  cases chain with
  | here => exact Nat.le_refl 0
  | through dependency rest => simp [free] at dependency

theorem atDepth_succ {d : Nat} (deepest : b ∈ deps a) (at_depth : AtDepth deps b d)
    (others : ∀ c ∈ deps a, ∃ e ≤ d, AtDepth deps c e) : AtDepth deps a (d + 1) := by
  refine ⟨.through deepest at_depth.1, ?_⟩
  intro k chain
  cases chain with
  | here => exact Nat.zero_le _
  | through dependency rest =>
    obtain ⟨e, below, at_e⟩ := others _ dependency
    exact Nat.succ_le_succ ((at_e.2 _ rest).trans below)

theorem Chain.congr {other : α → List α} (same : ∀ a b, b ∈ deps a ↔ b ∈ other a) {k : Nat}
    (chain : Chain deps a k) : Chain other a k := by
  induction chain with
  | here a => exact .here a
  | through dependency _ ih => exact .through ((same _ _).mp dependency) ih

end Firefly.Layering
