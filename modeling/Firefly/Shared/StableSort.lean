import Mathlib

set_option autoImplicit false

/-!
# Stable sorting by a key

An ordered list is known from its elements of each key, and a stable sort leaves those where they are.
-/

namespace Firefly.StableSort

variable {α κ : Type*} [LinearOrder κ] (key : α → κ)

def sortByKey (xs : List α) : List α := xs.mergeSort fun first second => key first ≤ key second

def Ordered (xs : List α) : Prop := xs.Pairwise fun first second => key first ≤ key second

def classOf (k : κ) (xs : List α) : List α := xs.filter fun x => key x = k

variable {key} {k : κ} {x y : α} {xs ys : List α}

theorem class_mem : x ∈ classOf key k xs ↔ x ∈ xs ∧ key x = k := by
  simp [classOf]

theorem class_ordered (k : κ) (xs : List α) : Ordered key (classOf key k xs) := by
  refine List.pairwise_iff_forall_sublist.mpr fun {first second} pair => ?_
  have one := (class_mem.mp (pair.subset (.head _))).2
  have other := (class_mem.mp (pair.subset (.tail _ (.head _)))).2
  exact (one.trans other.symm).le

theorem key_trans (a b c : α) (one : decide (key a ≤ key b) = true) (other : decide (key b ≤ key c) = true) :
    decide (key a ≤ key c) = true :=
  decide_eq_true ((of_decide_eq_true one).trans (of_decide_eq_true other))

theorem key_total (a b : α) : (decide (key a ≤ key b) || decide (key b ≤ key a)) = true := by
  simpa using le_total (key a) (key b)

theorem sortByKey_ordered (xs : List α) : Ordered key (sortByKey key xs) :=
  (List.pairwise_mergeSort key_trans key_total xs).imp of_decide_eq_true

theorem classOf_sortByKey (k : κ) (xs : List α) : classOf key k (sortByKey key xs) = classOf key k xs := by
  have kept : (classOf key k xs).Sublist (sortByKey key xs) :=
    List.sublist_mergeSort key_trans key_total ((class_ordered k xs).imp decide_eq_true)
      List.filter_sublist
  have inside : (classOf key k xs).Sublist (classOf key k (sortByKey key xs)) := by
    simpa only [classOf, List.filter_filter, Bool.and_self] using kept.filter fun x => decide (key x = k)
  have size : (classOf key k (sortByKey key xs)).length ≤ (classOf key k xs).length :=
    ((List.mergeSort_perm xs _).filter _).length_eq.le
  exact (inside.eq_of_length_le size).symm

theorem mem_of_classes (classes : ∀ k, classOf key k xs = classOf key k ys) (member : x ∈ xs) : x ∈ ys :=
  (class_mem.mp ((classes (key x)) ▸ class_mem.mpr ⟨member, rfl⟩)).1

theorem head_least (ordered : Ordered key (x :: xs)) (member : y ∈ x :: xs) : key x ≤ key y := by
  rcases List.mem_cons.mp member with rfl | member
  · exact le_refl _
  · exact (List.pairwise_cons.mp ordered).1 y member

theorem eq_of_classes (left : Ordered key xs) (right : Ordered key ys)
    (classes : ∀ k, classOf key k xs = classOf key k ys) : xs = ys := by
  induction xs generalizing ys with
  | nil =>
    cases ys with
    | nil => rfl
    | cons y ys => exact absurd (mem_of_classes (fun k => (classes k).symm) (.head ys)) List.not_mem_nil
  | cons x xs ih =>
    cases ys with
    | nil => exact absurd (mem_of_classes classes (.head xs)) List.not_mem_nil
    | cons y ys =>
      have level : key x = key y :=
        le_antisymm (head_least left (mem_of_classes (fun k => (classes k).symm) (.head ys)))
          (head_least right (mem_of_classes classes (.head xs)))
      have heads := classes (key x)
      simp only [classOf, List.filter_cons, level, decide_true, if_true, List.cons.injEq] at heads
      obtain ⟨rfl, -⟩ := heads
      have tails (k : κ) : classOf key k xs = classOf key k ys := by
        have both := classes k
        simp only [classOf, List.filter_cons] at both ⊢
        split at both
        · exact (List.cons.inj both).2
        · exact both
      rw [ih (List.Pairwise.of_cons left) (List.Pairwise.of_cons right) tails]

theorem sortByKey_congr (classes : ∀ k, classOf key k xs = classOf key k ys) :
    sortByKey key xs = sortByKey key ys := by
  refine eq_of_classes (sortByKey_ordered xs) (sortByKey_ordered ys) fun k => ?_
  rw [classOf_sortByKey, classOf_sortByKey, classes k]

theorem sortByKey_filter (keep : α → Bool) (xs : List α) :
    (sortByKey key xs).filter keep = sortByKey key (xs.filter keep) := by
  refine eq_of_classes ((sortByKey_ordered xs).filter _) (sortByKey_ordered _) fun k => ?_
  have moved (ys : List α) : classOf key k (ys.filter keep) = (classOf key k ys).filter keep := by
    rw [classOf, classOf, List.filter_comm]
  rw [classOf_sortByKey, moved, moved, classOf_sortByKey]

theorem sortByKey_keys (perm : xs.Perm ys) :
    (sortByKey key xs).map key = (sortByKey key ys).map key := by
  have sorted (zs : List α) : ((sortByKey key zs).map key).Pairwise (· ≤ ·) :=
    List.pairwise_map.mpr (sortByKey_ordered zs)
  apply List.Perm.eq_of_pairwise (fun _ _ _ _ => le_antisymm) (sorted xs) (sorted ys)
  exact ((List.mergeSort_perm xs _).trans (perm.trans (List.mergeSort_perm ys _).symm)).map key

theorem sortByKey_map {β κ' : Type*} [LinearOrder κ'] {key' : β → κ'} {f : α → β}
    (same : ∀ x y, key' (f x) ≤ key' (f y) ↔ key x ≤ key y) (xs : List α) :
    sortByKey key' (xs.map f) = (sortByKey key xs).map f :=
  (List.map_mergeSort fun x _ y _ => decide_eq_decide.mpr (same x y).symm).symm

end Firefly.StableSort
