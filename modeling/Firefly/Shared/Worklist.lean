import Mathlib.Algebra.BigOperators.Group.Finset.Basic
import Mathlib.Logic.Relation

set_option autoImplicit false

namespace Firefly.Worklist

variable {α : Type} (next : α → List α)

def explore [DecidableEq α] : Nat → List α → List α → Option (List α)
  | _, [], found => some found
  | 0, _ :: _, _ => none
  | fuel + 1, item :: stack, found =>
    if item ∈ found then explore fuel stack found
    else explore fuel (next item ++ stack) (item :: found)

def Reaches : α → α → Prop := Relation.ReflTransGen fun item other => other ∈ next item

structure Explored (roots stack found : List α) : Prop where
  closed : ∀ item ∈ found, ∀ other ∈ next item, other ∈ found ∨ other ∈ stack
  rooted : ∀ root ∈ roots, root ∈ found ∨ root ∈ stack
  reached : ∀ item, item ∈ found ∨ item ∈ stack → ∃ root ∈ roots, Reaches next root item

def remaining [DecidableEq α] (keys : Finset α) (found : List α) : Nat :=
  ∑ key ∈ keys.filter (· ∉ found), (next key).length

variable {next} {roots stack found : List α} {item : α}

theorem Explored.start (roots : List α) : Explored next roots roots [] where
  closed := by simp
  rooted := fun _ inside => Or.inr inside
  reached := fun item inside => ⟨item, by simpa using inside, .refl⟩

theorem Explored.skip (explored : Explored next roots (item :: stack) found)
    (met : item ∈ found) : Explored next roots stack found where
  closed := by
    intro earlier inside other led
    rcases explored.closed earlier inside other led with kept | pushed
    · exact Or.inl kept
    · rcases List.mem_cons.mp pushed with rfl | left
      · exact Or.inl met
      · exact Or.inr left
  rooted := by
    intro root inside
    rcases explored.rooted root inside with kept | pushed
    · exact Or.inl kept
    · rcases List.mem_cons.mp pushed with rfl | left
      · exact Or.inl met
      · exact Or.inr left
  reached := by
    intro other inside
    exact explored.reached other (inside.imp_right (List.mem_cons_of_mem _))

theorem Explored.visit (explored : Explored next roots (item :: stack) found) :
    Explored next roots (next item ++ stack) (item :: found) where
  closed := by
    intro earlier inside other led
    rcases List.mem_cons.mp inside with rfl | before
    · exact Or.inr (List.mem_append_left _ led)
    · rcases explored.closed earlier before other led with kept | pushed
      · exact Or.inl (List.mem_cons_of_mem _ kept)
      · rcases List.mem_cons.mp pushed with rfl | left
        · exact Or.inl List.mem_cons_self
        · exact Or.inr (List.mem_append_right _ left)
  rooted := by
    intro root inside
    rcases explored.rooted root inside with kept | pushed
    · exact Or.inl (List.mem_cons_of_mem _ kept)
    · rcases List.mem_cons.mp pushed with rfl | left
      · exact Or.inl List.mem_cons_self
      · exact Or.inr (List.mem_append_right _ left)
  reached := by
    intro other inside
    have popped := explored.reached item (Or.inr List.mem_cons_self)
    simp only [List.mem_cons, List.mem_append] at inside
    rcases inside with (rfl | kept) | (led | left)
    · exact popped
    · exact explored.reached other (Or.inl kept)
    · obtain ⟨root, among, path⟩ := popped
      exact ⟨root, among, path.tail led⟩
    · exact explored.reached other (Or.inr (List.mem_cons_of_mem _ left))

theorem Explored.exact (explored : Explored next roots [] found) (other : α) :
    other ∈ found ↔ ∃ root ∈ roots, Reaches next root other := by
  constructor
  · intro inside
    exact explored.reached other (Or.inl inside)
  · rintro ⟨root, among, path⟩
    induction path with
    | refl => simpa using explored.rooted root among
    | tail _ led ih => simpa using explored.closed _ ih _ led

variable [DecidableEq α] {keys : Finset α}

theorem remaining_visit (leads : ∀ key, next key ≠ [] → key ∈ keys) (fresh : item ∉ found) :
    remaining next keys (item :: found) + (next item).length = remaining next keys found := by
  by_cases key : item ∈ keys
  · have among : item ∈ keys.filter (· ∉ found) := by simp [key, fresh]
    have others : keys.filter (· ∉ item :: found) = (keys.filter (· ∉ found)).erase item := by
      ext other
      simp only [Finset.mem_filter, Finset.mem_erase, List.mem_cons]
      tauto
    rw [remaining, others, remaining]
    exact Finset.sum_erase_add _ _ among
  · have idle : next item = [] := by
      by_contra pushes
      exact key (leads item pushes)
    have same : keys.filter (· ∉ item :: found) = keys.filter (· ∉ found) := by
      ext other
      simp only [Finset.mem_filter, List.mem_cons, and_congr_right_iff]
      intro inside
      have differs : other ≠ item := by
        rintro rfl
        exact key inside
      tauto
    rw [remaining, same, idle, remaining]
    rfl

-- Enough fuel drains the stack, and what is found is what the roots reach.
theorem explore_eq (leads : ∀ key, next key ≠ [] → key ∈ keys) {fuel : Nat}
    (explored : Explored next roots stack found)
    (enough : stack.length + remaining next keys found ≤ fuel) :
    ∃ all, explore next fuel stack found = some all ∧
      ∀ other, other ∈ all ↔ ∃ root ∈ roots, Reaches next root other := by
  induction fuel generalizing stack found with
  | zero =>
    have drained : stack = [] := by
      rw [← List.length_eq_zero_iff]
      omega
    subst drained
    exact ⟨found, rfl, explored.exact⟩
  | succ fuel ih =>
    cases stack with
    | nil => exact ⟨found, rfl, explored.exact⟩
    | cons item stack =>
      rw [explore]
      rw [List.length_cons] at enough
      split
      next met => exact ih (explored.skip met) (by omega)
      next fresh =>
        -- every push was counted in what remained
        have counted := remaining_visit leads fresh
        exact ih explored.visit (by rw [List.length_append]; omega)

end Firefly.Worklist
