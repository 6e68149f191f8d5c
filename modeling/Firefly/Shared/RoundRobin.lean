import Mathlib

set_option autoImplicit false

/-!
# Turns taken round robin

A counter that is reduced modulo the number of members picks one of them for each turn; any cycle of
turns, wherever it starts, picks every member once.
-/

namespace Firefly.RoundRobin

variable {α : Type*} {members : List α} {counter other turns : Nat}

def pick (members : List α) (counter : Nat) : List α :=
  members[counter % members.length]?.toList

def picks (members : List α) : Nat → Nat → List α
  | _, 0 => []
  | counter, turns + 1 => pick members counter ++ picks members (counter + 1) turns

@[simp] theorem pick_nil : pick ([] : List α) counter = [] := rfl

@[simp] theorem picks_nil : picks ([] : List α) counter turns = [] := by
  induction turns generalizing counter with
  | zero => rfl
  | succ turns ih => rw [picks, ih, pick_nil, List.nil_append]

theorem pick_single (some_member : members ≠ []) : ∃ member ∈ members, pick members counter = [member] := by
  have within := Nat.mod_lt counter (List.length_pos_iff.mpr some_member)
  exact ⟨members[counter % members.length], List.getElem_mem within, by
    rw [pick, List.getElem?_eq_getElem within, Option.toList_some]⟩

theorem mem_of_mem_pick {member : α} (picked : member ∈ pick members counter) : member ∈ members :=
  List.mem_of_getElem? (Option.mem_toList.mp picked)

theorem pick_congr (same : counter % members.length = other % members.length) :
    pick members counter = pick members other := by
  rw [pick, pick, same]

-- Only the residue of the counter matters, here and in the turns to come.
theorem picks_congr (same : counter % members.length = other % members.length) :
    picks members counter turns = picks members other turns := by
  induction turns generalizing counter other with
  | zero => rfl
  | succ turns ih =>
    have later : (counter + 1) % members.length = (other + 1) % members.length :=
      Nat.ModEq.add_right 1 same
    rw [picks, picks, pick_congr same, ih later]

theorem picks_eq_map (some_member : 0 < members.length) :
    picks members counter turns =
      (List.range turns).map fun turn =>
        members.get ⟨(counter + turn) % members.length, Nat.mod_lt _ some_member⟩ := by
  induction turns generalizing counter with
  | zero => rfl
  | succ turns ih =>
    rw [picks, ih, List.range_succ_eq_map, List.map_cons, List.map_map, pick,
      List.getElem?_eq_getElem (Nat.mod_lt _ some_member)]
    simp [Function.comp_def, Nat.add_assoc, Nat.add_comm 1]

theorem picks_cycle (members : List α) (counter : Nat) :
    (picks members counter members.length).Perm members := by
  rcases Nat.eq_zero_or_pos members.length with none | some_member
  · rw [List.length_eq_zero_iff.mp none]
    rfl
  · have rotated : picks members counter members.length = members.rotate counter := by
      rw [picks_eq_map some_member]
      apply List.ext_getElem
      · simp
      · intro turn _ _
        simp [List.getElem_rotate, Nat.add_comm counter]
    rw [rotated]
    exact List.rotate_perm _ _

end Firefly.RoundRobin
