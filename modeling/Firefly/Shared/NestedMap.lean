import Mathlib

set_option autoImplicit false

namespace Firefly.NestedMap

variable {κ ι β : Type} [Ord κ] [Ord ι]

abbrev Nested (κ ι β : Type) [Ord κ] [Ord ι] := Std.TreeMap κ (Std.TreeMap ι β)

def find (m : Nested κ ι β) (outer : κ) (inner : ι) : Option β :=
  m[outer]?.bind fun within => within[inner]?

def put (m : Nested κ ι β) (outer : κ) (inner : ι) (value : β) : Nested κ ι β :=
  m.insert outer ((m[outer]?.getD {}).insert inner value)

def take (m : Nested κ ι β) (outer : κ) (inner : ι) : Option β × Nested κ ι β :=
  match m[outer]? with
  | none => (none, m)
  | some within =>
    let rest := within.erase inner
    (within[inner]?, if rest.isEmpty then m.erase outer else m.insert outer rest)

def Pruned (m : Nested κ ι β) : Prop :=
  ∀ (outer : κ) (within : Std.TreeMap ι β), m[outer]? = some within → within.isEmpty = false

section Pruned

variable [Std.TransOrd κ] {m : Nested κ ι β} {outer : κ} {inner : ι}

theorem pruned_put [Std.TransOrd ι] (pruned : Pruned m) (value : β) :
    Pruned (put m outer inner value) := by
  intro key entries held
  rw [put, Std.TreeMap.getElem?_insert] at held
  split at held
  next =>
    obtain rfl := Option.some.inj held
    simp
  next => exact pruned key entries held

theorem pruned_erase (pruned : Pruned m) : Pruned (m.erase outer) := by
  intro key entries held
  rw [Std.TreeMap.getElem?_erase] at held
  split at held
  next => cases held
  next => exact pruned key entries held

theorem pruned_take (pruned : Pruned m) : Pruned (take m outer inner).2 := by
  unfold take
  cases held : m[outer]? with
  | none => exact pruned
  | some entries =>
    cases empty : (entries.erase inner).isEmpty with
    | true =>
      simp only [empty, if_true]
      exact pruned_erase pruned
    | false =>
      intro key entries' held'
      simp only [empty, Bool.false_eq_true, if_false, Std.TreeMap.getElem?_insert] at held'
      split at held'
      next => exact Option.some.inj held' ▸ empty
      next => exact pruned key entries' held'

theorem mem_iff_find [Std.TransOrd ι] (pruned : Pruned m) :
    outer ∈ m ↔ ∃ inner, (find m outer inner).isSome := by
  rw [Std.TreeMap.mem_iff_isSome_getElem?]
  constructor
  · intro held
    obtain ⟨entries, held⟩ := Option.isSome_iff_exists.mp held
    obtain ⟨inner, inside⟩ :=
      Std.TreeMap.isEmpty_eq_false_iff_exists_mem.mp (pruned outer entries held)
    refine ⟨inner, ?_⟩
    rw [find, held]
    exact Std.TreeMap.mem_iff_isSome_getElem?.mp inside
  · rintro ⟨inner, found⟩
    cases held : m[outer]? with
    | none => simp [find, held] at found
    | some entries => rfl

end Pruned

section Find

variable [Std.TransOrd κ] [Std.LawfulEqOrd κ] [DecidableEq κ] {m : Nested κ ι β} {outer other : κ}
  {inner within : ι}

theorem find_erase :
    find (m.erase outer) other within = if outer = other then none else find m other within := by
  by_cases same : outer = other
  · simp [find, same]
  · simp [find, Std.TreeMap.getElem?_erase, same]

variable [Std.TransOrd ι] [Std.LawfulEqOrd ι] [DecidableEq ι]

theorem find_put (value : β) :
    find (put m outer inner value) other within =
      if outer = other ∧ inner = within then some value else find m other within := by
  by_cases same : outer = other
  · subst same
    by_cases here : inner = within
    · simp [find, put, here]
    · cases held : m[outer]? <;> simp [find, put, held, Std.TreeMap.getElem?_insert, here]
  · simp [find, put, Std.TreeMap.getElem?_insert, same]

theorem find_take :
    find (take m outer inner).2 other within =
      if outer = other ∧ inner = within then none else find m other within := by
  unfold take
  cases held : m[outer]? with
  | none =>
    by_cases same : outer = other
    · subst same
      simp [find, held]
    · simp [same]
  | some entries =>
    have rest : ∀ key, (if (entries.erase inner).isEmpty then m.erase outer
        else m.insert outer (entries.erase inner))[key]? =
          if outer = key then
            if (entries.erase inner).isEmpty then none else some (entries.erase inner)
          else m[key]? := by
      intro key
      by_cases same : outer = key <;> cases (entries.erase inner).isEmpty <;>
        simp [Std.TreeMap.getElem?_erase, Std.TreeMap.getElem?_insert, same]
    by_cases same : outer = other
    · subst same
      have erased : (entries.erase inner)[within]? =
          if inner = within then none else entries[within]? := by
        simp [Std.TreeMap.getElem?_erase]
      have found : find m outer within = entries[within]? := by rw [find, held]; rfl
      simp only [find, rest, if_true, true_and]
      rw [← find, found, ← erased]
      cases empty : (entries.erase inner).isEmpty with
      | true =>
        rw [Std.TreeMap.getElem?_of_isEmpty empty]
        rfl
      | false => rfl
    · simp only [find, rest, same, if_false, false_and]

end Find

theorem take_fst (m : Nested κ ι β) (outer : κ) (inner : ι) :
    (take m outer inner).1 = find m outer inner := by
  unfold take find
  cases m[outer]? <;> rfl

end Firefly.NestedMap
