import Mathlib.Logic.Function.Basic

set_option autoImplicit false

/-! # Tables: what is under each key, if anything -/

namespace Firefly.Tables

variable {κ ν : Type} [DecidableEq κ] {table : κ → Option ν} {key other : κ} {value found : ν}

theorem update_eq_some :
    Function.update table key (some value) other = some found ↔
      other = key ∧ found = value ∨ other ≠ key ∧ table other = some found := by
  by_cases same : other = key
  · subst same
    simp [eq_comm]
  · simp [same]

theorem update_none_eq_some :
    Function.update table key none other = some found ↔ other ≠ key ∧ table other = some found := by
  by_cases same : other = key
  · subst same
    simp
  · simp [same]

theorem update_ne_none (present : table other ≠ none) :
    Function.update table key (some value) other ≠ none := by
  by_cases same : other = key
  · subst same
    simp
  · rwa [Function.update_of_ne same]

end Firefly.Tables
