import Mathlib

set_option autoImplicit false

/-!
# The parts of a SQL query

A table is the list of its rows in the order of their insertion.
-/

namespace Firefly.Sql

variable {ρ : Type}

def coalesceMax (values : List Int) : Int := values.max?.getD 0

def orderBy (key : ρ → Int) (rows : List ρ) : List ρ :=
  rows.insertionSort fun a b => key a ≤ key b

def limitTo (limit : Int) (rows : List ρ) : List ρ :=
  if limit < 0 then rows else rows.take limit.toNat

theorem orderBy_sorted {key : ρ → Int} {rows : List ρ}
    (sorted : rows.Pairwise fun a b => key a ≤ key b) : orderBy key rows = rows :=
  sorted.insertionSort_eq

@[simp] theorem orderBy_eq_nil {key : ρ → Int} {rows : List ρ} :
    orderBy key rows = [] ↔ rows = [] := by
  rw [← List.length_eq_zero_iff, orderBy, List.length_insertionSort, List.length_eq_zero_iff]

theorem coalesceMax_concat (values : List Int) (last : Int) (above : ∀ value ∈ values, value ≤ last) :
    coalesceMax (values ++ [last]) = last := by
  rw [coalesceMax]
  have top : (values ++ [last]).max? = some last := by
    rw [List.max?_eq_some_iff]
    refine ⟨by simp, fun value member => ?_⟩
    rcases List.mem_append.mp member with before | same
    · exact above value before
    · exact le_of_eq (List.mem_singleton.mp same)
  rw [top, Option.getD_some]

def Counted (key : ρ → Int) (start : Int) (rows : List ρ) : Prop :=
  ∀ (i : Nat) (row : ρ), rows[i]? = some row → key row = start + i + 1

section Counted

variable {key : ρ → Int} {start : Int} {rows : List ρ}

theorem counted_nil (key : ρ → Int) (start : Int) : Counted key start [] := by
  intro i row found
  simp at found

theorem counted_append {first second : List ρ} :
    Counted key start (first ++ second) ↔
      Counted key start first ∧ Counted key (start + first.length) second := by
  constructor
  · intro counted
    refine ⟨fun i row found => ?_, fun i row found => ?_⟩
    · have inside : i < first.length := (List.getElem?_eq_some_iff.mp found).1
      exact counted i row (by rw [List.getElem?_append_left inside, found])
    · have after := counted (first.length + i) row (by
        rw [List.getElem?_append_right (by omega)]
        simpa using found)
      rw [after]
      push_cast
      ring
  · rintro ⟨countedFirst, countedSecond⟩ i row found
    by_cases inside : i < first.length
    · rw [List.getElem?_append_left inside] at found
      exact countedFirst i row found
    · rw [List.getElem?_append_right (by omega)] at found
      have after := countedSecond _ row found
      omega

theorem counted_singleton {row : ρ} : Counted key start [row] ↔ key row = start + 1 := by
  constructor
  · intro counted
    simpa using counted 0 row rfl
  · rintro number i other found
    obtain ⟨rfl, rfl⟩ : i = 0 ∧ row = other := by
      cases i <;> simp_all
    simpa using number

theorem Counted.bounds (counted : Counted key start rows) {row : ρ} (member : row ∈ rows) :
    start < key row ∧ key row ≤ start + rows.length := by
  obtain ⟨i, found⟩ := List.getElem?_of_mem member
  have inside := (List.getElem?_eq_some_iff.mp found).1
  have number := counted i row found
  omega

theorem Counted.pairwise (counted : Counted key start rows) :
    rows.Pairwise fun a b => key a < key b := by
  rw [List.pairwise_iff_getElem]
  intro i j _ _ before
  have first := counted i rows[i] (by simp)
  have second := counted j rows[j] (by simp)
  omega

theorem Counted.nodup (counted : Counted key start rows) : (rows.map key).Nodup :=
  List.pairwise_map.mpr (counted.pairwise.imp fun below => ne_of_lt below)

theorem Counted.coalesceMax (counted : Counted key 0 rows) :
    coalesceMax (rows.map key) = rows.length := by
  rcases List.eq_nil_or_concat rows with rfl | ⟨before, last, rfl⟩
  · rfl
  · rw [List.concat_eq_append] at *
    obtain ⟨first, final⟩ := counted_append.mp counted
    have number := counted_singleton.mp final
    rw [List.map_append, List.map_singleton, coalesceMax_concat]
    · simp [number]
    · intro value member
      obtain ⟨row, found, rfl⟩ := List.mem_map.mp member
      have bounds := first.bounds found
      omega

theorem Counted.filter (counted : Counted key start rows) (skip : Nat) :
    (rows.filter fun row => start + skip < key row) = rows.drop skip := by
  rw [← List.take_append_drop skip rows] at counted
  obtain ⟨early, late⟩ := counted_append.mp counted
  have dropped : ((rows.take skip).filter fun row => start + skip < key row) = [] := by
    rw [List.filter_eq_nil_iff]
    intro row member
    have bounds := early.bounds member
    have short := List.length_take_le skip rows
    simp only [decide_eq_true_eq]
    omega
  have kept : ((rows.drop skip).filter fun row => start + skip < key row) = rows.drop skip := by
    rw [List.filter_eq_self]
    intro row member
    have bounds := late.bounds member
    have inside : skip < rows.length := by
      have := List.length_pos_of_mem member
      rw [List.length_drop] at this
      omega
    rw [List.length_take, Nat.min_eq_left (by omega)] at bounds
    simpa using bounds.1
  conv_lhs => rw [← List.take_append_drop skip rows]
  rw [List.filter_append, dropped, kept, List.nil_append]

end Counted

end Firefly.Sql
