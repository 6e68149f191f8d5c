import Firefly.Data.Specification
import Firefly.Data.Pageable

set_option autoImplicit false

namespace Firefly.Data

open Json (Value)
open Std (TransCmp)

/-- `slice::sort_by`. It may panic where the comparator is no total order on the elements, and it
keeps the elements in any case. -/
structure StdSort where
  sortBy {α : Type} : (α → α → Ordering) → List α → Option (List α)
  perm {α : Type} (cmp : α → α → Ordering) (xs ys : List α) : sortBy cmp xs = some ys → ys.Perm xs
  stable {α : Type} (cmp : α → α → Ordering) (xs : List α) :
    TransCmp (fun a b : {x // x ∈ xs} => cmp a b) →
      sortBy cmp xs = some (xs.mergeSort fun a b => (cmp a b).isLE)

/-- The entities of the map, in the order in which it iterates over them. -/
structure ReactiveMemoryRepository (T : Type) where
  entities : List T
  fits : entities.length < 2 ^ 63

structure Runtime (T : Type) where
  build : Build
  std : StdSort
  lower : String → String
  toValue : T → Option Value

variable {T : Type}

namespace ReactiveMemoryRepository

def matched (runtime : Runtime T) (repo : ReactiveMemoryRepository T) (spec : Specification) : List T :=
  repo.entities.filter fun e => spec.matches runtime.lower (runtime.toValue e)

-- `none` is a panic of the sort.
def sorted (runtime : Runtime T) (repo : ReactiveMemoryRepository T) (spec : Specification)
    (sort : RequestSort) : Option (List T) :=
  if sort.isSorted then
    runtime.std.sortBy (fun a b => compareRows compareJsonValues sort.toSorts
      ((runtime.toValue a).getD .null) ((runtime.toValue b).getD .null)) (repo.matched runtime spec)
  else some (repo.matched runtime spec)

def slice (rows : List T) (start stop : Nat) : Option (List T) :=
  if start ≤ stop ∧ stop ≤ rows.length then some ((rows.drop start).take (stop - start)) else none

def findBySpecPaged (runtime : Runtime T) (repo : ReactiveMemoryRepository T) (spec : Specification)
    (pageable : Pageable) : Option (List T) := do
  let rows ← repo.sorted runtime spec pageable.sort
  if pageable.isPaged then
    let length : Usize := .ofNat rows.length
    let start := min pageable.offset length
    let stop ← Usize.add runtime.build start pageable.size
    slice rows start.toNat (min stop length).toNat
  else some rows

structure Pages (runtime : Runtime T) (repo : ReactiveMemoryRepository T) (spec : Specification)
    (sort : RequestSort) (size : Usize) : Prop where
  served : ∀ page : Usize, 1 ≤ page.toNat → ∃ rows,
    repo.findBySpecPaged runtime spec ⟨page, size, sort⟩ = some rows ∧ rows.length ≤ size.toNat
  whole : ∃ all, repo.findBySpecPaged runtime spec ⟨1, unpagedSize, sort⟩ = some all ∧
    all.Perm (repo.matched runtime spec) ∧ ∀ n, n < 2 ^ 64 → all.length ≤ n * size.toNat →
      ((List.range n).flatMap fun k =>
        (repo.findBySpecPaged runtime spec ⟨.ofNat (k + 1), size, sort⟩).getD []) = all

variable {runtime : Runtime T} {repo : ReactiveMemoryRepository T} {spec : Specification}
  {sort : RequestSort} {rows : List T}

theorem sorted_perm (sorted : repo.sorted runtime spec sort = some rows) :
    rows.Perm (repo.matched runtime spec) := by
  rw [ReactiveMemoryRepository.sorted] at sorted
  split at sorted
  · exact runtime.std.perm _ _ _ sorted
  · obtain rfl := Option.some.inj sorted
    exact .refl _

theorem sorted_fits (sorted : repo.sorted runtime spec sort = some rows) : rows.length < 2 ^ 63 := by
  rw [(sorted_perm sorted).length_eq]
  exact (List.length_filter_le _ _).trans_lt repo.fits

theorem sorted_of_uniform (uniform : ∀ clause ∈ sort.toSorts, Uniform ((fun row => row.field clause.field) ''
    {row | ∃ e ∈ repo.matched runtime spec, (runtime.toValue e).getD .null = row})) :
    (repo.sorted runtime spec sort).isSome := by
  rw [ReactiveMemoryRepository.sorted]
  split
  · have lawful := uniform_rows uniform
    rw [runtime.std.stable]
    · rfl
    · exact @transCmp_comap {e // e ∈ repo.matched runtime spec} _ _ lawful fun e => ⟨_, e.1, e.2, rfl⟩
  · rfl

theorem unpaged_eq (pageable : Pageable) (unpaged : pageable.isPaged = false) :
    repo.findBySpecPaged runtime spec pageable = repo.sorted runtime spec pageable.sort := by
  rw [findBySpecPaged]
  cases repo.sorted runtime spec pageable.sort <;> simp [unpaged]

theorem paged_eq {pageable : Pageable} (paged : pageable.isPaged)
    (sorted : repo.sorted runtime spec pageable.sort = some rows) :
    repo.findBySpecPaged runtime spec pageable =
      if min pageable.offset.toNat rows.length + pageable.size.toNat < 2 ^ 64 then
        some ((rows.drop (min pageable.offset.toNat rows.length)).take pageable.size.toNat)
      else none := by
  have bound := sorted_fits sorted
  have length : (UInt64.ofNat rows.length).toNat = rows.length := UInt64.toNat_ofNat_of_lt' (by
    change rows.length < 2 ^ 64
    omega)
  have start := Usize.toNat_min pageable.offset (.ofNat rows.length)
  rw [length] at start
  simp only [findBySpecPaged, sorted, Option.bind_eq_bind, Option.bind_some, paged, if_true]
  generalize min pageable.offset (.ofNat rows.length) = from_ at start ⊢
  have small := pageable.size.toNat_lt
  rw [Usize.add, ← start]
  by_cases fits : from_.toNat + pageable.size.toNat < 2 ^ 64
  · rw [if_pos (.inr fits), if_pos fits, Option.bind_some, slice, Usize.toNat_min, Usize.toNat_add_of_fits fits,
      length, if_pos ⟨by omega, by omega⟩]
    congr 1
    -- The window ends with the rows, or with the size.
    rcases le_total (from_.toNat + pageable.size.toNat) rows.length with inside | beyond
    · rw [min_eq_left inside, Nat.add_sub_cancel_left]
    · rw [min_eq_right beyond, List.take_of_length_le (by simp), List.take_of_length_le (by simp; omega)]
  · rw [if_neg fits]
    split
    · -- The sum wraps around to an end before the start.
      have wrapped : (from_ + pageable.size).toNat = from_.toNat + pageable.size.toNat - 2 ^ 64 := by
        have top := from_.toNat_lt
        rw [UInt64.toNat_add]
        omega
      rw [Option.bind_some, slice, Usize.toNat_min, wrapped, length, if_neg (by omega)]
    · rfl

theorem offset_eq {page size : Usize} {k : Nat} (numbered : page.toNat = k + 1) :
    (Pageable.offset ⟨page, size, sort⟩).toNat = min (k * size.toNat) (2 ^ 64 - 1) := by
  rw [Pageable.offset, Usize.toNat_saturatingMul, Usize.toNat_saturatingSub_one, numbered,
    Nat.add_sub_cancel]

theorem page_eq {page size : Usize} {k : Nat} (numbered : page.toNat = k + 1) (paged : size ≠ unpagedSize)
    (sorted : repo.sorted runtime spec sort = some rows) (fits : rows.length + size.toNat < 2 ^ 64) :
    repo.findBySpecPaged runtime spec ⟨page, size, sort⟩ =
      some ((rows.drop (k * size.toNat)).take size.toNat) := by
  have bound := sorted_fits sorted
  rw [paged_eq (by simpa [Pageable.isPaged] using paged) sorted, offset_eq numbered,
      if_pos (by dsimp only; omega)]
  congr 2
  -- Past the last row every offset leaves nothing.
  rcases le_total (k * size.toNat) rows.length with inside | beyond
  · rw [min_eq_left (by omega)]
    congr 1
    omega
  · rw [List.drop_of_length_le beyond, List.drop_of_length_le (by omega)]

theorem pages_flatten (rows : List T) (size n : Nat) :
    ((List.range n).flatMap fun k => (rows.drop (k * size)).take size) = rows.take (n * size) := by
  induction n with
  | zero => simp
  | succ n ih =>
    rw [List.range_succ, List.flatMap_append, ih, List.flatMap_singleton, Nat.add_mul, Nat.one_mul,
      List.take_add]

theorem toNat_ofNat {n : Nat} (fits : n < 2 ^ 64) : (UInt64.ofNat n).toNat = n :=
  UInt64.toNat_ofNat_of_lt' fits

theorem pages_of_fits {size : Usize} (sorted : repo.sorted runtime spec sort = some rows)
    (fits : rows = [] ∨ rows.length + size.toNat < 2 ^ 64) : repo.Pages runtime spec sort size := by
  have unpaged : repo.findBySpecPaged runtime spec ⟨1, unpagedSize, sort⟩ = some rows :=
    (unpaged_eq _ (by simp [Pageable.isPaged])).trans sorted
  by_cases empty : rows = []
  · -- Without rows no window ends past the largest `usize`.
    subst empty
    have nothing : ∀ page : Usize, repo.findBySpecPaged runtime spec ⟨page, size, sort⟩ = some [] := by
      intro page
      cases paged : (Pageable.mk page size sort).isPaged with
      | true =>
        have small := size.toNat_lt
        rw [paged_eq paged sorted]
        simp [small]
      | false => exact (unpaged_eq _ paged).trans sorted
    exact ⟨fun page _ => ⟨[], nothing page, by simp⟩, [], unpaged, sorted_perm sorted, fun n _ _ => by
      simp [nothing]⟩
  · replace fits := fits.resolve_left empty
    have positive := List.length_pos_of_ne_nil empty
    have paged : size ≠ unpagedSize := by
      rintro rfl
      have top : unpagedSize.toNat = 2 ^ 64 - 1 := rfl
      omega
    refine ⟨fun page first => ?_, rows, unpaged, sorted_perm sorted, fun n few enough => ?_⟩
    · exact ⟨_, page_eq (k := page.toNat - 1) (by omega) paged sorted fits, by simp⟩
    · have each : ((List.range n).flatMap fun k =>
          (repo.findBySpecPaged runtime spec ⟨.ofNat (k + 1), size, sort⟩).getD []) =
          (List.range n).flatMap fun k => (rows.drop (k * size.toNat)).take size.toNat := by
        refine List.flatMap_congr fun k member => ?_
        have early := List.mem_range.mp member
        rw [page_eq (toNat_ofNat (by omega)) paged sorted fits, Option.getD_some]
      rw [each, pages_flatten, List.take_of_length_le enough]

theorem fits_of_pages {size : Usize} (positive : 1 ≤ size.toNat)
    (sorted : repo.sorted runtime spec sort = some rows) (pages : repo.Pages runtime spec sort size) :
    rows = [] ∨ rows.length + size.toNat < 2 ^ 64 := by
  have bound := sorted_fits sorted
  by_contra both
  rw [not_or] at both
  obtain ⟨present, overflows⟩ := both
  have some_ := List.length_pos_of_ne_nil present
  cases paged : (Pageable.mk 1 size sort).isPaged with
  | true =>
    -- The window of a page after the last row starts at the number of rows.
    have numbered : (UInt64.ofNat (rows.length + 1)).toNat = rows.length + 1 := toNat_ofNat (by omega)
    obtain ⟨window, served, -⟩ := pages.served (.ofNat (rows.length + 1)) (by omega)
    have past : rows.length ≤ rows.length * size.toNat := Nat.le_mul_of_pos_right _ positive
    rw [paged_eq (by exact paged) sorted, offset_eq numbered, if_neg (by dsimp only; omega)] at served
    cases served
  | false =>
    -- Every page of an unpaged request has all rows.
    obtain ⟨all, unpaged, -, whole⟩ := pages.whole
    have everything : ∀ page : Usize, repo.findBySpecPaged runtime spec ⟨page, size, sort⟩ = some rows :=
      fun page => (unpaged_eq ⟨page, size, sort⟩ paged).trans sorted
    have same : size = unpagedSize := by simpa [Pageable.isPaged] using paged
    have twice := whole 2 (by decide)
    rw [← same, everything] at unpaged
    obtain rfl := Option.some.inj unpaged
    have top : size.toNat = 2 ^ 64 - 1 := by rw [same]; rfl
    have doubled := congrArg List.length (twice (by omega))
    exact present (by simpa [List.range_succ, everything] using doubled)

theorem pages_iff {size : Usize} {pageable : Pageable} (accepted : Pageable.of 1 size sort = .ok pageable)
    (runtime : Runtime T) (repo : ReactiveMemoryRepository T) (spec : Specification) :
    repo.Pages runtime spec sort size ↔
      (repo.sorted runtime spec sort).isSome ∧ (repo.matched runtime spec = [] ∨
        (repo.matched runtime spec).length + size.toNat < 2 ^ 64) := by
  have positive : 1 ≤ size.toNat := by
    have large := Pageable.size_pos accepted
    rwa [Pageable.of_eq accepted] at large
  constructor
  · intro pages
    obtain ⟨all, served, -⟩ := pages.whole
    have sorted := (@unpaged_eq _ runtime repo spec ⟨1, unpagedSize, sort⟩
      (by simp [Pageable.isPaged])).symm.trans served
    have perm := sorted_perm sorted
    refine ⟨by rw [sorted]; rfl, ?_⟩
    rw [← List.length_eq_zero_iff, ← perm.length_eq, List.length_eq_zero_iff]
    exact fits_of_pages positive sorted pages
  · rintro ⟨completes, fits⟩
    obtain ⟨rows, sorted⟩ := Option.isSome_iff_exists.mp completes
    have perm := sorted_perm sorted
    rw [← List.length_eq_zero_iff, ← perm.length_eq, List.length_eq_zero_iff] at fits
    exact pages_of_fits sorted fits

def mergeSort : StdSort where
  sortBy cmp xs := some (xs.mergeSort fun a b => (cmp a b).isLE)
  perm _ xs _ sorted := Option.some.inj sorted ▸ List.mergeSort_perm xs _
  stable _ _ _ := rfl

def numbered (build : Build) : Runtime Nat where
  build := build
  std := mergeSort
  lower := id
  toValue n := some (.object [("id", .int n)])

theorem three_rows_paged :
    Pages (numbered .debug) ⟨[1, 2, 3], by decide⟩ .all ⟨[⟨"id", .desc⟩]⟩ 2 :=
  (@pages_iff Nat ⟨[⟨"id", .desc⟩]⟩ 2 ⟨1, 2, _⟩ rfl (numbered .debug) ⟨[1, 2, 3], by decide⟩ .all).mpr
    ⟨rfl, .inr (by decide)⟩

theorem second_page_panics :
    (Pageable.of 2 18446744073709551614 {}).toOption = some ⟨2, 18446744073709551614, {}⟩ ∧
    findBySpecPaged (numbered .debug) ⟨[1, 2], by decide⟩ .all ⟨2, 18446744073709551614, {}⟩ = none ∧
    findBySpecPaged (numbered .release) ⟨[1, 2], by decide⟩ .all ⟨2, 18446744073709551614, {}⟩ = none ∧
    ¬ Pages (numbered .release) ⟨[1, 2], by decide⟩ .all {} 18446744073709551614 := by
  have panics : findBySpecPaged (numbered .release) ⟨[1, 2], by decide⟩ .all
    ⟨2, 18446744073709551614, {}⟩ = none := by decide
  refine ⟨by decide, by decide, panics, fun pages => ?_⟩
  obtain ⟨rows, served, -⟩ := pages.served 2 (by decide)
  rw [panics] at served
  cases served

end ReactiveMemoryRepository

end Firefly.Data
