import Firefly.Data.Filter

set_option autoImplicit false

namespace Firefly.Data

open Json (Value)

structure Order where
  property : String
  direction : Direction
deriving DecidableEq, Repr

structure RequestSort where
  orders : List Order := []
deriving DecidableEq, Repr

def RequestSort.isSorted (sort : RequestSort) : Bool := !sort.orders.isEmpty

def RequestSort.toSorts (sort : RequestSort) : List SortClause :=
  sort.orders.map fun order => ⟨order.property, order.direction⟩

def unpagedSize : Usize := Usize.maxValue

inductive PageableError where
  | pageTooSmall (page : Usize)
  | sizeTooSmall (size : Usize)
deriving DecidableEq

def PageableError.toString : PageableError → String
  | .pageTooSmall page => "page must be >= 1, got " ++ String.ofList (Decimal.digits page.toNat)
  | .sizeTooSmall size => "size must be >= 1, got " ++ String.ofList (Decimal.digits size.toNat)

/-- The page is counted from 1. -/
structure Pageable where
  page : Usize
  size : Usize
  sort : RequestSort
deriving DecidableEq

namespace Pageable

-- The size of an unpaged request is never validated.
def of (page size : Usize) (sort : RequestSort) : Except PageableError Pageable :=
  if size ≠ unpagedSize then
    if page < 1 then .error (.pageTooSmall page)
    else if size < 1 then .error (.sizeTooSmall size)
    else .ok ⟨page, size, sort⟩
  else .ok ⟨page, size, sort⟩

def isPaged (pageable : Pageable) : Bool := pageable.size ≠ unpagedSize

def offset (pageable : Pageable) : Usize :=
  Usize.saturatingMul (Usize.saturatingSub pageable.page 1) pageable.size

def applyTo (pageable : Pageable) (filter : Filter) : Filter :=
  if pageable.isPaged then
    { filter with
      sorts := pageable.sort.toSorts
      page := Usize.saturatingSub pageable.page 1
      size := pageable.size }
  else { filter with sorts := pageable.sort.toSorts, page := 0, size := 0 }

def toFilter (pageable : Pageable) : Filter :=
  if pageable.isPaged then
    { sorts := pageable.sort.toSorts
      page := Usize.saturatingSub pageable.page 1
      size := pageable.size }
  else { sorts := pageable.sort.toSorts, page := 0, size := 0 }

structure Window where
  limit : Option Nat
  offset : Nat
deriving DecidableEq, Repr

def Window.text (window : Window) : String :=
  match window.limit with
  | some limit => limitOffset limit window.offset
  | none =>
    if window.offset = 0 then "" else " OFFSET " ++ String.ofList (Decimal.digits window.offset)

def window (pageable : Pageable) : Window where
  limit := if pageable.isPaged then some pageable.size.toNat else none
  offset := (pageable.page.toNat - 1) * pageable.size.toNat

def clauses (dialect : Dialect) (predicates : List Predicate) (sort : RequestSort) : String :=
  let parts := (renderPredicates dialect predicates {}).1
  (if parts = [] then "" else " WHERE " ++ " AND ".intercalate parts) ++ orderBy dialect sort.toSorts

def RendersWindow (build : Build) (pageable : Pageable) (lowered : Filter) : Prop :=
  ∀ dialect, (lowered.toSqlWith build dialect).map Prod.fst =
    some (clauses dialect lowered.predicates pageable.sort ++ pageable.window.text)

structure SameWindow (build : Build) (filter : Filter) (pageable : Pageable) : Prop where
  offset : pageable.offset.toNat = pageable.window.offset
  lowered : pageable.RendersWindow build pageable.toFilter
  applied : pageable.RendersWindow build (pageable.applyTo filter)

def RendersApart (build : Build) (filter : Filter) (p q : Pageable) : Prop :=
  ∀ dialect, ((p.applyTo filter).toSqlWith build dialect).map Prod.fst ≠
    ((q.applyTo filter).toSqlWith build dialect).map Prod.fst

variable {build : Build} {filter lowered : Filter} {p q : Pageable}

theorem limitOffset_injective (limit : Nat) : Function.Injective (limitOffset limit) := by
  intro a b same
  have texts := congrArg String.toList same
  simp only [limitOffset, String.toList_append, String.toList_ofList, List.append_assoc,
    List.append_cancel_left_eq] at texts
  have values := congrArg Decimal.value texts
  simpa using values

theorem sql_paged (build : Build) (dialect : Dialect) (predicates : List Predicate) (sort : RequestSort)
    {page size : Usize} (some_ : 1 ≤ size.toNat) :
    (Filter.toSqlWith ⟨predicates, sort.toSorts, page, size⟩ build dialect).map Prod.fst =
      (Usize.mul build page size).map fun offset =>
        clauses dialect predicates sort ++ limitOffset size.toNat offset.toNat := by
  have positive : 0 < size := some_
  simp only [Filter.toSqlWith, positive, if_true, clauses]
  cases Usize.mul build page size <;> rfl

theorem sql_unpaged (build : Build) (dialect : Dialect) (predicates : List Predicate)
    (sort : RequestSort) :
    (Filter.toSqlWith ⟨predicates, sort.toSorts, 0, 0⟩ build dialect).map Prod.fst =
      some (clauses dialect predicates sort) := by
  simp [Filter.toSqlWith, clauses]

theorem of_eq {page size : Usize} {sort : RequestSort} (accepted : of page size sort = .ok p) :
    p = ⟨page, size, sort⟩ := by
  rw [of] at accepted
  split_ifs at accepted <;> exact (Except.ok.inj accepted).symm

theorem size_pos {page size : Usize} {sort : RequestSort} (accepted : of page size sort = .ok p) :
    1 ≤ p.size.toNat := by
  rw [of] at accepted
  split at accepted
  · split at accepted
    · cases accepted
    · split at accepted
      · cases accepted
      · rename_i large
        obtain rfl := Except.ok.inj accepted
        exact not_lt.mp large
  · rename_i unpaged
    obtain rfl := Except.ok.inj accepted
    rw [not_not] at unpaged
    subst unpaged
    change 1 ≤ unpagedSize.toNat
    decide

theorem offset_exact : p.offset.toNat = p.window.offset ↔ p.window.offset < 2 ^ 64 := by
  rw [offset, Usize.toNat_saturatingMul, Usize.toNat_saturatingSub_one]
  change min p.window.offset _ = p.window.offset ↔ _
  omega

theorem applyTo_renders (some_ : 1 ≤ p.size.toNat) (fits : p.window.offset < 2 ^ 64) (paged : p.isPaged)
    (filter : Filter) : p.RendersWindow build (p.applyTo filter) := by
  intro dialect
  have exact : p.offset.toNat = (Usize.saturatingSub p.page 1).toNat * p.size.toNat := by
    rw [Usize.toNat_saturatingSub_one]
    exact offset_exact.mpr fits
  simp only [applyTo, paged, if_true]
  rw [sql_paged build dialect filter.predicates p.sort some_, Usize.mul_eq_exact exact,
    Option.map_some, offset_exact.mpr fits]
  simp [window, Window.text, paged]

theorem applyTo_unpaged (unpaged : p.isPaged = false) (filter : Filter) :
    p.RendersWindow build (p.applyTo filter) ↔ p.window.offset = 0 := by
  have text : p.window.text = "" ↔ p.window.offset = 0 := by
    simp only [Window.text, window, unpaged, Bool.false_eq_true, if_false]
    split <;> simp_all
  rw [← text, RendersWindow]
  simp only [applyTo, unpaged, Bool.false_eq_true, if_false, sql_unpaged, Option.some.injEq]
  constructor
  · intro each
    have same := congrArg String.toList (each .sqlite)
    simpa [String.toList_append] using same
  · intro nothing dialect
    rw [nothing, String.append_empty]

theorem sameWindow_iff (some_ : 1 ≤ p.size.toNat) : p.SameWindow build filter ↔
    p.page.toNat ≤ 1 ∨ p.isPaged ∧ p.window.offset < 2 ^ 64 := by
  have start : p.page.toNat ≤ 1 ↔ p.window.offset = 0 := by
    simp only [window, Nat.mul_eq_zero]
    omega
  rw [start]
  cases paged : p.isPaged with
  | true =>
    constructor
    · intro same
      exact .inr ⟨rfl, offset_exact.mp same.offset⟩
    · intro fits
      have fits : p.window.offset < 2 ^ 64 := by omega
      exact ⟨offset_exact.mpr fits, applyTo_renders some_ fits paged {}, applyTo_renders some_ fits paged filter⟩
  | false =>
    simp only [Bool.false_eq_true, false_and, or_false]
    constructor
    · intro same
      exact (applyTo_unpaged paged filter).mp same.applied
    · intro zero
      exact ⟨offset_exact.mpr (by omega), (applyTo_unpaged paged {}).mpr zero,
        (applyTo_unpaged paged filter).mpr zero⟩

theorem renders_apart (some_ : 1 ≤ p.size.toNat) (size : q.size = p.size) (sort : q.sort = p.sort)
    (first : 1 ≤ p.page.toNat) (second : 1 ≤ q.page.toNat) (other : q.page ≠ p.page)
    (mine : p.SameWindow build filter) (theirs : q.SameWindow build filter) :
    RendersApart build filter p q := by
  have pages : q.page.toNat ≠ p.page.toNat := fun same => other (UInt64.toNat_inj.mp same)
  have paging : q.isPaged = p.isPaged := by rw [isPaged, isPaged, size]
  intro dialect same
  rw [mine.applied dialect, theirs.applied dialect, sort] at same
  have kept : ∀ r : Pageable, (r.applyTo filter).predicates = filter.predicates := by
    intro r
    rw [applyTo]
    split <;> rfl
  rw [kept, kept] at same
  have texts := congrArg String.toList (Option.some.inj same)
  simp only [String.toList_append, List.append_cancel_left_eq] at texts
  replace texts := String.toList_inj.mp texts
  cases paged : p.isPaged with
  | true =>
    rw [paged] at paging
    simp only [Window.text, window, paged, paging, if_true, size] at texts
    have offsets := Nat.eq_of_mul_eq_mul_right some_ (limitOffset_injective _ texts)
    omega
  | false =>
    -- Only the first page of an unpaged request keeps its window.
    have one := (sameWindow_iff some_).mp mine
    have onlyOne := (sameWindow_iff (size ▸ some_)).mp theirs
    rw [paged] at paging
    simp only [paged, paging, Bool.false_eq_true, false_and, or_false] at one onlyOne
    omega

theorem windows_kept {page size : Usize} {sort : RequestSort} (accepted : of page size sort = .ok p)
    (build : Build) (filter : Filter) :
    (p.SameWindow build filter ↔
      p.page.toNat ≤ 1 ∨ p.isPaged ∧ (p.page.toNat - 1) * p.size.toNat < 2 ^ 64) ∧
    ∀ q : Pageable, q.size = p.size → q.sort = p.sort → 1 ≤ p.page.toNat → 1 ≤ q.page.toNat →
      q.page ≠ p.page → p.SameWindow build filter → q.SameWindow build filter →
        RendersApart build filter p q :=
  ⟨sameWindow_iff (size_pos accepted), fun _ => renders_apart (size_pos accepted)⟩

theorem third_page_kept : SameWindow .release {} ⟨3, 20, {}⟩ ↔
    (3 : Usize).toNat ≤ 1 ∨ isPaged ⟨3, 20, {}⟩ ∧ (3 - 1) * 20 < 2 ^ 64 :=
  (@windows_kept ⟨3, 20, {}⟩ 3 20 {} rfl .release {}).1

theorem large_page_wraps : of 4294967297 4294967296 {} = .ok ⟨4294967297, 4294967296, {}⟩ ∧
    (∀ build, ¬ SameWindow build {} ⟨4294967297, 4294967296, {}⟩) ∧
    (toFilter ⟨4294967297, 4294967296, {}⟩).toSqlWith .release .postgres =
      some (" LIMIT 4294967296 OFFSET 0", []) ∧
    (toFilter ⟨4294967297, 4294967296, {}⟩).toSqlWith .debug .postgres = none ∧
    (toFilter ⟨1, 4294967296, {}⟩).toSqlWith .release .postgres =
      some (" LIMIT 4294967296 OFFSET 0", []) ∧
    offset ⟨4294967297, 4294967296, {}⟩ = Usize.maxValue := by
  refine ⟨by decide, fun build same => ?_, by decide, by decide, by decide, by decide⟩
  exact absurd ((sameWindow_iff (by decide)).mp same) (by decide)

end Pageable

end Firefly.Data
