import Firefly.Data.Filter
import Firefly.Shared.Double

set_option autoImplicit false

namespace Firefly.Json

-- `Number::as_f64`: an integer is rounded to a double.
def Number.asF64 : Number → ℚ
  | .int n => Double.rounded n
  | .float value => value

-- `row.get(key).unwrap_or(&Value::Null)`.
def Value.field : Value → String → Value
  | .object fields, key => (Fields.get fields key).getD .null
  | _, _ => .null

end Firefly.Json

namespace Firefly.Data

open Json (Value)
open Std (TransCmp OrientedCmp)

attribute [local instance] lexOrd

def compareJsonValues : Value → Value → Ordering
  | .null, .null => .eq
  | .null, _ => .lt
  | _, .null => .gt
  | .number x, .number y => compare x.asF64 y.asF64
  | .string x, .string y => compare x y
  | .bool x, .bool y => compare x y
  | _, _ => .eq

def typeRank : Value → Nat
  | .null => 4
  | .bool _ => 0
  | .number _ => 1
  | .string _ => 2
  | _ => 3

def jsonOrder : Value → Value → Ordering
  | .number x, .number y => compare x.asF64 y.asF64
  | .string x, .string y => compare x y
  | .bool x, .bool y => compare x y
  | .null, .null => .eq
  | .null, _ => .gt
  | _, .null => .lt
  | a, b => compare (typeRank a) (typeRank b)

-- The closure given to `sort_by`: the first clause that tells two rows apart decides.
def compareRows (cmp : Value → Value → Ordering) : List SortClause → Value → Value → Ordering
  | [], _, _ => .eq
  | clause :: rest, a, b =>
    let ord := cmp (a.field clause.field) (b.field clause.field)
    let ord := match clause.direction with
      | .asc => ord
      | .desc => ord.swap
    if ord ≠ .eq then ord else compareRows cmp rest a b

def scalar : Value → Bool × ℚ × String
  | .bool b => (b, 0, "")
  | .number n => (false, n.asF64, "")
  | .string s => (false, 0, s)
  | _ => (false, 0, "")

theorem compare_pair {α β : Type} [Ord α] [Ord β] (a c : α) (b d : β) :
    compare (a, b) (c, d) = (compare a c).then (compare b d) := rfl

theorem compareJsonValues_same {a b : Value} (same : typeRank a = typeRank b) :
    compareJsonValues a b = compare (scalar a) (scalar b) := by
  cases a <;> cases b <;>
    first
    | (cases same; done)
    | simp [compareJsonValues, scalar, compare_pair, Std.compare_self]

theorem compareJsonValues_mixed {a b : Value} (left : a ≠ .null) (right : b ≠ .null)
    (mixed : typeRank a ≠ typeRank b) : compareJsonValues a b = .eq := by
  cases a <;> cases b <;>
    first | rfl | exact absurd rfl left | exact absurd rfl right | exact absurd rfl mixed

theorem jsonOrder_eq : jsonOrder = compareOn fun v => (typeRank v, scalar v) := by
  funext a b
  rw [compareOn, compare_pair]
  cases a <;> cases b <;>
    first
    | rfl
    | simp [jsonOrder, typeRank, scalar, compare_pair, Std.compare_self]

theorem transCmp_comap {α β : Type} {cmp : β → β → Ordering} [TransCmp cmp] (f : α → β) :
    TransCmp fun a b => cmp (f a) (f b) where
  eq_swap {_ _} := @OrientedCmp.eq_swap β cmp _ _ _
  isLE_trans {_ _ _} := @TransCmp.isLE_trans β cmp _ _ _ _

instance : TransCmp jsonOrder := by
  rw [jsonOrder_eq]
  infer_instance

theorem compareJsonValues_swap (a b : Value) :
    compareJsonValues a b = (compareJsonValues b a).swap := by
  by_cases same : typeRank a = typeRank b
  · rw [compareJsonValues_same same, compareJsonValues_same same.symm]
    exact OrientedCmp.eq_swap
  · cases a <;> cases b <;> first | rfl | exact absurd rfl same

/-- Where two values of one type differ, no value of another type but `null` is beside them. -/
def Uniform (S : Set Value) : Prop :=
  ∀ a ∈ S, ∀ b ∈ S, typeRank a = typeRank b → scalar a ≠ scalar b →
    ∀ c ∈ S, c ≠ .null → typeRank c = typeRank a

theorem null_least (b : Value) : (compareJsonValues .null b).isLE := by
  cases b <;> rfl

theorem le_null {a : Value} (least : (compareJsonValues a .null).isLE) : a = .null := by
  cases a <;> first | rfl | cases least

theorem ne_null_of_scalar {a b : Value} (same : typeRank a = typeRank b) (differ : scalar a ≠ scalar b) :
    a ≠ .null := by
  rintro rfl
  cases b <;> first | exact differ rfl | cases same

theorem uniform_iff (S : Set Value) :
    TransCmp (fun a b : S => compareJsonValues a b) ↔ Uniform S := by
  constructor
  · intro lawful a inA b inB same differ c inC present
    by_contra mixed
    have notNull := ne_null_of_scalar same differ
    have otherNotNull := ne_null_of_scalar same.symm (Ne.symm differ)
    have first : compareJsonValues a c = .eq := compareJsonValues_mixed notNull present (Ne.symm mixed)
    have second : compareJsonValues c b = .eq :=
      compareJsonValues_mixed present otherNotNull fun again => mixed (again.trans same.symm)
    have both := @TransCmp.eq_trans S (fun a b => compareJsonValues a b) lawful
      ⟨a, inA⟩ ⟨c, inC⟩ ⟨b, inB⟩ first second
    exact differ (Std.compare_eq_iff_eq.mp (compareJsonValues_same same ▸ both))
  · intro uniform
    refine { eq_swap := compareJsonValues_swap _ _, isLE_trans := ?_ }
    rintro ⟨a, inA⟩ ⟨b, inB⟩ ⟨c, inC⟩ first second
    simp only at first second ⊢
    by_cases noA : a = .null
    · exact noA ▸ null_least c
    by_cases noB : b = .null
    · exact absurd (le_null (noB ▸ first)) noA
    by_cases noC : c = .null
    · exact absurd (le_null (noC ▸ second)) noB
    by_cases mixed : typeRank a = typeRank c
    · by_cases differ : scalar a = scalar c
      · rw [compareJsonValues_same mixed, differ, Std.compare_self]
        rfl
      · -- All three are of one type.
        have middle := uniform a inA c inC mixed differ b inB noB
        rw [compareJsonValues_same middle.symm] at first
        rw [compareJsonValues_same (middle.trans mixed)] at second
        rw [compareJsonValues_same mixed]
        exact TransCmp.isLE_trans first second
    · rw [compareJsonValues_mixed noA noC mixed]
      rfl

theorem compareRows_trans {cmp : Value → Value → Ordering} {R : Set Value} {clauses : List SortClause}
    (keys : ∀ clause ∈ clauses,
      TransCmp fun a b : (fun row => row.field clause.field) '' R => cmp a b) :
    TransCmp fun a b : R => compareRows cmp clauses a b := by
  induction clauses with
  | nil => exact { eq_swap := rfl, isLE_trans := fun _ _ => rfl }
  | cons clause rest ih =>
    have later := ih fun other member => keys other (by simp [member])
    have here := keys clause (by simp)
    let value (row : R) : (fun row => row.field clause.field) '' R :=
      ⟨row.1.field clause.field, row, row.2, rfl⟩
    have ascending : TransCmp fun a b : R => cmp (value a) (value b) :=
      @transCmp_comap R ((fun row => row.field clause.field) '' R) (fun a b => cmp a b) here value
    have split : (fun a b : R => compareRows cmp (clause :: rest) a b) =
        compareLex (fun a b : R => match clause.direction with
          | .asc => cmp (value a) (value b)
          | .desc => cmp (value b) (value a)) fun a b : R => compareRows cmp rest a b := by
      funext a b
      have swapped : (cmp (value a) (value b)).swap = cmp (value b) (value a) :=
        (@OrientedCmp.eq_swap R (fun a b => cmp (value a) (value b)) _ b a).symm
      rw [compareLex, compareRows]
      cases clause.direction with
      | asc => cases cmp (value a) (value b) <;> rfl
      | desc =>
        change (if (cmp (value a) (value b)).swap ≠ .eq then (cmp (value a) (value b)).swap else _) = _
        rw [swapped]
        cases cmp (value b) (value a) <;> rfl
    have directed : TransCmp fun a b : R => match clause.direction with
        | .asc => cmp (value a) (value b)
        | .desc => cmp (value b) (value a) := by
      cases clause.direction with
      | asc => exact ascending
      | desc => exact @TransCmp.opposite R (fun a b => cmp (value a) (value b)) ascending
    rw [split]
    infer_instance

theorem uniform_rows {R : Set Value} {clauses : List SortClause}
    (keys : ∀ clause ∈ clauses, Uniform ((fun row => row.field clause.field) '' R)) :
    TransCmp fun a b : R => compareRows compareJsonValues clauses a b :=
  compareRows_trans fun clause member => (uniform_iff _).mpr (keys clause member)

theorem jsonOrder_rows (clauses : List SortClause) : TransCmp (compareRows jsonOrder clauses) := by
  have everywhere : TransCmp fun a b : (Set.univ : Set Value) => compareRows jsonOrder clauses a b :=
    compareRows_trans fun _ _ => transCmp_comap Subtype.val
  exact @transCmp_comap Value (Set.univ : Set Value) (fun a b => compareRows jsonOrder clauses a b) everywhere
    fun row => ⟨row, trivial⟩

theorem jsonOrder_int (m n : Int) : jsonOrder (.int m) (.int n) = compare m n ↔
    (m ≠ n → Double.rounded m ≠ Double.rounded n) := by
  change compare (Double.rounded m) (Double.rounded n) = compare m n ↔ _
  rcases lt_trichotomy m n with less | same | greater
  · have order : Double.rounded m ≤ Double.rounded n := Double.rounded_mono (by exact_mod_cast less.le)
    rw [compare_lt_iff_lt.mpr less, compare_lt_iff_lt, order.lt_iff_ne]
    simp [less.ne]
  · subst same
    simp [Std.compare_self]
  · have order : Double.rounded n ≤ Double.rounded m := Double.rounded_mono (by exact_mod_cast greater.le)
    rw [compare_gt_iff_gt.mpr greater, compare_gt_iff_gt, order.lt_iff_ne]
    simp [greater.ne', ne_comm]

theorem comparators_ordered (S R : Set Value) (clauses : List SortClause) (m n : Int) :
    (TransCmp (fun a b : S => compareJsonValues a b) ↔ Uniform S) ∧
    ((∀ clause ∈ clauses, Uniform ((fun row => row.field clause.field) '' R)) →
      TransCmp fun a b : R => compareRows compareJsonValues clauses a b) ∧
    TransCmp jsonOrder ∧ TransCmp (compareRows jsonOrder clauses) ∧
    (jsonOrder (.int m) (.int n) = compare m n ↔ (m ≠ n → Double.rounded m ≠ Double.rounded n)) :=
  ⟨uniform_iff S, uniform_rows, inferInstance, jsonOrder_rows clauses, jsonOrder_int m n⟩

theorem mixed_not_transitive :
    compareJsonValues (.int 1) (.string "a") = .eq ∧ compareJsonValues (.string "a") (.int 2) = .eq ∧
    compareJsonValues (.int 1) (.int 2) = .lt ∧ ¬ TransCmp compareJsonValues ∧
    jsonOrder (.int 9007199254740992) (.int 9007199254740993) = .eq := by
  have less : compareJsonValues (.int 1) (.int 2) = .lt := by decide +kernel
  refine ⟨rfl, rfl, less, fun lawful => ?_, by decide +kernel⟩
  have same := @TransCmp.eq_trans _ _ lawful (.int 1) (.string "a") (.int 2) rfl rfl
  rw [less] at same
  cases same

end Firefly.Data
