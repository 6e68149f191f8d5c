import Firefly.RuleEngine.ActionRuns
import Firefly.Shared.Double
import Firefly.Shared.Usize

set_option autoImplicit false

-- In a debug build the sum of two `i64` panics past the limits, in a release build it wraps around.

namespace Firefly.RuleEngine

open Json

def FitsI64 (n : Int) : Prop := -2 ^ 63 ≤ n ∧ n < 2 ^ 63

instance (n : Int) : Decidable (FitsI64 n) := inferInstanceAs (Decidable (_ ∧ _))

def addI64 (build : Build) (a b : Int) : Option Int :=
  if build = .release ∨ FitsI64 (a + b) then some ((a + b).bmod (2 ^ 64)) else none

def addNumericIn (build : Build) (current «by» : Value) : Option (Except ActionError Value) :=
  match numericOperand current, numericOperand «by» with
  | .ok (some a, _), .ok (some b, _) => (addI64 build a b).map fun sum => .ok (.int sum)
  | _, _ => some (addNumeric current «by»)

def increment (build : Build) (action : Action) (facts : Fact) :
    Option (Except ActionError Unit × Fact) :=
  match requireTarget action "increment" with
  | .error error => some (.error error, facts)
  | .ok target =>
    let current := pyOr ((readPath facts target).getD .null) (.int 0)
    let «by» := pyOr ((action.params.get "value").getD .null) (.int 1)
    (addNumericIn build current «by»).map fun
      | .error error => (.error error, facts)
      | .ok sum => (.ok (), writePath facts target sum)

theorem addNumericIn_release (current «by» : Value) :
    addNumericIn .release current «by» = some (addNumeric current «by») := by
  rw [addNumericIn]
  split
  · rename_i one other
    rw [addNumeric, one, other]
    simp [addI64]
  · rfl

theorem increment_release (action : Action) (facts : Fact) :
    increment .release action facts = some ((incrementShared action).run facts) := by
  rw [incrementShared_agrees, increment, incrementHandler]
  cases requireTarget action "increment" with
  | error error => rfl
  | ok target =>
    simp only [addNumericIn_release, Option.map_some, lookup_eq_readPath]
    split <;> rename_i same <;> simp only [same]

def falsy : Value → Bool
  | .null => true
  | .bool b => !b
  | .number (.int n) => n = 0
  | .number (.float q) => q = 0
  | .string s => s = ""
  | .array items => items = []
  | .object fields => fields = []

def integral : Value → Option Int
  | .bool b => some b.toInt
  | .number (.int n) => some n
  | _ => none

def operand (default : Int) (value : Option Value) : Option Int :=
  let value := value.getD .null
  if falsy value then some default else integral value

def numberValue : Number → ℚ
  | .int n => n
  | .float q => q

def summands (action : Action) (facts : Fact) (target : String) : Option (Int × Int) :=
  match operand 0 (readPath facts target), operand 1 (action.params.get "value") with
  | some current, some «by» => some (current, «by»)
  | _, _ => none

def Integral (action : Action) (facts : Fact) : Prop :=
  ∀ target, requireTarget action "increment" = .ok target → (summands action facts target).isSome

def Exact (action : Action) (facts : Fact) : Option (Except ActionError Unit × Fact) → Prop
  | none => False
  | some (.error _, after) => after = facts
  | some (.ok (), after) => ∃ target current «by» sum, requireTarget action "increment" = .ok target ∧
      summands action facts target = some (current, «by») ∧ numberValue sum = current + «by» ∧
      after = writePath facts target (.number sum)

def ExactInDoubles (a b : Int) : Prop :=
  Double.nearest (asF64 (.int a) + asF64 (.int b)) = some (a + b : ℚ)

/-- Both summands and their sum are in `i64`; or one summand is not, and rounding to doubles is harmless. -/
def Safe (action : Action) (facts : Fact) : Prop :=
  ∀ target a b, requireTarget action "increment" = .ok target →
    summands action facts target = some (a, b) →
    if FitsI64 a ∧ FitsI64 b then FitsI64 (a + b) else ExactInDoubles a b

variable {build : Build} {action : Action} {facts : Fact} {a b : Int}

theorem pyTruthy_eq (value : Value) : pyTruthy value = !falsy value := by
  cases value with
  | null => rfl
  | bool b => simp [pyTruthy, falsy]
  | number n =>
    cases n with
    | float q => by_cases zero : q = 0 <;> simp [pyTruthy, falsy, asF64, zero]
    | int n =>
      have zero : asF64 (.int n) = 0 ↔ n = 0 := by
        rw [asF64]
        cases near : Double.nearest n with
        | none => simp
        | some r =>
          rw [Option.getD_some, Double.nearest_some near]
          exact Double.rounded_int_eq_zero
      simp [pyTruthy, falsy, zero]
  | string s => simp [pyTruthy, falsy]
  | array items => cases items <;> simp [pyTruthy, falsy]
  | object fields => cases fields <;> simp [pyTruthy, falsy]

theorem numericOperand_integral {value : Value} (int : integral value = some a) :
    numericOperand value = .ok (if FitsI64 a then some a else none, asF64 (.int a)) := by
  cases value with
  | bool b =>
    cases int
    cases b <;> decide +kernel
  | number n =>
    cases n with
    | int n =>
      cases int
      rfl
    | float q => cases int
  | null | string | array | object => cases int

theorem numericOperand_operand {default : Int} {value : Option Value} (int : operand default value = some a) :
    numericOperand (pyOr (value.getD .null) (.int default)) =
      .ok (if FitsI64 a then some a else none, asF64 (.int a)) := by
  rw [operand] at int
  rw [pyOr, pyTruthy_eq]
  cases none_ : falsy (value.getD .null) with
  | true =>
    simp only [none_, if_true, Option.some.injEq] at int
    exact numericOperand_integral (by simpa [integral] using int)
  | false =>
    simp only [none_, Bool.false_eq_true, if_false] at int
    exact numericOperand_integral int

theorem summands_operands {target : String} (two : summands action facts target = some (a, b)) :
    operand 0 (readPath facts target) = some a ∧ operand 1 (action.params.get "value") = some b := by
  rw [summands] at two
  split at two
  · rename_i current «by» one other
    cases two
    exact ⟨one, other⟩
  · cases two

theorem bmod_fits (fits : FitsI64 a) : a.bmod (2 ^ 64) = a :=
  Int.bmod_eq_of_le (by have := fits.1; omega) (by have := fits.2; omega)

theorem bmod_wraps (a : Int) : FitsI64 (a.bmod (2 ^ 64)) := by
  have low := @Int.le_bmod a (2 ^ 64) (by decide)
  have high := @Int.bmod_lt a (2 ^ 64) (by decide)
  constructor <;> omega

theorem writePath_inj {path : String} {value other : Value}
    (same : writePath facts path value = writePath facts path other) : value = other := by
  have read := readPath_writePath facts path value
  rw [same, readPath_writePath] at read
  exact (Option.some.inj read).symm

theorem increment_sum {target : String} (found : requireTarget action "increment" = .ok target)
    (two : summands action facts target = some (a, b)) : increment build action facts =
      if FitsI64 a ∧ FitsI64 b then
        (addI64 build a b).map fun sum => (.ok (), writePath facts target (.int sum))
      else some (.ok (), writePath facts target
        (((Double.nearest (asF64 (.int a) + asF64 (.int b))).map fun sum =>
          .number (.float sum)).getD .null)) := by
  have both := summands_operands two
  simp only [increment, found, addNumericIn, addNumeric, numericOperand_operand both.1,
    numericOperand_operand both.2]
  by_cases first : FitsI64 a
  · by_cases second : FitsI64 b
    · simp only [first, second, if_true, and_self, Option.map_map]
      rfl
    · simp only [first, second, if_true, if_false, and_false]
      cases Double.nearest (asF64 (.int a) + asF64 (.int b)) <;> rfl
  · by_cases second : FitsI64 b
    · simp only [first, second, if_true, if_false, false_and]
      cases Double.nearest (asF64 (.int a) + asF64 (.int b)) <;> rfl
    · simp only [first, second, if_false, false_and]
      cases Double.nearest (asF64 (.int a) + asF64 (.int b)) <;> rfl

theorem exact_written_iff {target : String} {value : Value}
    (found : requireTarget action "increment" = .ok target)
    (two : summands action facts target = some (a, b)) :
    Exact action facts (some (.ok (), writePath facts target value)) ↔
      ∃ sum, value = .number sum ∧ numberValue sum = a + b := by
  constructor
  · rintro ⟨_, _, _, sum, again, same, exact_, written⟩
    cases found.symm.trans again
    cases two.symm.trans same
    exact ⟨sum, writePath_inj written, exact_⟩
  · rintro ⟨sum, rfl, exact_⟩
    exact ⟨target, a, b, sum, found, two, exact_, rfl⟩

theorem addI64_exact_iff {target : String} (found : requireTarget action "increment" = .ok target)
    (two : summands action facts target = some (a, b)) :
    Exact action facts ((addI64 build a b).map fun sum => (.ok (), writePath facts target (.int sum))) ↔
      FitsI64 (a + b) := by
  rw [addI64]
  by_cases fits : FitsI64 (a + b)
  · rw [if_pos (.inr fits), bmod_fits fits, Option.map_some, exact_written_iff found two]
    exact iff_of_true ⟨.int (a + b), rfl, by simp [numberValue]⟩ fits
  · refine iff_of_false ?_ fits
    split
    · rw [Option.map_some, exact_written_iff found two]
      rintro ⟨sum, same, exact_⟩
      cases same
      have whole : (a + b).bmod (2 ^ 64) = a + b := by
        rw [numberValue] at exact_
        exact_mod_cast exact_
      exact fits (whole ▸ bmod_wraps (a + b))
    · exact id

theorem increment_exact_iff (build : Build) (int : Integral action facts) :
    Exact action facts (increment build action facts) ↔ Safe action facts := by
  cases found : requireTarget action "increment" with
  | error error =>
    have unchanged : increment build action facts = some (.error error, facts) := by
      rw [increment, found]
    rw [unchanged]
    refine iff_of_true rfl fun target a b again => ?_
    rw [found] at again
    cases again
  | ok target =>
    obtain ⟨⟨a, b⟩, two⟩ := Option.isSome_iff_exists.mp (int target found)
    have safe : Safe action facts ↔
        if FitsI64 a ∧ FitsI64 b then FitsI64 (a + b) else ExactInDoubles a b := by
      refine ⟨fun safe => safe target a b found two, fun safe target' a' b' again same => ?_⟩
      cases found.symm.trans again
      cases two.symm.trans same
      exact safe
    rw [safe, increment_sum found two]
    split_ifs with fit
    · exact addI64_exact_iff found two
    · rw [exact_written_iff found two, ExactInDoubles]
      cases Double.nearest (asF64 (.int a) + asF64 (.int b)) with
      | none => simp
      | some sum =>
        constructor
        · rintro ⟨_, same, exact_⟩
          cases same
          exact congrArg some exact_
        · rintro ⟨⟩
          exact ⟨_, rfl, rfl⟩

def Along (P : Action → Fact → Prop) (build : Build) : List Action → Fact → Prop
  | [], _ => True
  | action :: actions, facts => P action facts ∧
    ∀ outcome ∈ increment build action facts, Along P build actions outcome.2

theorem along_iff {P Q R : Action → Fact → Prop} (step : ∀ action facts, P action facts →
    (Q action facts ↔ R action facts)) {actions : List Action} (domain : Along P build actions facts) :
    Along Q build actions facts ↔ Along R build actions facts := by
  induction actions generalizing facts with
  | nil => exact Iff.rfl
  | cons action actions ih =>
    rw [Along, Along, step action facts domain.1]
    refine and_congr_right fun _ => ?_
    exact forall₂_congr fun outcome ran => ih (domain.2 outcome ran)

theorem increments_exact_iff (build : Build) (actions : List Action) (facts : Fact)
    (domain : Along Integral build actions facts) :
    Along (fun action facts => Exact action facts (increment build action facts)) build actions facts ↔
      Along Safe build actions facts :=
  along_iff (fun _ _ int => increment_exact_iff build int) domain

def counter (n : Int) : Fact := [("n", .int n)]

def countUp : Action := ⟨"increment", [("target", .string "n")]⟩

theorem countUp_target {target : String} (found : requireTarget countUp "increment" = .ok target) :
    target = "n" := by
  have named : requireTarget countUp "increment" = .ok "n" := by decide
  exact (Except.ok.inj (named.symm.trans found)).symm

theorem countUp_summands (n : Int) : summands countUp (counter n) "n" = some (n, 1) := by
  have read : readPath (counter n) "n" = some (.int n) := rfl
  have one : operand 1 (countUp.params.get "value") = some 1 := by decide
  have current : operand 0 (some (.int n)) = some n := by
    by_cases zero : n = 0
    · simp [operand, falsy, zero]
    · simp [operand, falsy, integral, zero]
  rw [summands, read, one, current]

theorem countUp_integral (build : Build) (n : Int) : Along Integral build [countUp] (counter n) := by
  refine ⟨fun target found => ?_, fun _ _ => trivial⟩
  rw [countUp_target found, countUp_summands]
  rfl

theorem countUp_safe_iff {n : Int} (fits : FitsI64 n) : Safe countUp (counter n) ↔ FitsI64 (n + 1) := by
  constructor
  · intro safe
    have sum := safe "n" n 1 (by decide) (countUp_summands n)
    rwa [if_pos ⟨fits, by decide⟩] at sum
  · intro safe target a b found two
    cases countUp_target found
    cases (countUp_summands n).symm.trans two
    rwa [if_pos ⟨fits, by decide⟩]

theorem count_up_exact :
    Along (fun action facts => Exact action facts (increment .debug action facts)) .debug [countUp]
      (counter 41) := by
  refine (increments_exact_iff .debug [countUp] (counter 41) (countUp_integral .debug 41)).mpr ?_
  exact ⟨(countUp_safe_iff (by decide)).mpr (by decide), fun _ _ => trivial⟩

theorem count_past_max :
    (∀ build, Along Integral build [countUp] (counter 9223372036854775807) ∧
      ¬ Along (fun action facts => Exact action facts (increment build action facts)) build [countUp]
        (counter 9223372036854775807)) ∧
    increment .debug countUp (counter 9223372036854775807) = none ∧
    increment .release countUp (counter 9223372036854775807) =
      some (.ok (), counter (-9223372036854775808)) := by
  refine ⟨fun build => ⟨countUp_integral build _, fun all => ?_⟩, by decide +kernel, by decide +kernel⟩
  have safe := (increment_exact_iff build (countUp_integral build _).1).mp all.1
  rw [countUp_safe_iff (by decide)] at safe
  exact absurd safe (by decide)

end Firefly.RuleEngine
