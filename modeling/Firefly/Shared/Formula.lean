import Mathlib

set_option autoImplicit false

/-!
# Boolean formulas

Formulas over tests, with the truth of Boolean logic and of the three-valued logic of SQL.
-/

namespace Firefly.Formulas

variable {τ υ : Type}

inductive Formula (τ : Type) where
  | test (t : τ)
  | all (parts : List (Formula τ))
  | any (parts : List (Formula τ))
  | not (part : Formula τ)
deriving Repr

/-- `none` is UNKNOWN. -/
abbrev Truth := Option Bool

namespace Truth

def not (a : Truth) : Truth := a.map Bool.not

def and (a b : Truth) : Truth :=
  if a = some false ∨ b = some false then some false
  else if a = none ∨ b = none then none
  else some true

def or (a b : Truth) : Truth :=
  if a = some true ∨ b = some true then some true
  else if a = none ∨ b = none then none
  else some false

def anyOf (truths : List Truth) : Truth := truths.foldr or (some false)

theorem anyOf_eq_true {truths : List Truth} : anyOf truths = some true ↔ some true ∈ truths := by
  have step : ∀ a b : Truth, or a b = some true ↔ some true = a ∨ b = some true := by decide
  induction truths with
  | nil => simp [anyOf]
  | cons truth truths ih =>
    rw [anyOf, List.foldr_cons, step, List.mem_cons]
    exact or_congr Iff.rfl ih

theorem anyOf_eq_false {truths : List Truth} :
    anyOf truths = some false ↔ ∀ truth ∈ truths, truth = some false := by
  have step : ∀ a b : Truth, or a b = some false ↔ a = some false ∧ b = some false := by decide
  induction truths with
  | nil => simp [anyOf]
  | cons truth truths ih =>
    rw [anyOf, List.foldr_cons, step, List.forall_mem_cons]
    exact and_congr Iff.rfl ih

def Agrees (sign value : Bool) (truth : Truth) : Prop := value = sign ↔ truth = some sign

instance (sign value : Bool) (truth : Truth) : Decidable (Agrees sign value truth) :=
  inferInstanceAs (Decidable (_ ↔ _))

variable {sign a b : Bool} {x y : Truth}

theorem agrees_not : Agrees sign (!a) (not x) ↔ Agrees (!sign) a x := by
  revert sign a x
  decide

theorem agrees_some : Agrees sign a (some b) ↔ a = b := by
  revert sign a b
  decide

theorem agrees_none : Agrees sign a none ↔ sign = !a := by
  revert sign a
  decide

theorem Agrees.and (left : Agrees sign a x) (right : Agrees sign b y) :
    Agrees sign (a && b) (and x y) := by
  revert sign a b x y
  decide

theorem Agrees.or (left : Agrees sign a x) (right : Agrees sign b y) :
    Agrees sign (a || b) (or x y) := by
  revert sign a b x y
  decide

end Truth

namespace Formula

-- The parts of a node are lists: a property is proved of a node from all its parts.
@[elab_as_elim]
theorem induct {P : Formula τ → Prop} (test : ∀ t, P (.test t))
    (all : ∀ parts, (∀ part ∈ parts, P part) → P (.all parts))
    (any : ∀ parts, (∀ part ∈ parts, P part) → P (.any parts))
    (not : ∀ part, P part → P (.not part)) (formula : Formula τ) : P formula :=
  @Formula.rec τ P (fun parts => ∀ part ∈ parts, P part) test all any not (by simp)
    (fun part parts here rest => by simpa using ⟨here, rest⟩) formula

mutual

def eval (holds : τ → Bool) : Formula τ → Bool
  | .test t => holds t
  | .all parts => evalAll holds parts
  | .any parts => evalAny holds parts
  | .not part => !eval holds part

def evalAll (holds : τ → Bool) : List (Formula τ) → Bool
  | [] => true
  | part :: parts => eval holds part && evalAll holds parts

def evalAny (holds : τ → Bool) : List (Formula τ) → Bool
  | [] => false
  | part :: parts => eval holds part || evalAny holds parts

end

mutual

def truth (holds : τ → Truth) : Formula τ → Truth
  | .test t => holds t
  | .all parts => truthAll holds parts
  | .any parts => truthAny holds parts
  | .not part => Truth.not (truth holds part)

def truthAll (holds : τ → Truth) : List (Formula τ) → Truth
  | [] => some true
  | part :: parts => Truth.and (truth holds part) (truthAll holds parts)

def truthAny (holds : τ → Truth) : List (Formula τ) → Truth
  | [] => some false
  | part :: parts => Truth.or (truth holds part) (truthAny holds parts)

end

mutual

def map (f : τ → υ) : Formula τ → Formula υ
  | .test t => .test (f t)
  | .all parts => .all (mapParts f parts)
  | .any parts => .any (mapParts f parts)
  | .not part => .not (map f part)

def mapParts (f : τ → υ) : List (Formula τ) → List (Formula υ)
  | [] => []
  | part :: parts => map f part :: mapParts f parts

end

mutual

def tests : Formula τ → List τ
  | .test t => [t]
  | .all parts => testsOf parts
  | .any parts => testsOf parts
  | .not part => tests part

def testsOf : List (Formula τ) → List τ
  | [] => []
  | part :: parts => tests part ++ testsOf parts

end

mutual

def signed : Bool → Formula τ → List (Bool × τ)
  | sign, .test t => [(sign, t)]
  | sign, .all parts => signedOf sign parts
  | sign, .any parts => signedOf sign parts
  | sign, .not part => signed (!sign) part

def signedOf : Bool → List (Formula τ) → List (Bool × τ)
  | _, [] => []
  | sign, part :: parts => signed sign part ++ signedOf sign parts

end

inductive Proper : Formula τ → Prop where
  | test (t : τ) : Proper (.test t)
  | all {parts : List (Formula τ)} (several : 2 ≤ parts.length)
    (proper : ∀ part ∈ parts, Proper part) : Proper (.all parts)
  | any {parts : List (Formula τ)} (several : 2 ≤ parts.length)
    (proper : ∀ part ∈ parts, Proper part) : Proper (.any parts)
  | not {part : Formula τ} (proper : Proper part) : Proper (.not part)

@[simp] theorem mapParts_eq (f : τ → υ) (parts : List (Formula τ)) :
    mapParts f parts = parts.map (map f) := by
  induction parts with
  | nil => rfl
  | cons part parts ih => simp [mapParts, ih]

@[simp] theorem testsOf_eq (parts : List (Formula τ)) : testsOf parts = parts.flatMap tests := by
  induction parts with
  | nil => rfl
  | cons part parts ih => simp [testsOf, ih]

theorem mem_tests_all {parts : List (Formula τ)} {part : Formula τ} {t : τ} (inside : part ∈ parts)
    (found : t ∈ part.tests) : t ∈ (Formula.all parts).tests := by
  rw [tests, testsOf_eq]
  exact List.mem_flatMap.mpr ⟨part, inside, found⟩

theorem mem_tests_any {parts : List (Formula τ)} {part : Formula τ} {t : τ} (inside : part ∈ parts)
    (found : t ∈ part.tests) : t ∈ (Formula.any parts).tests := by
  rw [tests, testsOf_eq]
  exact List.mem_flatMap.mpr ⟨part, inside, found⟩

@[simp] theorem signedOf_eq (sign : Bool) (parts : List (Formula τ)) :
    signedOf sign parts = parts.flatMap (signed sign) := by
  induction parts with
  | nil => rfl
  | cons part parts ih => simp [signedOf, ih]

section Agreement

variable {holds : τ → Bool} {truth : τ → Truth} {sign : Bool}

theorem evalAll_agrees {parts : List (Formula τ)}
    (agree : ∀ part ∈ parts, Truth.Agrees sign (part.eval holds) (part.truth truth)) :
    Truth.Agrees sign (evalAll holds parts) (truthAll truth parts) := by
  induction parts with
  | nil => cases sign <;> simp [Truth.Agrees, evalAll, truthAll]
  | cons part parts ih =>
    exact (agree part (by simp)).and (ih fun other inside => agree other (by simp [inside]))

theorem evalAny_agrees {parts : List (Formula τ)}
    (agree : ∀ part ∈ parts, Truth.Agrees sign (part.eval holds) (part.truth truth)) :
    Truth.Agrees sign (evalAny holds parts) (truthAny truth parts) := by
  induction parts with
  | nil => cases sign <;> simp [Truth.Agrees, evalAny, truthAny]
  | cons part parts ih =>
    exact (agree part (by simp)).or (ih fun other inside => agree other (by simp [inside]))

theorem eval_agrees {formula : Formula τ}
    (agree : ∀ leaf ∈ formula.signed sign, Truth.Agrees leaf.1 (holds leaf.2) (truth leaf.2)) :
    Truth.Agrees sign (formula.eval holds) (formula.truth truth) := by
  induction formula using induct generalizing sign with
  | test t => exact agree (sign, t) (by simp [signed])
  | all parts ih =>
    rw [signed, signedOf_eq] at agree
    exact evalAll_agrees fun part inside => ih part inside fun leaf member =>
      agree leaf (List.mem_flatMap.mpr ⟨part, inside, member⟩)
  | any parts ih =>
    rw [signed, signedOf_eq] at agree
    exact evalAny_agrees fun part inside => ih part inside fun leaf member =>
      agree leaf (List.mem_flatMap.mpr ⟨part, inside, member⟩)
  | not part ih => exact Truth.agrees_not.mpr (ih fun leaf member => agree leaf (by rwa [signed]))

end Agreement

section Map

variable {f : τ → υ} {truth : υ → Truth}

theorem truthAll_map {parts : List (Formula τ)}
    (each : ∀ part ∈ parts, (part.map f).truth truth = part.truth (truth ∘ f)) :
    truthAll truth (parts.map (map f)) = truthAll (truth ∘ f) parts := by
  induction parts with
  | nil => rfl
  | cons part parts ih =>
    rw [List.map_cons, truthAll, truthAll, each part (by simp),
      ih fun other inside => each other (by simp [inside])]

theorem truthAny_map {parts : List (Formula τ)}
    (each : ∀ part ∈ parts, (part.map f).truth truth = part.truth (truth ∘ f)) :
    truthAny truth (parts.map (map f)) = truthAny (truth ∘ f) parts := by
  induction parts with
  | nil => rfl
  | cons part parts ih =>
    rw [List.map_cons, truthAny, truthAny, each part (by simp),
      ih fun other inside => each other (by simp [inside])]

theorem truth_map (formula : Formula τ) :
    (formula.map f).truth truth = formula.truth (truth ∘ f) := by
  induction formula using induct with
  | test t => rfl
  | all parts ih => rw [map, mapParts_eq, Formula.truth, Formula.truth, truthAll_map ih]
  | any parts ih => rw [map, mapParts_eq, Formula.truth, Formula.truth, truthAny_map ih]
  | not part ih => rw [map, Formula.truth, Formula.truth, ih]

end Map

end Formula

end Firefly.Formulas
