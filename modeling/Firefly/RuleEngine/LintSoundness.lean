import Firefly.RuleEngine.Actions
import Firefly.RuleEngine.Core
import Firefly.Shared.Formula

set_option autoImplicit false

namespace Firefly.RuleEngine

open Json

def knownActionTypes : List String := ["set", "increment", "log", "call", "calculate"]

def targetRequired : List String := ["set", "increment"]

def Logic.branches (logic : Logic) : Nat :=
  logic.cond.isSome.toNat + (!logic.all.isEmpty).toNat + (!logic.any.isEmpty).toNat +
    logic.not.isSome.toNat

def isPair : Value → Bool
  | .array items => items.length = 2
  | _ => false

namespace Crates

variable (crates : Crates)

def checkConditionOp (ruleId : String) (op : Op) (value : Value) : List String :=
  match op with
  | .other name =>
    ["rule " ++ Text.debugStr ruleId ++ ": unknown operator " ++ Text.debugStr name]
  | .between =>
    if isPair value then []
    else ["rule " ++ Text.debugStr ruleId ++ ": 'between' value must be a 2-element list, got " ++
      crates.jsonText value]
  | _ => []

mutual

-- Every branch is visited, whichever of them the evaluator would take.
def checkLogic (ruleId : String) : Logic → List String
  | ⟨all, any, not, cond⟩ =>
    let branches := Logic.branches ⟨all, any, not, cond⟩
    (if branches > 1 then
      ["rule " ++ Text.debugStr ruleId ++ ": ambiguous logic node sets " ++ toString branches ++
        " branches; exactly one of cond/all/any/not is expected"]
    else []) ++
      (match cond with
        | some cond => crates.checkConditionOp ruleId cond.op cond.value
        | none => []) ++
      checkEach ruleId all ++ checkEach ruleId any ++ checkInner ruleId not

def checkEach (ruleId : String) : List Logic → List String
  | [] => []
  | sub :: subs => checkLogic ruleId sub ++ checkEach ruleId subs

def checkInner (ruleId : String) : Option Logic → List String
  | none => []
  | some inner => checkLogic ruleId inner

end

end Crates

def hasTarget (action : Action) : Bool :=
  match action.params.get "target" with
  | some (.string s) => s ≠ ""
  | _ => false

def checkAction (ruleId branch : String) (action : Action) : List String :=
  let place := "rule " ++ Text.debugStr ruleId ++ " (" ++ branch ++ "): "
  (if action.actionType ∈ knownActionTypes then []
    else [place ++ "unknown action type " ++ Text.debugStr action.actionType]) ++
  (if action.actionType ∈ targetRequired ∧ !hasTarget action then
    [place ++ "'" ++ action.actionType ++ "' action missing 'target'"]
  else [])

namespace Crates

variable (crates : Crates)

def checkRule (rule : Rule) : List String :=
  crates.checkLogic rule.id rule.when ++ rule.then.flatMap (checkAction rule.id "then") ++
    rule.otherwise.flatMap (checkAction rule.id "otherwise")

def checkRules (seen : List String) : List Rule → List String
  | [] => []
  | rule :: rules =>
    (if rule.id ∈ seen then ["duplicate rule id " ++ Text.debugStr rule.id] else []) ++
      crates.checkRule rule ++ checkRules (rule.id :: seen) rules

def validateRuleset (set : RuleSet) : List String :=
  crates.checkRules [] set.rules

end Crates

end Firefly.RuleEngine

namespace Firefly.RuleEngine

open Json Formulas

namespace Logic

mutual

def reading : Logic → Formula Condition
  | ⟨all, any, not, cond⟩ =>
    .all (cond.toList.map .test ++ (if all.isEmpty then [] else [.all (readEach all)]) ++
      (if any.isEmpty then [] else [.any (readEach any)]) ++ readInner not)

def readEach : List Logic → List (Formula Condition)
  | [] => []
  | sub :: subs => reading sub :: readEach subs

def readInner : Option Logic → List (Formula Condition)
  | none => []
  | some inner => [.not (reading inner)]

end

@[simp] theorem readEach_eq (subs : List Logic) : readEach subs = subs.map reading := by
  induction subs with
  | nil => rfl
  | cons sub subs ih => simp [readEach, ih]

@[simp] theorem nodesOf_eq (subs : List Logic) : nodesOf subs = subs.flatMap nodes := by
  induction subs with
  | nil => rfl
  | cons sub subs ih => simp [nodesOf, ih]

end Logic

namespace Crates

variable {crates : Crates} {fact : Fact}

@[simp] theorem checkEach_eq (crates : Crates) (id : String) (subs : List Logic) :
    crates.checkEach id subs = subs.flatMap (crates.checkLogic id) := by
  induction subs with
  | nil => simp [checkEach]
  | cons sub subs ih => simp [checkEach, ih]

structure CleanNode (crates : Crates) (id : String) (logic : Logic) : Prop where
  single : logic.branches ≤ 1
  cond : ∀ cond, logic.cond = some cond → crates.checkConditionOp id cond.op cond.value = []
  all : ∀ sub ∈ logic.all, crates.checkLogic id sub = []
  any : ∀ sub ∈ logic.any, crates.checkLogic id sub = []
  not : ∀ inner, logic.not = some inner → crates.checkLogic id inner = []

theorem cleanNode_of_nil {id : String} {logic : Logic} (clean : crates.checkLogic id logic = []) :
    CleanNode crates id logic := by
  obtain ⟨all, any, not, cond⟩ := logic
  simp only [checkLogic, checkEach_eq, List.append_eq_nil_iff, List.flatMap_eq_nil_iff] at clean
  obtain ⟨⟨⟨⟨single, cond_clean⟩, all_clean⟩, any_clean⟩, not_clean⟩ := clean
  refine ⟨?_, ?_, all_clean, any_clean, ?_⟩
  · by_contra several
    rw [if_pos (Nat.lt_of_not_le several)] at single
    cases single
  · rintro cond rfl
    exact cond_clean
  · rintro inner rfl
    exact not_clean

theorem clean_nodes {id : String} (logic : Logic) (clean : crates.checkLogic id logic = []) :
    ∀ node ∈ logic.nodes, crates.checkLogic id node = [] := by
  induction logic using Logic.induct with
  | node logic all any not =>
    have parts := cleanNode_of_nil clean
    obtain ⟨alls, anys, inner, cond⟩ := logic
    intro node member
    simp only [Logic.nodes, Logic.nodesOf_eq, List.mem_cons, List.mem_append,
      List.mem_flatMap] at member
    rcases member with rfl | (⟨sub, here, below⟩ | ⟨sub, here, below⟩) | below
    · exact clean
    · exact all sub here (parts.all sub here) node below
    · exact any sub here (parts.any sub here) node below
    · cases inner with
      | none => simp [Logic.nodesIn] at below
      | some inner => exact not inner rfl (parts.not inner rfl) node below

def Settles (crates : Crates) (fact : Fact) (holds : Condition → Bool) : Prop :=
  ∀ cond held, crates.evalCond fact cond = .ok held → holds cond = held

def Faithful (crates : Crates) (fact : Fact) (logic : Logic) : Prop :=
  (∀ held, crates.eval fact logic = .ok held →
    ∀ holds, Settles crates fact holds → logic.reading.eval holds = held) ∧
  ∀ error, crates.eval fact logic = .error error →
    ∃ cond ∈ logic.reading.tests, crates.evalCond fact cond = .error error

theorem evalAll_faithful {subs : List Logic} (each : ∀ sub ∈ subs, Faithful crates fact sub) :
    (∀ held, crates.evalAll fact subs = .ok held → ∀ holds, Settles crates fact holds →
      (Formula.all (subs.map Logic.reading)).eval holds = held) ∧
    ∀ error, crates.evalAll fact subs = .error error →
      ∃ cond ∈ (subs.map Logic.reading).flatMap Formula.tests,
        crates.evalCond fact cond = .error error := by
  induction subs with
  | nil => simp [evalAll, Formula.eval, Formula.evalAll]
  | cons sub subs ih =>
    obtain ⟨now_result, now_error⟩ := each sub List.mem_cons_self
    obtain ⟨later_result, later_error⟩ := ih fun other member => each other (by simp [member])
    rw [evalAll]
    cases first : crates.eval fact sub with
    | error error =>
      constructor
      · simp
      · rintro other ⟨⟩
        obtain ⟨cond, member, failed⟩ := now_error error first
        exact ⟨cond, by simp [member], failed⟩
    | ok held =>
      cases held with
      | true =>
        constructor
        · intro held rest holds settles
          have here := now_result true first holds settles
          have there := later_result held rest holds settles
          simp only [Formula.eval] at there
          simp [Formula.eval, Formula.evalAll, here, there]
        · intro error rest
          obtain ⟨cond, member, failed⟩ := later_error error rest
          exact ⟨cond, by rw [List.map_cons, List.flatMap_cons]; simp [member], failed⟩
      | false =>
        constructor
        · rintro held ⟨⟩ holds settles
          simp [Formula.eval, Formula.evalAll, now_result false first holds settles]
        · simp

theorem evalAny_faithful {subs : List Logic} (each : ∀ sub ∈ subs, Faithful crates fact sub) :
    (∀ held, crates.evalAny fact subs = .ok held → ∀ holds, Settles crates fact holds →
      (Formula.any (subs.map Logic.reading)).eval holds = held) ∧
    ∀ error, crates.evalAny fact subs = .error error →
      ∃ cond ∈ (subs.map Logic.reading).flatMap Formula.tests,
        crates.evalCond fact cond = .error error := by
  induction subs with
  | nil => simp [evalAny, Formula.eval, Formula.evalAny]
  | cons sub subs ih =>
    obtain ⟨now_result, now_error⟩ := each sub List.mem_cons_self
    obtain ⟨later_result, later_error⟩ := ih fun other member => each other (by simp [member])
    rw [evalAny]
    cases first : crates.eval fact sub with
    | error error =>
      constructor
      · simp
      · rintro other ⟨⟩
        obtain ⟨cond, member, failed⟩ := now_error error first
        exact ⟨cond, by simp [member], failed⟩
    | ok held =>
      cases held with
      | true =>
        constructor
        · rintro held ⟨⟩ holds settles
          simp [Formula.eval, Formula.evalAny, now_result true first holds settles]
        · simp
      | false =>
        constructor
        · intro held rest holds settles
          have here := now_result false first holds settles
          have there := later_result held rest holds settles
          simp only [Formula.eval] at there
          simp [Formula.eval, Formula.evalAny, here, there]
        · intro error rest
          obtain ⟨cond, member, failed⟩ := later_error error rest
          exact ⟨cond, by rw [List.map_cons, List.flatMap_cons]; simp [member], failed⟩

-- One branch at most is populated, so the branch that the evaluator takes is all there is.
theorem eval_faithful {id : String} (logic : Logic) (clean : crates.checkLogic id logic = []) :
    Faithful crates fact logic := by
  induction logic using Logic.induct with
  | node logic alls anys nots =>
    have parts := cleanNode_of_nil clean
    have single := parts.single
    obtain ⟨all, any, inner, cond⟩ := logic
    have each_all : ∀ sub ∈ all, Faithful crates fact sub :=
      fun sub member => alls sub member (parts.all sub member)
    have each_any : ∀ sub ∈ any, Faithful crates fact sub :=
      fun sub member => anys sub member (parts.any sub member)
    have each_not : ∀ sub, inner = some sub → Faithful crates fact sub :=
      fun sub same => nots sub same (parts.not sub same)
    clear parts clean alls anys nots
    cases cond with
    | some cond =>
      obtain ⟨rfl, rfl, rfl⟩ : all = [] ∧ any = [] ∧ inner = none := by
        cases all <;> cases any <;> cases inner <;> simp_all [Logic.branches]
      constructor
      · intro held result holds settles
        simpa [Logic.reading, Logic.readInner, Formula.eval, Formula.evalAll] using
          settles cond held (by simpa [eval] using result)
      · intro error failed
        exact ⟨cond, by simp [Logic.reading, Formula.tests], by simpa [eval] using failed⟩
    | none =>
      cases all with
      | cons sub subs =>
        obtain ⟨rfl, rfl⟩ : any = [] ∧ inner = none := by
          cases any <;> cases inner <;> simp_all [Logic.branches]
        obtain ⟨results, errors⟩ := evalAll_faithful each_all
        constructor
        · intro held result holds settles
          simpa [Logic.reading, Logic.readInner, Formula.eval, Formula.evalAll] using
            results held (by simpa [eval] using result) holds settles
        · intro error failed
          simpa [Logic.reading, Logic.readInner, Formula.tests] using
            errors error (by simpa [eval] using failed)
      | nil =>
        cases any with
        | cons sub subs =>
          obtain rfl : inner = none := by
            cases inner <;> simp_all [Logic.branches]
          obtain ⟨results, errors⟩ := evalAny_faithful each_any
          constructor
          · intro held result holds settles
            simpa [Logic.reading, Logic.readInner, Formula.eval, Formula.evalAll] using
              results held (by simpa [eval] using result) holds settles
          · intro error failed
            simpa [Logic.reading, Logic.readInner, Formula.tests] using
              errors error (by simpa [eval] using failed)
        | nil =>
          cases inner with
          | none =>
            constructor
            · intro held result holds settles
              simpa [eval, Logic.reading, Logic.readInner, Formula.eval, Formula.evalAll] using
                result
            · simp [eval]
          | some inner =>
            obtain ⟨results, errors⟩ := each_not inner rfl
            rw [Faithful, eval]
            cases below : crates.eval fact inner with
            | ok held =>
              constructor
              · rintro _ ⟨⟩ holds settles
                simp [Logic.reading, Logic.readInner, Formula.eval, Formula.evalAll,
                  results held below holds settles]
              · simp
            | error error =>
              constructor
              · simp
              · rintro _ ⟨⟩
                simpa [Logic.reading, Logic.readInner, Formula.tests] using errors error below

def DataError : EvalError → Prop
  | .badRegex _ | .nonNumericCompare _ _ _ => True
  | _ => False

theorem compareNum_error {a : Option Value} {b : Value} {op : Op} {error : EvalError}
    (ranged : op = .lt ∨ op = .lte ∨ op = .gt ∨ op = .gte)
    (failed : compareNum a b op = .error error) : DataError error := by
  rw [compareNum] at failed
  split at failed
  · rcases ranged with rfl | rfl | rfl | rfl <;> cases failed
  · obtain rfl := Except.error.inj failed
    trivial

theorem between_error {found : Option Value} {operand : Value} {error : EvalError}
    (pair : isPair operand = true) (failed : crates.between found operand = .error error) :
    DataError error := by
  cases operand with
  | array items =>
    obtain ⟨lo, hi, rfl⟩ := List.length_eq_two.mp (of_decide_eq_true pair)
    unfold between at failed
    simp only at failed
    split at failed
    · cases failed
    · split at failed
      · cases failed
      · split at failed
        · cases failed
        · obtain rfl := Except.error.inj failed
          trivial
  | _ => cases pair

theorem evalCond_error {id : String} {cond : Condition} {error : EvalError}
    (clean : crates.checkConditionOp id cond.op cond.value = [])
    (failed : crates.evalCond fact cond = .error error) : DataError error := by
  obtain ⟨path, op, value⟩ := cond
  cases op with
  | lt => exact compareNum_error (.inl rfl) failed
  | lte => exact compareNum_error (.inr (.inl rfl)) failed
  | gt => exact compareNum_error (.inr (.inr (.inl rfl))) failed
  | gte => exact compareNum_error (.inr (.inr (.inr rfl))) failed
  | «matches» =>
    simp only [evalCond] at failed
    split at failed
    · cases failed
    · obtain rfl := Except.error.inj failed
      trivial
  | between =>
    apply between_error _ failed
    by_contra shapeless
    simp [checkConditionOp, shapeless] at clean
  | other name => simp [checkConditionOp] at clean
  | _ => cases failed

theorem tests_clean {id : String} (logic : Logic) (clean : crates.checkLogic id logic = []) :
    ∀ cond ∈ logic.reading.tests, crates.checkConditionOp id cond.op cond.value = [] := by
  induction logic using Logic.induct with
  | node logic alls anys nots =>
    have parts := cleanNode_of_nil clean
    obtain ⟨all, any, inner, leaf⟩ := logic
    intro cond member
    simp only [Logic.reading, Logic.readEach_eq, Formula.tests, Formula.testsOf_eq,
      List.flatMap_append, List.mem_append] at member
    rcases member with ((here | here) | here) | here
    · cases leaf with
      | none => simp at here
      | some leaf =>
        obtain rfl : cond = leaf := by simpa [Formula.tests] using here
        exact parts.cond cond rfl
    · cases all with
      | nil => simp at here
      | cons sub subs =>
        obtain ⟨other, inside, below⟩ :
            ∃ other ∈ sub :: subs, cond ∈ other.reading.tests := by
          simpa [Formula.tests] using here
        exact alls other inside (parts.all other inside) cond below
    · cases any with
      | nil => simp at here
      | cons sub subs =>
        obtain ⟨other, inside, below⟩ :
            ∃ other ∈ sub :: subs, cond ∈ other.reading.tests := by
          simpa [Formula.tests] using here
        exact anys other inside (parts.any other inside) cond below
    · cases inner with
      | none => simp [Logic.readInner] at here
      | some inner =>
        have below : cond ∈ inner.reading.tests := by
          simpa [Logic.readInner, Formula.tests] using here
        exact nots inner rfl (parts.not inner rfl) cond below

theorem eval_error {id : String} {logic : Logic} (clean : crates.checkLogic id logic = [])
    {error : EvalError} (failed : crates.eval fact logic = .error error) : DataError error := by
  obtain ⟨cond, member, cause⟩ := (eval_faithful logic clean).2 error failed
  exact evalCond_error (tests_clean logic clean cond member) cause

structure CleanRule (crates : Crates) (rule : Rule) : Prop where
  logic : crates.checkLogic rule.id rule.when = []
  actions : ∀ action ∈ rule.then ++ rule.otherwise, ∃ branch, checkAction rule.id branch action = []

theorem cleanRule_of_nil {rule : Rule} (clean : crates.checkRule rule = []) :
    CleanRule crates rule := by
  simp only [checkRule, List.append_eq_nil_iff, List.flatMap_eq_nil_iff] at clean
  obtain ⟨⟨logic, here⟩, there⟩ := clean
  refine ⟨logic, ?_⟩
  intro action member
  rcases List.mem_append.mp member with inside | inside
  · exact ⟨"then", here action inside⟩
  · exact ⟨"otherwise", there action inside⟩

theorem clean_rules {seen : List String} {rules : List Rule}
    (clean : crates.checkRules seen rules = []) : ∀ rule ∈ rules, CleanRule crates rule := by
  induction rules generalizing seen with
  | nil => simp
  | cons rule rules ih =>
    simp only [checkRules, List.append_eq_nil_iff] at clean
    obtain ⟨⟨-, here⟩, rest⟩ := clean
    intro other member
    rcases List.mem_cons.mp member with rfl | later
    · exact cleanRule_of_nil here
    · exact ih rest other later

structure Traced (crates : Crates) (fact : Fact) (rules : List Rule) (verdict : Verdict)
    (outcome : Except EvalError Verdict) : Prop where
  actions : ∀ result, outcome = .ok result → ∀ action ∈ result.actions,
    action ∈ verdict.actions ∨ ∃ rule ∈ rules, action ∈ rule.then ++ rule.otherwise
  error : ∀ error, outcome = .error error → ∃ rule ∈ rules, ∃ cause,
    crates.eval fact rule.when = .error cause ∧ error = .rule rule.id cause

theorem traced_done (rules : List Rule) (verdict : Verdict) :
    Traced crates fact rules verdict (.ok verdict) where
  actions := by
    rintro result ⟨⟩ action member
    exact .inl member
  error := by simp

theorem Traced.cons {rule : Rule} {rules : List Rule} {verdict next : Verdict}
    {outcome : Except EvalError Verdict} (traced : Traced crates fact rules next outcome)
    (own : ∀ action ∈ next.actions,
      action ∈ verdict.actions ∨ action ∈ rule.then ++ rule.otherwise) :
    Traced crates fact (rule :: rules) verdict outcome where
  actions result done action member := by
    rcases traced.actions result done action member with before | ⟨other, inside, later⟩
    · rcases own action before with earlier | here
      · exact .inl earlier
      · exact .inr ⟨rule, List.mem_cons_self, here⟩
    · exact .inr ⟨other, List.mem_cons_of_mem rule inside, later⟩
  error error failed := by
    obtain ⟨other, inside, cause⟩ := traced.error error failed
    exact ⟨other, List.mem_cons_of_mem rule inside, cause⟩

theorem evaluateRules_traced (crates : Crates) (fact : Fact) (mode : EvaluationMode)
    (rules : List Rule) (verdict : Verdict) :
    Traced crates fact rules verdict (crates.evaluateRules mode fact rules verdict) := by
  induction rules generalizing verdict with
  | nil => exact traced_done [] verdict
  | cons rule rules ih =>
    rw [evaluateRules]
    split
    · exact (ih verdict).cons fun action member => .inl member
    · cases evaluated : crates.eval fact rule.when with
      | error cause =>
        refine ⟨by simp, ?_⟩
        rintro error ⟨⟩
        exact ⟨rule, List.mem_cons_self, cause, evaluated, rfl⟩
      | ok held =>
        cases held with
        | true =>
          have own (action : Action) (member : action ∈ verdict.actions ++ rule.then) :
              action ∈ verdict.actions ∨ action ∈ rule.then ++ rule.otherwise := by
            rcases List.mem_append.mp member with before | now
            · exact .inl before
            · exact .inr (List.mem_append_left _ now)
          show Traced crates fact (rule :: rules) verdict (if mode = .firstMatch then _ else _)
          split
          · exact (traced_done rules _).cons own
          · exact (ih _).cons own
        | false =>
          apply (ih _).cons
          intro action member
          rcases List.mem_append.mp member with before | now
          · exact .inl before
          · exact .inr (List.mem_append_right _ now)

theorem evaluate_traced (crates : Crates) (fact : Fact) (set : RuleSet) (mode : EvaluationMode) :
    Traced crates fact set.rules {} (crates.evaluateWithMode set fact mode) := by
  have traced := evaluateRules_traced crates fact mode
    (set.rules.mergeSort fun first second => second.priority ≤ first.priority) {}
  constructor
  · intro result done action member
    obtain none | ⟨rule, inside, own⟩ := traced.actions result done action member
    · cases none
    · exact .inr ⟨rule, List.mem_mergeSort.mp inside, own⟩
  · intro error failed
    obtain ⟨rule, inside, cause⟩ := traced.error error failed
    exact ⟨rule, List.mem_mergeSort.mp inside, cause⟩

end Crates

theorem hasTarget_requireTarget {action : Action} (has : hasTarget action = true)
    (actionType : String) : ∃ target, requireTarget action actionType = .ok target := by
  rw [hasTarget] at has
  split at has
  · rename_i target found
    exact ⟨target, by simp [requireTarget, found, asStr]⟩
  · cases has

def ActionDataError (action : Action) : ActionError → Prop
  | .nonNumericIncrement => True
  | .unsupported actionType =>
    actionType = action.actionType ∧ (actionType = "call" ∨ actionType = "calculate")
  | _ => False

theorem addNumeric_error {current «by» : Value} {error : ActionError}
    (failed : addNumeric current «by» = .error error) : error = .nonNumericIncrement := by
  have operand (value : Value) (cause : ActionError) (failed : numericOperand value = .error cause) :
      cause = .nonNumericIncrement := by
    cases value <;> simp_all [numericOperand]
  rw [addNumeric] at failed
  split at failed
  · cases failed
  · split at failed <;> cases failed
  · rename_i cause first
    obtain rfl := Except.error.inj failed
    exact operand _ _ first
  · rename_i cause second _
    obtain rfl := Except.error.inj failed
    exact operand _ _ second

theorem checkAction_known {id branch : String} {action : Action}
    (clean : checkAction id branch action = []) :
    action.actionType ∈ knownActionTypes ∧
      (action.actionType ∈ targetRequired → hasTarget action = true) := by
  simp only [checkAction, List.append_eq_nil_iff] at clean
  obtain ⟨known, target⟩ := clean
  constructor
  · by_contra unknown
    rw [if_neg unknown] at known
    cases known
  · intro required
    by_contra missing
    rw [if_pos ⟨required, by simp [missing]⟩] at target
    cases target

theorem apply_error {id branch : String} {action : Action}
    (clean : checkAction id branch action = []) {facts : Fact} {error : ActionError}
    (failed : ActionRegistry.withBuiltins.apply action facts = .error error) :
    ActionDataError action error := by
  obtain ⟨known, required⟩ := checkAction_known clean
  obtain ⟨actionType, params⟩ := action
  simp only [knownActionTypes, List.mem_cons, List.not_mem_nil, or_false] at known
  rcases known with rfl | rfl | rfl | rfl | rfl
  · obtain ⟨target, found⟩ := hasTarget_requireTarget (required (by simp [targetRequired])) "set"
    have ran : setHandler ⟨"set", params⟩ facts = .error error := failed
    simp [setHandler, found] at ran
  · obtain ⟨target, found⟩ :=
      hasTarget_requireTarget (required (by simp [targetRequired])) "increment"
    have ran : incrementHandler ⟨"increment", params⟩ facts = .error error := failed
    simp only [incrementHandler, found] at ran
    split at ran
    · cases ran
    · rename_i cause sum
      obtain rfl := Except.error.inj ran
      rw [addNumeric_error sum]
      trivial
  · have ran : logHandler ⟨"log", params⟩ facts = .error error := failed
    cases ran
  · have ran : Except.error (.unsupported "call") = Except.error error := failed
    obtain rfl := Except.error.inj ran
    exact ⟨rfl, .inl rfl⟩
  · have ran : Except.error (.unsupported "calculate") = Except.error error := failed
    obtain rfl := Except.error.inj ran
    exact ⟨rfl, .inr rfl⟩

theorem executeAll_failed {registry : ActionRegistry} {actions : List Action} {facts : Fact}
    {failure : Action × ActionError} (member : failure ∈ (registry.executeAll actions facts).2.1) :
    failure.1 ∈ actions ∧ ∃ before, registry.apply failure.1 before = .error failure.2 := by
  induction actions generalizing facts with
  | nil => simp [ActionRegistry.executeAll] at member
  | cons action actions ih =>
    rw [ActionRegistry.executeAll] at member
    cases ran : registry.apply action facts with
    | ok next =>
      rw [ran] at member
      obtain ⟨inside, cause⟩ := ih member
      exact ⟨List.mem_cons_of_mem action inside, cause⟩
    | error error =>
      rw [ran] at member
      rcases List.mem_cons.mp member with rfl | later
      · exact ⟨List.mem_cons_self, facts, ran⟩
      · obtain ⟨inside, cause⟩ := ih later
        exact ⟨List.mem_cons_of_mem action inside, cause⟩

def EvalError.root : EvalError → EvalError
  | .rule _ source => source.root
  | error => error

theorem lint_sound (crates : Crates) (set : RuleSet) (clean : crates.validateRuleset set = [])
    (fact : Fact) (mode : Crates.EvaluationMode) :
    (∀ rule ∈ set.rules, ∀ node ∈ rule.when.nodes, crates.Faithful fact node ∧
      ∀ error, crates.eval fact node = .error error → Crates.DataError error) ∧
    (∀ error, crates.evaluateWithMode set fact mode = .error error →
      (∀ op, error.root ≠ .unknownOp op) ∧ ∀ value, error.root ≠ .badBetween value) ∧
    ∀ verdict, crates.evaluateWithMode set fact mode = .ok verdict → ∀ facts,
      ∀ failure ∈ (ActionRegistry.withBuiltins.executeAll verdict.actions facts).2.1,
        (∀ actionType param, failure.2 ≠ .missingParam actionType param) ∧
        ∀ actionType, failure.2 = .unsupported actionType →
          failure.1.actionType = "call" ∨ failure.1.actionType = "calculate" := by
  have rules := Crates.clean_rules clean
  have traced := Crates.evaluate_traced crates fact set mode
  refine ⟨?_, ?_, ?_⟩
  · intro rule inside node below
    have here := Crates.clean_nodes _ (rules rule inside).logic node below
    exact ⟨Crates.eval_faithful node here, fun error => Crates.eval_error here⟩
  · intro error failed
    obtain ⟨rule, inside, cause, evaluated, rfl⟩ := traced.error error failed
    have data := Crates.eval_error (rules rule inside).logic evaluated
    cases cause with
    | badRegex message => simp [EvalError.root]
    | nonNumericCompare op left right => simp [EvalError.root]
    | _ => cases data
  · intro verdict done facts failure member
    obtain ⟨executed, before, failed⟩ := executeAll_failed member
    obtain none | ⟨rule, inside, own⟩ := traced.actions verdict done failure.1 executed
    · cases none
    · obtain ⟨branch, issueless⟩ := (rules rule inside).actions failure.1 own
      have data := apply_error issueless failed
      constructor
      · intro actionType param missing
        rw [missing] at data
        exact data
      · intro actionType unsupported
        rw [unsupported] at data
        exact data.1 ▸ data.2

def plainCrates : Crates :=
  { jsonText := fun _ => "", regex := fun _ => .error "unsupported" }

def between18And30 : RuleSet :=
  { name := "age"
    rules :=
      [{ id := "young"
         when := { all := [{ cond := some ⟨"age", .between, .array [.int 18, .int 30]⟩ },
           { not := some { cond := some ⟨"tier", .exists, .null⟩ } }] }
         «then» := [{ actionType := "set", params := [("target", .string "tier")] }]
         otherwise := [{ actionType := "call" }] }] }

def ageFact : Fact := [("age", .int 20)]

theorem lint_sound_between :
    plainCrates.validateRuleset between18And30 = [] ∧
      ∀ error, plainCrates.evaluateWithMode between18And30 ageFact .all = .error error →
        (∀ op, error.root ≠ .unknownOp op) ∧ ∀ value, error.root ≠ .badBetween value :=
  ⟨by decide, (lint_sound plainCrates between18And30 (by decide) ageFact .all).2.1⟩

end Firefly.RuleEngine
