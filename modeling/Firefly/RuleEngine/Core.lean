import Firefly.Shared.Double
import Firefly.Shared.Json
import Firefly.Shared.Text

set_option autoImplicit false

namespace Firefly.RuleEngine

open Json

inductive Op where
  | eq | ne | lt | lte | gt | gte
  | «in» | notIn | contains | startsWith | endsWith | «matches»
  | isNull | isNotNull | between | notContains | «exists» | isEmpty
  | other (name : String)
deriving DecidableEq, Repr

def Op.asStr : Op → String
  | .eq => "eq"
  | .ne => "ne"
  | .lt => "lt"
  | .lte => "lte"
  | .gt => "gt"
  | .gte => "gte"
  | .in => "in"
  | .notIn => "notIn"
  | .contains => "contains"
  | .startsWith => "startsWith"
  | .endsWith => "endsWith"
  | .matches => "matches"
  | .isNull => "isNull"
  | .isNotNull => "isNotNull"
  | .between => "between"
  | .notContains => "notContains"
  | .exists => "exists"
  | .isEmpty => "isEmpty"
  | .other name => name

structure Condition where
  path : String
  op : Op
  value : Value
deriving DecidableEq, Repr

structure Logic where
  all : List Logic := []
  any : List Logic := []
  not : Option Logic := none
  cond : Option Condition := none

structure Action where
  actionType : String
  params : Fields := []
deriving DecidableEq, Repr

structure Rule where
  id : String
  priority : Int := 0
  enabled : Bool := true
  when : Logic
  «then» : List Action := []
  otherwise : List Action := []

structure RuleSet where
  name : String
  rules : List Rule := []

abbrev Fact := Fields

structure Verdict where
  matched : List String := []
  actions : List Action := []
deriving DecidableEq, Repr

namespace Logic

-- A node holds lists of nodes: a property is proved of it from all of them.
@[elab_as_elim]
theorem induct {P : Logic → Prop}
    (node : ∀ logic : Logic, (∀ sub ∈ logic.all, P sub) → (∀ sub ∈ logic.any, P sub) →
      (∀ inner, logic.not = some inner → P inner) → P logic) (logic : Logic) : P logic :=
  @Logic.rec P (fun subs => ∀ sub ∈ subs, P sub) (fun inner => ∀ sub, inner = some sub → P sub)
    (fun all any not cond alls anys nots => node ⟨all, any, not, cond⟩ alls anys nots)
    (by simp) (fun sub subs here rest => by simpa using ⟨here, rest⟩)
    (by simp) (fun inner here => by simpa using here) logic

mutual

def nodes : Logic → List Logic
  | ⟨all, any, not, cond⟩ =>
    ⟨all, any, not, cond⟩ :: (nodesOf all ++ nodesOf any ++ nodesIn not)

def nodesOf : List Logic → List Logic
  | [] => []
  | sub :: subs => nodes sub ++ nodesOf subs

def nodesIn : Option Logic → List Logic
  | none => []
  | some inner => nodes inner

end

end Logic

end Firefly.RuleEngine

namespace Firefly.RuleEngine

open Json

structure Crates where
  jsonText : Value → String
  regex : String → Except String (String → Bool)

inductive EvalError where
  | unknownOp (op : String)
  | badRegex (message : String)
  | badBetween (value : String)
  | nonNumericCompare (op : Op) (left right : String)
  | rule (id : String) (source : EvalError)
deriving DecidableEq, Repr

def EvalError.toString : EvalError → String
  | .unknownOp op => "ruleengine: unknown op: " ++ op
  | .badRegex message => "matches: bad regex: " ++ message
  | .badBetween value => "between: value must be a 2-element list, got " ++ value
  | .nonNumericCompare op left right =>
    "compare " ++ op.asStr ++ ": non-numeric (" ++ left ++ " vs " ++ right ++ ")"
  | .rule id source => "rule " ++ Text.debugStr id ++ ": " ++ source.toString

def lookupIn : Option Value → List String → Option Value
  | current, [] => current
  | some (.object fields), part :: parts => lookupIn (Fields.get fields part) parts
  | _, _ :: _ => none

def lookup (fact : Fact) (path : String) : Option Value :=
  lookupIn (some (.object fact)) ((path.toList.splitOn '.').map String.ofList)

def isNull : Option Value → Bool
  | none | some .null => true
  | _ => false

def asF64 : Number → ℚ
  | .int n => (Double.nearest n).getD n
  | .float value => value

mutual

def goDeepEq : (fact operand : Value) → Bool
  | .number f, .number o =>
    match o with
    | .float value => asF64 f = value
    | .int _ => false
  | .array fs, .array os => fs.length = os.length && goDeepEqItems fs os
  | .object fs, .object os => fs.length = os.length && goDeepEqFields fs os
  | fact, operand => fact = operand

def goDeepEqItems : List Value → List Value → Bool
  | f :: fs, o :: os => goDeepEq f o && goDeepEqItems fs os
  | _, _ => true

def goDeepEqFields : List (String × Value) → Fields → Bool
  | [], _ => true
  | (key, f) :: fs, os =>
    (match os.get key with
      | some o => goDeepEq f o
      | none => false) && goDeepEqFields fs os

end

def deepEq (v : Option Value) (operand : Value) : Bool :=
  goDeepEq (v.getD .null) operand

-- A double as `%v` prints it: in fixed notation for exponents from -4 to 5.
def goFloatText (f : ℚ) : String :=
  if f = 0 then "0"
  else
    let (digits, exp) := Double.scientific |f|
    let sign := if f < 0 then ['-'] else []
    let zeros (n : Int) := List.replicate n.toNat '0'
    String.ofList (sign ++
      if exp < -4 ∨ 6 ≤ exp then
        let mantissa :=
          match digits with
          | first :: second :: rest => first :: '.' :: second :: rest
          | short => short
        let magnitude := Nat.toDigits 10 exp.natAbs
        mantissa ++ ['e', if exp < 0 then '-' else '+'] ++
          zeros (2 - magnitude.length) ++ magnitude
      else
        let point := exp + 1
        if point ≤ 0 then ['0', '.'] ++ zeros (-point) ++ digits
        else if digits.length ≤ point.toNat then digits ++ zeros (point - digits.length)
        else digits.take point.toNat ++ ['.'] ++ digits.drop point.toNat)

def jsonTypeName : Option Value → String
  | none | some .null => "null"
  | some (.bool _) => "bool"
  | some (.number _) => "number"
  | some (.string _) => "string"
  | some (.array _) => "array"
  | some (.object _) => "object"

def toF64 : Option Value → Option ℚ
  | some (.number n) => some (asF64 n)
  | _ => none

def compareNum (a : Option Value) (b : Value) (op : Op) : Except EvalError Bool :=
  match toF64 a, toF64 (some b) with
  | some af, some bf =>
    match op with
    | .lt => .ok (af < bf)
    | .lte => .ok (af ≤ bf)
    | .gt => .ok (af > bf)
    | .gte => .ok (af ≥ bf)
    | _ => .error (.unknownOp op.asStr)
  | _, _ => .error (.nonNumericCompare op (jsonTypeName a) (jsonTypeName (some b)))

def inList (operand : Value) (v : Option Value) : Bool :=
  match operand with
  | .array items => items.any fun x => goDeepEq (v.getD .null) x
  | _ => false

def isEmpty : Option Value → Bool
  | none | some .null => true
  | some (.string s) => s = ""
  | some (.array items) => items.isEmpty
  | some (.object fields) => fields.isEmpty
  | _ => false

namespace Crates

variable (crates : Crates)

def toText : Option Value → String
  | none | some .null => ""
  | some (.string s) => s
  | some (.bool b) => if b then "true" else "false"
  | some (.number (.float f)) => goFloatText f
  | some (.number (.int n)) => toString n
  | some other => crates.jsonText other

def valueText (v : Value) : String := crates.toText (some v)

def contains (haystack : Option Value) (needle : Value) : Bool :=
  match haystack with
  | some (.string s) => (crates.valueText needle).toList <:+: s.toList
  | some (.array items) => items.any fun x => goDeepEq x needle
  | _ => false

def between (fact : Option Value) (operand : Value) : Except EvalError Bool :=
  match operand with
  | .array [lo, hi] =>
    if isNull fact then .ok false
    else
      match toF64 fact, toF64 (some lo), toF64 (some hi) with
      | some f, some l, some h => .ok (l ≤ f && f ≤ h)
      | _, _, _ =>
        match fact, lo, hi with
        | some (.string f), .string l, .string h => .ok (l ≤ f && f ≤ h)
        | _, _, _ =>
          .error (.nonNumericCompare .between (jsonTypeName fact) (jsonTypeName (some lo)))
  | other => .error (.badBetween (crates.jsonText other))

def evalCond (fact : Fact) (cond : Condition) : Except EvalError Bool :=
  let found := lookup fact cond.path
  match cond.op with
  | .isNull => .ok (RuleEngine.isNull found)
  | .isNotNull => .ok !RuleEngine.isNull found
  | .eq => .ok (deepEq found cond.value)
  | .ne => .ok !deepEq found cond.value
  | .lt | .lte | .gt | .gte => compareNum found cond.value cond.op
  | .in => .ok (inList cond.value found)
  | .notIn => .ok !inList cond.value found
  | .contains => .ok (crates.contains found cond.value)
  -- An absent value neither contains nor lacks the operand.
  | .notContains => .ok (!RuleEngine.isNull found && !crates.contains found cond.value)
  | .startsWith =>
    .ok ((crates.valueText cond.value).toList.isPrefixOf (crates.toText found).toList)
  | .endsWith =>
    .ok ((crates.valueText cond.value).toList.isSuffixOf (crates.toText found).toList)
  | .matches =>
    match crates.regex (crates.valueText cond.value) with
    | .ok isMatch => .ok (isMatch (crates.toText found))
    | .error message => .error (.badRegex message)
  | .between => crates.between found cond.value
  | .exists => .ok !RuleEngine.isNull found
  | .isEmpty => .ok (RuleEngine.isEmpty found)
  | .other name => .error (.unknownOp name)

mutual

-- The branches in the order in which the evaluator prefers them.
def eval (fact : Fact) : Logic → Except EvalError Bool
  | ⟨_, _, _, some cond⟩ => crates.evalCond fact cond
  | ⟨sub :: subs, _, _, none⟩ => evalAll fact (sub :: subs)
  | ⟨[], sub :: subs, _, none⟩ => evalAny fact (sub :: subs)
  | ⟨[], [], some inner, none⟩ =>
    match eval fact inner with
    | .ok held => .ok !held
    | .error error => .error error
  | ⟨[], [], none, none⟩ => .ok true

def evalAll (fact : Fact) : List Logic → Except EvalError Bool
  | [] => .ok true
  | sub :: subs =>
    match eval fact sub with
    | .ok true => evalAll fact subs
    | .ok false => .ok false
    | .error error => .error error

def evalAny (fact : Fact) : List Logic → Except EvalError Bool
  | [] => .ok false
  | sub :: subs =>
    match eval fact sub with
    | .ok true => .ok true
    | .ok false => evalAny fact subs
    | .error error => .error error

end

inductive EvaluationMode where
  | all
  | firstMatch
deriving DecidableEq, Repr

def evaluateRules (mode : EvaluationMode) (fact : Fact) :
    List Rule → Verdict → Except EvalError Verdict
  | [], verdict => .ok verdict
  | rule :: rules, verdict =>
    if !rule.enabled then evaluateRules mode fact rules verdict
    else
      match crates.eval fact rule.when with
      | .error error => .error (.rule rule.id error)
      | .ok true =>
        let verdict :=
          { matched := verdict.matched ++ [rule.id], actions := verdict.actions ++ rule.then }
        if mode = .firstMatch then .ok verdict else evaluateRules mode fact rules verdict
      | .ok false =>
        evaluateRules mode fact rules
          { verdict with actions := verdict.actions ++ rule.otherwise }

def evaluateWithMode (set : RuleSet) (fact : Fact) (mode : EvaluationMode) :
    Except EvalError Verdict :=
  crates.evaluateRules mode fact
    (set.rules.mergeSort fun first second => second.priority ≤ first.priority) {}

end Crates

end Firefly.RuleEngine
