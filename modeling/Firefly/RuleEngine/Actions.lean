import Firefly.RuleEngine.Core

set_option autoImplicit false

namespace Firefly.RuleEngine

open Json

inductive ActionError where
  | unsupported (actionType : String)
  | missingParam (actionType param : String)
  | nonNumericIncrement
  | custom (message : String)
deriving DecidableEq, Repr

def ActionError.toString : ActionError → String
  | .unsupported actionType =>
    "unsupported action type '" ++ actionType ++ "'; register a handler for it"
  | .missingParam actionType param => actionType ++ " action missing '" ++ param ++ "'"
  | .nonNumericIncrement => "increment: non-numeric value"
  | .custom message => message

abbrev ActionHandler := Action → Fact → Except ActionError Fact

def asStr : Value → Option String
  | .string s => some s
  | _ => none

def requireTarget (action : Action) (actionType : String) : Except ActionError String :=
  match (action.params.get "target").bind asStr with
  | some target => .ok target
  | none => .error (.missingParam actionType "target")

-- A parent that is not an object is replaced by one.
def writeIn (value : Value) : Fields → List String → Fields
  | fields, [] => fields
  | fields, [last] => fields.insert last value
  | fields, part :: parts =>
    match fields.get part with
    | some (.object inner) => fields.insert part (.object (writeIn value inner parts))
    | _ => fields.insert part (.object (writeIn value [] parts))

def writePath (facts : Fact) (path : String) (value : Value) : Fact :=
  writeIn value facts ((path.toList.splitOn '.').map String.ofList)

def pyTruthy : Value → Bool
  | .null => false
  | .bool b => b
  | .number n => asF64 n ≠ 0
  | .string s => s ≠ ""
  | .array items => !items.isEmpty
  | .object fields => !fields.isEmpty

def pyOr (value default : Value) : Value :=
  if pyTruthy value then value else default

def asI64 : Number → Option Int
  | .int n => if -2 ^ 63 ≤ n ∧ n < 2 ^ 63 then some n else none
  | .float _ => none

def numericOperand : Value → Except ActionError (Option Int × ℚ)
  | .bool b => .ok (some b.toInt, b.toInt)
  | .number n => .ok (asI64 n, asF64 n)
  | _ => .error .nonNumericIncrement

-- `i64` addition wraps; a sum past the largest double is `null`.
def addNumeric (current «by» : Value) : Except ActionError Value :=
  match numericOperand current, numericOperand «by» with
  | .ok (some a, _), .ok (some b, _) => .ok (.int ((a + b).bmod (2 ^ 64)))
  | .ok (_, af), .ok (_, bf) =>
    match Double.nearest (af + bf) with
    | some sum => .ok (.number (.float sum))
    | none => .ok .null
  | .error error, _ => .error error
  | _, .error error => .error error

def setHandler : ActionHandler := fun action facts =>
  match requireTarget action "set" with
  | .ok target => .ok (writePath facts target ((action.params.get "value").getD .null))
  | .error error => .error error

def incrementHandler : ActionHandler := fun action facts =>
  match requireTarget action "increment" with
  | .ok target =>
    let current := pyOr ((lookup facts target).getD .null) (.int 0)
    match addNumeric current (pyOr ((action.params.get "value").getD .null) (.int 1)) with
    | .ok sum => .ok (writePath facts target sum)
    | .error error => .error error
  | .error error => .error error

def logHandler : ActionHandler := fun _ facts => .ok facts

structure ActionOutcome where
  executed : List Action
  error : Option String
deriving DecidableEq, Repr

structure ActionRegistry where
  handlers : List (String × ActionHandler)

namespace ActionRegistry

def register (registry : ActionRegistry) (actionType : String) (handler : ActionHandler) :
    ActionRegistry :=
  { handlers := (actionType, handler) :: registry.handlers }

def withBuiltins : ActionRegistry :=
  ((register { handlers := [] } "set" setHandler).register "increment" incrementHandler).register
    "log" logHandler

def apply (registry : ActionRegistry) (action : Action) (facts : Fact) : Except ActionError Fact :=
  match registry.handlers.lookup action.actionType with
  | some handler => handler action facts
  | none => .error (.unsupported action.actionType)

def executeAll (registry : ActionRegistry) :
    List Action → Fact → List Action × List (Action × ActionError) × Fact
  | [], facts => ([], [], facts)
  | action :: actions, facts =>
    match registry.apply action facts with
    | .ok facts =>
      let (executed, failed, facts) := executeAll registry actions facts
      (action :: executed, failed, facts)
    | .error error =>
      let (executed, failed, facts) := executeAll registry actions facts
      (executed, (action, error) :: failed, facts)

def execute (registry : ActionRegistry) (actions : List Action) (facts : Fact) :
    ActionOutcome × Fact :=
  let (executed, failed, facts) := registry.executeAll actions facts
  let errors := failed.map fun (action, error) => action.actionType ++ ": " ++ error.toString
  ({ executed, error := if errors.isEmpty then none else some ("; ".intercalate errors) }, facts)

end ActionRegistry

end Firefly.RuleEngine
