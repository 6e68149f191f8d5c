import Firefly.RuleEngine.FactPaths

set_option autoImplicit false

namespace Firefly.RuleEngine

open Json

abbrev SharedHandler := Action → ExceptT ActionError (StateM Fact) Unit

def setShared : SharedHandler := fun action => do
  let target ← requireTarget action "set"
  let value := (action.params.get "value").getD .null
  modify fun facts => writePath facts target value

def incrementShared : SharedHandler := fun action => do
  let target ← requireTarget action "increment"
  let current := pyOr ((readPath (← get) target).getD .null) (.int 0)
  let sum ← addNumeric current (pyOr ((action.params.get "value").getD .null) (.int 1))
  modify fun facts => writePath facts target sum

def logShared : SharedHandler := fun _ => pure ()

structure SharedRegistry where
  handlers : List (String × SharedHandler)

structure Execution where
  executed : List Action := []
  errors : List String := []
  facts : Fact

namespace SharedRegistry

def withBuiltins : SharedRegistry :=
  ⟨[("log", logShared), ("increment", incrementShared), ("set", setShared)]⟩

variable (registry : SharedRegistry)

def apply (action : Action) : ExceptT ActionError (StateM Fact) Unit :=
  match registry.handlers.lookup action.actionType with
  | some handler => handler action
  | none => throw (.unsupported action.actionType)

def executeOne (execution : Execution) (action : Action) : Execution :=
  match (registry.apply action).run execution.facts with
  | (.ok (), facts) => { execution with executed := execution.executed ++ [action], facts }
  | (.error error, facts) =>
    { execution with
      errors := execution.errors ++ [action.actionType ++ ": " ++ error.toString], facts }

def execute (actions : List Action) (facts : Fact) : ActionOutcome × Fact :=
  let execution := actions.foldl registry.executeOne { facts }
  ({ executed := execution.executed
     error := if execution.errors.isEmpty then none else some ("; ".intercalate execution.errors) },
    execution.facts)

def BuiltIn : Prop := ∀ entry ∈ registry.handlers,
  entry.2 = setShared ∨ entry.2 = incrementShared ∨ entry.2 = logShared

def applyAll : List Action → Fact → Option Fact
  | [], facts => some facts
  | action :: actions, facts =>
    match (registry.apply action).run facts with
    | (.ok (), facts) => applyAll actions facts
    | (.error _, _) => none

end SharedRegistry

def Agrees (shared : SharedHandler) (handler : ActionHandler) : Prop :=
  ∀ action facts, (shared action).run facts =
    match handler action facts with
    | .ok after => (.ok (), after)
    | .error error => (.error error, facts)

theorem setShared_agrees : Agrees setShared setHandler := by
  intro action facts
  rw [setShared, setHandler]
  cases requireTarget action "set" with
  | error error => rfl
  | ok target => rfl

-- The sum is known before anything is written.
theorem run_added (added : Except ActionError Value) (facts : Fact) (target : String) :
    (do
      let sum ← added
      modify fun facts => writePath facts target sum : ExceptT ActionError (StateM Fact) Unit).run facts =
      match (match added with
        | .ok sum => .ok (writePath facts target sum)
        | .error error => .error error : Except ActionError Fact) with
      | .ok after => (.ok (), after)
      | .error error => (.error error, facts) := by
  cases added <;> rfl

theorem incrementShared_agrees : Agrees incrementShared incrementHandler := by
  intro action facts
  rw [incrementShared, incrementHandler]
  cases requireTarget action "increment" with
  | error error => rfl
  | ok target =>
    simp only [lookup_eq_readPath]
    exact run_added (addNumeric (pyOr ((readPath facts target).getD .null) (.int 0))
      (pyOr ((action.params.get "value").getD .null) (.int 1))) facts target

theorem logShared_agrees : Agrees logShared logHandler := fun _ _ => rfl

theorem Agrees.unchanged {shared : SharedHandler} {handler : ActionHandler} (agrees : Agrees shared handler)
    {action : Action} {facts after : Fact} {error : ActionError}
    (failed : (shared action).run facts = (.error error, after)) : after = facts := by
  rw [agrees action facts] at failed
  split at failed
  · cases failed
  · cases failed
    rfl

namespace SharedRegistry

variable {registry : SharedRegistry} {action : Action} {facts after : Fact} {error : ActionError}

theorem apply_unchanged (builtin : registry.BuiltIn)
    (failed : (registry.apply action).run facts = (.error error, after)) : after = facts := by
  rw [apply] at failed
  split at failed
  · rename_i handler found
    obtain ⟨before, behind, entries, -⟩ := List.lookup_eq_some_iff.mp found
    have listed : (action.actionType, handler) ∈ registry.handlers := by
      rw [entries]
      exact List.mem_append_right _ (.head _)
    rcases builtin _ listed with rfl | rfl | rfl
    · exact setShared_agrees.unchanged failed
    · exact incrementShared_agrees.unchanged failed
    · exact logShared_agrees.unchanged failed
  · cases failed
    rfl

theorem applyAll_append (first second : List Action) (facts : Fact) :
    registry.applyAll (first ++ second) facts =
      (registry.applyAll first facts).bind (registry.applyAll second) := by
  induction first generalizing facts with
  | nil => rfl
  | cons action first ih =>
    rw [List.cons_append, applyAll, applyAll]
    split
    · exact ih _
    · rfl

-- The invariant of the loop: the executed actions alone lead to the facts.
theorem executeOne_replays (builtin : registry.BuiltIn) {execution : Execution}
    (replays : registry.applyAll execution.executed facts = some execution.facts) (action : Action) :
    registry.applyAll (registry.executeOne execution action).executed facts =
      some (registry.executeOne execution action).facts := by
  rw [executeOne]
  split
  · rename_i after ran
    rw [applyAll_append, replays, Option.bind_some, applyAll, ran]
    rfl
  · rename_i error after failed
    rw [apply_unchanged builtin failed]
    exact replays

theorem executed_replays (builtin : registry.BuiltIn) (actions : List Action) (execution : Execution)
    (replays : registry.applyAll execution.executed facts = some execution.facts) :
    registry.applyAll (actions.foldl registry.executeOne execution).executed facts =
      some (actions.foldl registry.executeOne execution).facts := by
  induction actions generalizing execution with
  | nil => exact replays
  | cons action actions ih => exact ih _ (executeOne_replays builtin replays action)

theorem execute_replays (builtin : registry.BuiltIn) (actions : List Action) (facts : Fact) :
    registry.applyAll (registry.execute actions facts).1.executed facts =
      some (registry.execute actions facts).2 :=
  executed_replays builtin actions { facts } rfl

theorem withBuiltins_builtIn : withBuiltins.BuiltIn := by
  intro entry member
  simp only [withBuiltins, List.mem_cons, List.not_mem_nil, or_false] at member
  rcases member with rfl | rfl | rfl <;> simp

theorem withBuiltins_apply (action : Action) (facts : Fact) :
    (withBuiltins.apply action).run facts =
      match ActionRegistry.withBuiltins.apply action facts with
      | .ok after => (.ok (), after)
      | .error error => (.error error, facts) := by
  rw [apply, ActionRegistry.apply]
  simp only [withBuiltins, ActionRegistry.withBuiltins, ActionRegistry.register, List.lookup_cons, List.lookup_nil]
  cases action.actionType == "log" with
  | true => exact logShared_agrees action facts
  | false =>
    cases action.actionType == "increment" with
    | true => exact incrementShared_agrees action facts
    | false =>
      cases action.actionType == "set" with
      | true => exact setShared_agrees action facts
      | false => rfl

theorem executed_pure (actions : List Action) (execution : Execution) :
    actions.foldl withBuiltins.executeOne execution =
      let (executed, failed, facts) := ActionRegistry.withBuiltins.executeAll actions execution.facts
      { executed := execution.executed ++ executed
        errors := execution.errors ++
          failed.map fun (action, error) => action.actionType ++ ": " ++ error.toString
        facts } := by
  induction actions generalizing execution with
  | nil => simp [ActionRegistry.executeAll]
  | cons action actions ih =>
    have one := withBuiltins_apply action execution.facts
    rw [List.foldl_cons, ih, ActionRegistry.executeAll, executeOne, one]
    cases ActionRegistry.withBuiltins.apply action execution.facts with
    | ok after => simp
    | error error => simp

theorem withBuiltins_execute (actions : List Action) (facts : Fact) :
    withBuiltins.execute actions facts = ActionRegistry.withBuiltins.execute actions facts := by
  rw [execute, ActionRegistry.execute]
  simp only [executed_pure, List.nil_append]

theorem fact_paths :
    (∀ facts path value, readPath (writePath facts path value) path = some value) ∧
    (∀ facts path first second,
      writePath (writePath facts path first) path second = writePath facts path second) ∧
    (∀ facts path other value, ¬ segments path <+: segments other → ¬ segments other <+: segments path →
      readPath (writePath facts path value) other = readPath facts other) ∧
    (∀ facts path, lookup facts path = readPath facts path) ∧
    ∀ registry : SharedRegistry, registry.BuiltIn →
      (∀ action facts error after,
        (registry.apply action).run facts = (.error error, after) → after = facts) ∧
      ∀ actions facts, registry.applyAll (registry.execute actions facts).1.executed facts =
        some (registry.execute actions facts).2 :=
  ⟨readPath_writePath, writePath_writePath,
    fun facts _ _ value apart beyond => readPath_writePath_other apart beyond facts value,
    lookup_eq_readPath, fun _ builtin =>
      ⟨fun _ _ _ _ failed => apply_unchanged builtin failed, execute_replays builtin⟩⟩

def raised : List Action :=
  [⟨"set", [("target", .string "a.b"), ("value", .int 4)]⟩, ⟨"raise", []⟩,
    ⟨"increment", [("target", .string "a.b")]⟩]

theorem raised_replays : (withBuiltins.execute raised []).1.error =
      some "raise: unsupported action type 'raise'; register a handler for it" ∧
    withBuiltins.applyAll [raised[0], raised[2]] [] = some [("a", .object [("b", .int 5)])] := by
  have law := (fact_paths.2.2.2.2 withBuiltins withBuiltins_builtIn).2 raised []
  have ran : withBuiltins.execute raised [] = (⟨[raised[0], raised[2]],
      some "raise: unsupported action type 'raise'; register a handler for it"⟩,
      [("a", .object [("b", .int 5)])]) := by decide +kernel
  rw [ran] at law
  exact ⟨by rw [ran], law⟩

end SharedRegistry

end Firefly.RuleEngine
