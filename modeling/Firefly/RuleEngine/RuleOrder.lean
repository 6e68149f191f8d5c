import Firefly.RuleEngine.Core
import Firefly.Shared.StableSort

set_option autoImplicit false

namespace Firefly.RuleEngine

open StableSort

def Rule.reversed (rule : Rule) : Intᵒᵈ := OrderDual.toDual rule.priority

def ties (priority : Int) (rules : List Rule) : List Rule :=
  rules.filter fun rule => rule.enabled ∧ rule.priority = priority

namespace Crates

variable (crates : Crates) {mode : EvaluationMode} {fact : Fact} {rules : List Rule} {verdict : Verdict}

def fires (fact : Fact) (rule : Rule) : Bool :=
  match crates.eval fact rule.when with
  | .ok held => rule.enabled && held
  | .error _ => false

def firstMatching (set : RuleSet) (fact : Fact) : Option Rule :=
  (sortByKey Rule.reversed set.rules).find? (crates.fires fact)

variable {crates}

theorem evaluateWithMode_sorted (set : RuleSet) (fact : Fact) (mode : EvaluationMode) :
    crates.evaluateWithMode set fact mode =
      crates.evaluateRules mode fact (sortByKey Rule.reversed set.rules) {} := rfl

theorem evaluateRules_enabled (rules : List Rule) (verdict : Verdict) :
    crates.evaluateRules mode fact (rules.filter (·.enabled)) verdict =
      crates.evaluateRules mode fact rules verdict := by
  induction rules generalizing verdict with
  | nil => rfl
  | cons rule rules ih =>
    by_cases on : rule.enabled
    · simp only [List.filter_cons, on, if_true, evaluateRules, Bool.not_true, Bool.false_eq_true, if_false, ih]
    · simp only [List.filter_cons, on, Bool.false_eq_true, if_false, evaluateRules, Bool.not_false, if_true, ih]

theorem classOf_enabled (priority : Int) (rules : List Rule) :
    classOf Rule.reversed (OrderDual.toDual priority) (rules.filter (·.enabled)) = ties priority rules := by
  rw [classOf, ties, List.filter_filter]
  exact List.filter_congr fun rule _ => by
    simp [Rule.reversed, Bool.and_comm]

theorem evaluateWithMode_ties {set other : RuleSet}
    (same : ∀ priority, ties priority set.rules = ties priority other.rules) :
    crates.evaluateWithMode set fact mode = crates.evaluateWithMode other fact mode := by
  have sorted : (sortByKey Rule.reversed set.rules).filter (·.enabled) =
      (sortByKey Rule.reversed other.rules).filter (·.enabled) := by
    rw [sortByKey_filter, sortByKey_filter]
    refine sortByKey_congr fun k => ?_
    have classes := same (OrderDual.ofDual k)
    rwa [← classOf_enabled, ← classOf_enabled] at classes
  rw [evaluateWithMode_sorted, evaluateWithMode_sorted, ← evaluateRules_enabled, sorted,
    evaluateRules_enabled]

structure Begins (start first all : Verdict) (stop : Option Rule) : Prop where
  matched : ∃ more, all.matched = start.matched ++ more ∧ first.matched = start.matched ++ more.take 1 ∧
    more.head? = stop.map Rule.id
  actions : first.actions <+: all.actions
  stopped : ∀ rule ∈ stop, rule.then <:+ first.actions
  through : stop = none → first = all

theorem evaluateRules_grows {all : Verdict} (ran : crates.evaluateRules .all fact rules verdict = .ok all) :
    verdict.matched <+: all.matched ∧ verdict.actions <+: all.actions := by
  induction rules generalizing verdict with
  | nil =>
    cases ran
    exact ⟨List.prefix_rfl, List.prefix_rfl⟩
  | cons rule rules ih =>
    rw [evaluateRules] at ran
    split at ran
    · exact ih ran
    · split at ran
      · cases ran
      · have later := ih ran
        exact ⟨(List.prefix_append ..).trans later.1, (List.prefix_append ..).trans later.2⟩
      · have later := ih ran
        exact ⟨later.1, (List.prefix_append ..).trans later.2⟩

-- `FirstMatch` ends at the rule that fires, and what `All` adds comes behind.
theorem begins_here {rule : Rule} {all : Verdict} (held : crates.eval fact rule.when = .ok true)
    (on : rule.enabled = true)
    (ran : crates.evaluateRules .all fact (rule :: rules) verdict = .ok all) :
    ∃ first, crates.evaluateRules .firstMatch fact (rule :: rules) verdict = .ok first ∧
      Begins verdict first all (some rule) := by
  rw [evaluateRules] at ran ⊢
  simp only [on, Bool.not_true, Bool.false_eq_true, if_false, held, reduceCtorEq] at ran
  obtain ⟨⟨later, matched⟩, actions⟩ := evaluateRules_grows ran
  refine ⟨_, by simp [on, held], ⟨rule.id :: later, ?_, rfl, rfl⟩, actions, ?_, ?_⟩
  · rw [← matched, List.append_assoc]
    rfl
  · rintro _ ⟨⟩
    exact List.suffix_append ..
  · exact fun none_ => nomatch none_

theorem evaluateRules_begins {all : Verdict} (ran : crates.evaluateRules .all fact rules verdict = .ok all) :
    ∃ first, crates.evaluateRules .firstMatch fact rules verdict = .ok first ∧
      Begins verdict first all (rules.find? (crates.fires fact)) := by
  induction rules generalizing verdict with
  | nil =>
    cases ran
    exact ⟨_, rfl, ⟨[], by simp, by simp, rfl⟩, List.prefix_rfl, by simp, fun _ => rfl⟩
  | cons rule rules ih =>
    by_cases on : rule.enabled
    · cases held : crates.eval fact rule.when with
      | error error =>
        rw [evaluateRules] at ran
        simp [on, held] at ran
      | ok held' =>
        cases held' with
        | true =>
          have found : (rule :: rules).find? (crates.fires fact) = some rule := by
            simp [fires, held, on]
          rw [found]
          exact begins_here held on ran
        | false =>
          have skipped : (rule :: rules).find? (crates.fires fact) =
              rules.find? (crates.fires fact) := by
            simp [fires, held]
          rw [evaluateRules] at ran ⊢
          simp only [on, Bool.not_true, Bool.false_eq_true, if_false, held] at ran ⊢
          rw [skipped]
          exact (ih ran).imp fun first both => ⟨both.1, both.2.matched, both.2.actions,
            both.2.stopped, both.2.through⟩
    · have silent : crates.fires fact rule = false := by
        rw [fires]
        split <;> simp [on]
      have skipped : (rule :: rules).find? (crates.fires fact) =
          rules.find? (crates.fires fact) := by
        simp [silent]
      rw [evaluateRules] at ran ⊢
      simp only [on, Bool.not_false, if_true] at ran ⊢
      rw [skipped]
      exact ih ran

theorem rule_order (crates : Crates) (set : RuleSet) (fact : Fact) :
    (∀ mode rules, rules.Perm set.rules →
      (∀ priority, ties priority rules = ties priority set.rules) →
      crates.evaluateWithMode { set with rules := rules } fact mode =
        crates.evaluateWithMode set fact mode) ∧
    ∀ all, crates.evaluateWithMode set fact .all = .ok all →
      ∃ first, crates.evaluateWithMode set fact .firstMatch = .ok first ∧
        first.matched = all.matched.take 1 ∧ first.actions <+: all.actions ∧
        match crates.firstMatching set fact with
        | some rule => first.matched = [rule.id] ∧ rule.then <:+ first.actions
        | none => first = all ∧ all.matched = [] := by
  refine ⟨fun mode rules _ same => evaluateWithMode_ties same, fun all ran => ?_⟩
  rw [evaluateWithMode_sorted] at ran
  obtain ⟨first, ran, ⟨more, every, one, stop⟩, actions, stopped, through⟩ := evaluateRules_begins ran
  change all.matched = [] ++ more at every
  change first.matched = [] ++ more.take 1 at one
  rw [List.nil_append] at every one
  refine ⟨first, ran, by rw [one, every], actions, ?_⟩
  rw [firstMatching]
  cases found : (sortByKey Rule.reversed set.rules).find? (crates.fires fact) with
  | none =>
    rw [found] at stop
    exact ⟨through found, every.trans (List.head?_eq_none_iff.mp stop)⟩
  | some rule =>
    rw [found] at stop
    refine ⟨?_, stopped rule found⟩
    rw [one, List.take_one, stop]
    rfl

def noCrates : Crates := ⟨fun _ => "", fun _ => .error "no pattern"⟩

def lowRule : Rule := { id := "low", priority := 1, when := {}, «then» := [⟨"log", []⟩] }

def highRule : Rule := { id := "high", priority := 2, when := {}, «then» := [⟨"set", []⟩] }

theorem low_and_high : noCrates.evaluateWithMode ⟨"r", [lowRule, highRule]⟩ [] .all =
      noCrates.evaluateWithMode ⟨"r", [highRule, lowRule]⟩ [] .all ∧
    ∃ first, noCrates.evaluateWithMode ⟨"r", [highRule, lowRule]⟩ [] .firstMatch = .ok first ∧
      first.matched = ["high"] := by
  have law := rule_order noCrates ⟨"r", [highRule, lowRule]⟩ []
  refine ⟨law.1 .all [lowRule, highRule] (.swap ..) fun priority => ?_, ?_⟩
  · simp only [ties, List.filter_cons, List.filter_nil, lowRule, highRule]
    by_cases one : (1 : Int) = priority
    · simp [← one]
    · simp [one]
  · have all : noCrates.evaluateWithMode ⟨"r", [highRule, lowRule]⟩ [] .all =
        .ok ⟨["high", "low"], [⟨"set", []⟩, ⟨"log", []⟩]⟩ := by
      rw [evaluateWithMode, List.mergeSort_of_pairwise (by decide)]
      simp [evaluateRules, eval, highRule, lowRule]
    obtain ⟨first, ran, one, -⟩ := law.2 _ all
    exact ⟨first, ran, one⟩

end Crates

end Firefly.RuleEngine
