import Firefly.Data.QueryNames

set_option autoImplicit false

namespace Firefly.Data

open Json (Value)

def FieldPredicate.holds (lower : String → String) (p : FieldPredicate) (args : List Value) (row : Value) :
    Bool :=
  let test op value := evalPredicate lower ⟨p.field, op, value⟩ row
  match p.operator, args with
  | .eq, [value] => row.field p.field = value
  | .not, [value] => row.field p.field ≠ value
  | .gt, [value] => test .gt value
  | .lt, [value] => test .lt value
  | .gte, [value] => test .gte value
  | .lte, [value] => test .lte value
  | .between, [lo, hi] => test .gte lo && test .lte hi
  | .like, [value] => test .like value
  | .containing, [value] => test .like (ParsedQuery.containingPattern value)
  | .isIn, [value] => test .isIn value
  | .isNull, [] => row.field p.field = .null
  | .isNotNull, [] => row.field p.field ≠ .null
  | _, _ => false

namespace ParsedQuery

def meanings (lower : String → String) (row : Value) : List FieldPredicate → List Value → List Bool
  | [], _ => []
  | p :: predicates, args =>
    p.holds lower (args.take p.operator.arity) row ::
      meanings lower row predicates (args.drop p.operator.arity)

def combine : Bool → List String → List Bool → Bool
  | acc, connector :: connectors, holds :: rest =>
    combine (if connector = "or" then acc || holds else acc && holds) connectors rest
  | acc, _, _ => acc

def combined (lower : String → String) (q : ParsedQuery) (args : List Value) (row : Value) : Bool :=
  match meanings lower row q.predicates args with
  | [] => true
  | first :: rest => combine first q.connectors rest

end ParsedQuery

namespace Specification

variable {lower : String → String} {row : Value}

theorem evalAll_append (a b : List Specification) :
    evalAll lower (a ++ b) row = (evalAll lower a row && evalAll lower b row) := by
  induction a with
  | nil => simp [evalAll]
  | cons child a ih => simp [evalAll, ih, Bool.and_assoc]

theorem evalAny_append (a b : List Specification) :
    evalAny lower (a ++ b) row = (evalAny lower a row || evalAny lower b row) := by
  induction a with
  | nil => simp [evalAny]
  | cons child a ih => simp [evalAny, ih, Bool.or_assoc]

theorem eval_andSpec (lhs rhs : Specification) :
    (lhs.andSpec rhs).eval lower row = (lhs.eval lower row && rhs.eval lower row) := by
  fun_cases andSpec lhs rhs <;> simp [eval, evalAll, evalAll_append]

theorem eval_orSpec {lhs rhs : Specification} (left : lhs ≠ .all) (right : rhs ≠ .all) :
    (lhs.orSpec rhs).eval lower row = (lhs.eval lower row || rhs.eval lower row) := by
  fun_cases orSpec lhs rhs <;> first | contradiction | simp [eval, evalAny, evalAny_append]

theorem andSpec_ne_all {lhs rhs : Specification} (left : lhs ≠ .all) (right : rhs ≠ .all) :
    lhs.andSpec rhs ≠ .all := by
  fun_cases andSpec lhs rhs <;> simp_all

theorem orSpec_ne_all {lhs rhs : Specification} (left : lhs ≠ .all) (right : rhs ≠ .all) :
    lhs.orSpec rhs ≠ .all := by
  fun_cases orSpec lhs rhs <;> simp_all

end Specification

namespace ParsedQuery

variable {lower : String → String} {row : Value} {args : List Value}

theorem arg_eq {idx : Nat} {value : Value} {rest : List Value} (left : args.drop idx = value :: rest) :
    args[idx]?.getD .null = value := by
  have first := @List.getElem?_drop _ args idx 0
  rw [left] at first
  simpa using congrArg (Option.getD · .null) first.symm

theorem drop_succ {idx : Nat} {value : Value} {rest : List Value} (left : args.drop idx = value :: rest) :
    args.drop (idx + 1) = rest := by
  rw [← List.drop_drop, left, List.drop_one, List.tail_cons]

theorem predicateToSpec_eval {p : FieldPredicate} {idx : Nat}
    (enough : p.operator.arity ≤ (args.drop idx).length) :
    (predicateToSpec p args idx).1.eval lower row =
        p.holds lower ((args.drop idx).take p.operator.arity) row ∧
      (predicateToSpec p args idx).2 = idx + p.operator.arity ∧ (predicateToSpec p args idx).1 ≠ .all := by
  obtain ⟨field, operator⟩ := p
  cases operator with
  | isNull => simp [predicateToSpec, FieldPredicate.holds, QueryOperator.arity, Specification.eval,
      evalPredicate, Predicate.isNil]
  | isNotNull => simp [predicateToSpec, FieldPredicate.holds, QueryOperator.arity, Specification.notSpec,
      Specification.eval, evalPredicate, Predicate.isNil]
  | between =>
    cases left : args.drop idx with
    | nil => simp [left, QueryOperator.arity] at enough
    | cons lo rest =>
      cases rest with
      | nil => simp [left, QueryOperator.arity] at enough
      | cons hi rest =>
        have first := arg_eq left
        have second := arg_eq (drop_succ left)
        simp [predicateToSpec, FieldPredicate.holds, QueryOperator.arity, Specification.eval_andSpec,
          Specification.andSpec_ne_all, Specification.eval, first, second]
  | _ =>
    cases left : args.drop idx with
    | nil => simp [left, QueryOperator.arity] at enough
    | cons value rest =>
      have first := arg_eq left
      simp [predicateToSpec, take1, FieldPredicate.holds, QueryOperator.arity, Specification.eval,
        evalPredicate, first]

theorem predicateSpecs_eval {predicates : List FieldPredicate} {idx : Nat}
    (enough : (predicates.map fun p => p.operator.arity).sum ≤ (args.drop idx).length) :
    (predicateSpecs args idx predicates).map (·.eval lower row) =
        meanings lower row predicates (args.drop idx) ∧
      ∀ spec ∈ predicateSpecs args idx predicates, spec ≠ .all := by
  induction predicates generalizing idx with
  | nil => exact ⟨rfl, fun spec member => nomatch member⟩
  | cons p predicates ih =>
    rw [List.map_cons, List.sum_cons] at enough
    obtain ⟨means, next, some_⟩ :=
      @predicateToSpec_eval lower row args p idx (by omega)
    have rest : (predicates.map fun p => p.operator.arity).sum ≤
        (args.drop (idx + p.operator.arity)).length := by
      rw [← List.drop_drop, List.length_drop]
      omega
    obtain ⟨others, noAll⟩ := ih rest
    rw [predicateSpecs, meanings, List.drop_drop]
    dsimp only
    rw [next, List.map_cons, means, others, List.forall_mem_cons]
    exact ⟨rfl, some_, noAll⟩

theorem connect_eval {acc spec : Specification} (connector : String) (left : acc ≠ .all)
    (right : spec ≠ .all) : connect acc (connector, spec) ≠ .all ∧
      (connect acc (connector, spec)).eval lower row =
        if connector = "or" then acc.eval lower row || spec.eval lower row
        else acc.eval lower row && spec.eval lower row := by
  rw [connect]
  split
  · exact ⟨Specification.orSpec_ne_all left right, Specification.eval_orSpec left right⟩
  · exact ⟨Specification.andSpec_ne_all left right, Specification.eval_andSpec acc spec⟩

theorem foldl_connect_eval {connectors : List String} {specs : List Specification} {acc : Specification}
    (left : acc ≠ .all) (right : ∀ spec ∈ specs, spec ≠ .all) :
    ((connectors.zip specs).foldl connect acc).eval lower row =
      combine (acc.eval lower row) connectors (specs.map (·.eval lower row)) := by
  induction connectors generalizing acc specs with
  | nil => simp [combine]
  | cons connector connectors ih =>
    cases specs with
    | nil => simp [combine]
    | cons spec specs =>
      obtain ⟨here, rest⟩ := List.forall_mem_cons.mp right
      obtain ⟨some_, means⟩ := @connect_eval lower row acc spec connector left here
      rw [List.zip_cons_cons, List.foldl_cons, ih some_ rest, List.map_cons, combine, means]

theorem toSpecification_ok (q : ParsedQuery) (args : List Value) :
    (∃ spec, q.toSpecification args = .ok spec) ↔ args.length = q.argCount := by
  rw [toSpecification]
  split
  · rename_i other
    simpa using other
  · rename_i same
    rw [not_not] at same
    cases predicateSpecs args 0 q.predicates <;> simp [same]

theorem toSpecification_eval {q : ParsedQuery} {spec : Specification}
    (made : q.toSpecification args = .ok spec) : spec.eval lower row = q.combined lower args row := by
  have counted := (toSpecification_ok q args).mp ⟨spec, made⟩
  obtain ⟨means, noAll⟩ := @predicateSpecs_eval lower row args q.predicates 0
    (by rw [List.drop_zero, counted, argCount])
  rw [List.drop_zero] at means
  rw [toSpecification, if_neg (by simpa using counted)] at made
  rw [combined, ← means]
  cases specs : predicateSpecs args 0 q.predicates with
  | nil =>
    rw [specs] at made
    cases made
    rfl
  | cons first rest =>
    rw [specs] at made noAll
    cases made
    obtain ⟨here, others⟩ := List.forall_mem_cons.mp noAll
    exact foldl_connect_eval here others

theorem derived_queries (lower : String → String) :
    (∀ q : ParsedQuery, q.WellFormed → QueryMethodParser.parse q.methodName = .ok q) ∧
      ∀ (q : ParsedQuery) (args : List Value),
        ((∃ spec, q.toSpecification args = .ok spec) ↔
          args.length = (q.predicates.map fun p => p.operator.arity).sum) ∧
        ∀ spec, q.toSpecification args = .ok spec → ∀ row : Option Value,
          spec.matches lower row =
            match row with
            | some (.object fields) => q.combined lower args (.object fields)
            | _ => false := by
  refine ⟨fun q formed => parse_methodName formed, fun q args => ⟨toSpecification_ok q args, ?_⟩⟩
  intro spec made row
  cases row with
  | none => rfl
  | some value =>
    cases value with
    | object fields => exact toSpecification_eval made
    | _ => rfl

def usersQuery : ParsedQuery :=
  ⟨.find, [⟨"user_name", .eq⟩, ⟨"age", .between⟩], ["or"], [⟨"created_at", .desc⟩]⟩

theorem users_query : QueryMethodParser.parse "find_by_user_name_or_age_between_order_by_created_at_desc" =
      .ok usersQuery ∧ ∃ spec,
        usersQuery.toSpecification [.string "ada", .number (.int 18), .number (.int 65)] = .ok spec := by
  have text : usersQuery.methodName = "find_by_user_name_or_age_between_order_by_created_at_desc" := by
    decide
  constructor
  · rw [← text]
    exact (derived_queries id).1 usersQuery ⟨by decide, by decide, by decide, by decide, by decide⟩
  · exact ((derived_queries id).2 usersQuery _).1.mpr rfl

end ParsedQuery

end Firefly.Data
