import Firefly.Data.Specification
import Firefly.Shared.SqlParsing

set_option autoImplicit false

namespace Firefly.Data

open Json (Value)
open Formulas SqlText

namespace Dialect

def lexicon : Dialect → Lexicon
  | .postgres =>
    { quote := '"', numbered := true, arrays := true, emptyLists := false, apart := by decide }
  | .mySql =>
    { quote := Char.ofNat 96, numbered := false, arrays := false, emptyLists := false
      apart := by decide }
  | .sqlite =>
    { quote := '"', numbered := false, arrays := false, emptyLists := true, apart := by decide }

def operator (dialect : Dialect) : Op → Operator
  | .eq => .compare .eq
  | .ne => .compare .ne
  | .lt => .compare .lt
  | .lte => .compare .le
  | .gt => .compare .gt
  | .gte => .compare .ge
  | .like => .like
  | .iLike => if dialect = .postgres then .iLike else .lowerLike
  | .isIn => if dialect = .postgres then .any else .isIn
  | .isNil => .isNull

def values (dialect : Dialect) (p : Predicate) : List Value :=
  match p.op, p.value with
  | .isNil, _ => []
  | .isIn, .array items => if dialect = .postgres then [.array items] else items
  | _, value => [value]

def test (dialect : Dialect) (p : Predicate) : Test Value :=
  { column := p.field.toList, operator := dialect.operator p.op, values := dialect.values p }

end Dialect

namespace Specification

def collapse (node : List (Formula Predicate) → Formula Predicate) :
    List (Formula Predicate) → Option (Formula Predicate)
  | [] => none
  | [part] => some part
  | parts => some (node parts)

mutual

def reduce : Specification → Option (Formula Predicate)
  | .all => none
  | .pred p => some (.test p)
  | .and children => collapse .all (reduceParts children)
  | .or children => collapse .any (reduceParts children)
  | .not inner => (reduce inner).map .not

def reduceParts : List Specification → List (Formula Predicate)
  | [] => []
  | child :: children =>
    match reduce child with
    | none => reduceParts children
    | some part => part :: reduceParts children

end

mutual

def predicates : Specification → List Predicate
  | .all => []
  | .pred p => [p]
  | .and children => predicatesOf children
  | .or children => predicatesOf children
  | .not inner => predicates inner

def predicatesOf : List Specification → List Predicate
  | [] => []
  | child :: children => predicates child ++ predicatesOf children

end

@[simp] theorem reduceParts_eq (children : List Specification) :
    reduceParts children = children.filterMap reduce := by
  induction children with
  | nil => rfl
  | cons child children ih =>
    rw [reduceParts, ih]
    cases reduced : reduce child <;> simp [reduced]

@[simp] theorem predicatesOf_eq (children : List Specification) :
    predicatesOf children = children.flatMap predicates := by
  induction children with
  | nil => rfl
  | cons child children ih => simp [predicatesOf, ih]

theorem collapse_cases {node : List (Formula Predicate) → Formula Predicate}
    {parts : List (Formula Predicate)} {formula : Formula Predicate}
    (collapsed : collapse node parts = some formula) :
    parts = [formula] ∨ 2 ≤ parts.length ∧ formula = node parts := by
  match parts with
  | [] => simp [collapse] at collapsed
  | [part] => exact .inl (by simpa [collapse] using collapsed)
  | first :: second :: rest => exact .inr ⟨by simp, by simpa [collapse] using collapsed.symm⟩

theorem collapse_eq_none {node : List (Formula Predicate) → Formula Predicate}
    {parts : List (Formula Predicate)} : collapse node parts = none ↔ parts = [] := by
  match parts with
  | [] => simp [collapse]
  | [_] => simp [collapse]
  | _ :: _ :: _ => simp [collapse]

theorem proper_parts {children : List Specification}
    (each : ∀ child ∈ children, ∀ part, child.reduce = some part → part.Proper) :
    ∀ part ∈ children.filterMap reduce, part.Proper := by
  intro part member
  obtain ⟨child, inside, here⟩ := List.mem_filterMap.mp member
  exact each child inside part here

theorem reduce_proper {spec : Specification} {formula : Formula Predicate}
    (reduced : spec.reduce = some formula) : formula.Proper := by
  induction spec using Specification.induct generalizing formula with
  | all => simp [reduce] at reduced
  | pred p =>
    obtain rfl : .test p = formula := by simpa [reduce] using reduced
    exact .test p
  | and children ih =>
    rw [reduce, reduceParts_eq] at reduced
    have each := proper_parts fun child inside _ => ih child inside
    rcases collapse_cases reduced with single | ⟨several, rfl⟩
    · exact each formula (by simp [single])
    · exact .all several each
  | or children ih =>
    rw [reduce, reduceParts_eq] at reduced
    have each := proper_parts fun child inside _ => ih child inside
    rcases collapse_cases reduced with single | ⟨several, rfl⟩
    · exact each formula (by simp [single])
    · exact .any several each
  | not inner ih =>
    obtain ⟨part, here, rfl⟩ := Option.map_eq_some_iff.mp (by simpa [reduce] using reduced)
    exact .not (ih here)

theorem flatMap_reduce {children : List Specification}
    (each : ∀ child ∈ children, (child.reduce.map Formula.tests).getD [] = child.predicates) :
    (children.filterMap reduce).flatMap Formula.tests = children.flatMap predicates := by
  induction children with
  | nil => rfl
  | cons child children ih =>
    have later := ih fun child member => each child (by simp [member])
    have here := each child (by simp)
    cases reduced : reduce child with
    | none => simp_all
    | some part => simp_all

theorem tests_reduce (spec : Specification) :
    (spec.reduce.map Formula.tests).getD [] = spec.predicates := by
  induction spec using Specification.induct with
  | all => rfl
  | pred p => rfl
  | and children ih =>
    rw [reduce, reduceParts_eq, predicates, predicatesOf_eq, ← flatMap_reduce ih]
    match children.filterMap reduce with
    | [] => rfl
    | [part] => simp [collapse]
    | _ :: _ :: _ => simp [collapse, Formula.tests]
  | or children ih =>
    rw [reduce, reduceParts_eq, predicates, predicatesOf_eq, ← flatMap_reduce ih]
    match children.filterMap reduce with
    | [] => rfl
    | [part] => simp [collapse]
    | _ :: _ :: _ => simp [collapse, Formula.tests]
  | not inner ih =>
    rw [reduce, predicates, ← ih]
    cases reduce inner <;> rfl

end Specification

section Predicates

variable {dialect : Dialect}

theorem spells_quoteIdent (dialect : Dialect) (field : String) :
    Spells dialect.lexicon (dialect.quoteIdent field).toList [.ident field.toList] := by
  rw [Dialect.quoteIdent, String.toList_ofList]
  cases dialect <;> exact spells_quoted _

theorem spells_placeholder (dialect : Dialect) (n : Nat) :
    Spells dialect.lexicon (dialect.placeholder n).toList
      [.slot (if dialect.lexicon.numbered then some n else none)] := by
  cases dialect with
  | postgres =>
    rw [Dialect.placeholder, String.toList_ofList]
    exact spells_number rfl n
  | mySql =>
    have question : Spells (Dialect.lexicon .mySql) ['?'] [.slot none] := spells_question (by rfl)
    simpa [Dialect.placeholder, Dialect.lexicon] using question
  | sqlite =>
    have question : Spells (Dialect.lexicon .sqlite) ['?'] [.slot none] := spells_question (by rfl)
    simpa [Dialect.placeholder, Dialect.lexicon] using question

structure Renders (dialect : Dialect) (binding : Binding) (rendered : String × Binding)
    (tokens : List (Token Value)) : Prop where
  spells : Spells dialect.lexicon rendered.1.toList (unbound dialect.lexicon binding.idx tokens)
  args : rendered.2.args = binding.args ++ slots tokens
  idx : rendered.2.idx = binding.idx + (slots tokens).length
  nonempty : rendered.1 ≠ ""

theorem quoteIdent_ne (dialect : Dialect) (field rest : String) :
    dialect.quoteIdent field ++ rest ≠ "" := by
  intro empty
  have chars := congrArg String.toList empty
  simp [Dialect.quoteIdent] at chars

theorem renders_compared {sign : String} {symbol : Symbol} (p : Predicate) (binding : Binding)
    (spelled : Spells dialect.lexicon sign.toList [.symbol symbol]) :
    Renders dialect binding (renderCompared sign dialect p binding)
      [.ident p.field.toList, .symbol symbol, .slot p.value] where
  spells := by
    have text : (renderCompared sign dialect p binding).1.toList =
        (dialect.quoteIdent p.field).toList ++
          ' ' :: (sign.toList ++ ' ' :: (dialect.placeholder binding.idx).toList) := by
      simp [renderCompared]
    rw [text]
    have value := (spells_placeholder dialect binding.idx).space
    have compared := (spelled.append value (breaks_cons (by simp) _)).space
    exact (spells_quoteIdent dialect p.field).append compared (breaks_cons (by simp) _)
  args := rfl
  idx := rfl
  nonempty := by
    rw [renderCompared, String.append_assoc, String.append_assoc, String.append_assoc]
    exact quoteIdent_ne _ _ _

theorem spells_sign {dialect : Dialect} {sign : String} {c : Comparison}
    (found : (sign.toList, c) ∈ comparisons) :
    Spells dialect.lexicon sign.toList [.compare c] := by
  generalize sign.toList = chars at found
  simp only [comparisons, List.mem_cons, Prod.mk.injEq, List.not_mem_nil, or_false] at found
  rcases found with ⟨rfl, rfl⟩ | ⟨rfl, rfl⟩ | ⟨rfl, rfl⟩ | ⟨rfl, rfl⟩ | ⟨rfl, rfl⟩ | ⟨rfl, rfl⟩ <;>
    exact spells_comparison (by decide) (by decide)

theorem spells_word {dialect : Dialect} {word : String} {k : Keyword}
    (found : (word.toList, k) ∈ keywords) : Spells dialect.lexicon word.toList [.keyword k] := by
  generalize word.toList = chars at found
  simp only [keywords, List.mem_cons, Prod.mk.injEq, List.not_mem_nil, or_false] at found
  rcases found with ⟨rfl, rfl⟩ | ⟨rfl, rfl⟩ | ⟨rfl, rfl⟩ | ⟨rfl, rfl⟩ | ⟨rfl, rfl⟩ | ⟨rfl, rfl⟩ |
      ⟨rfl, rfl⟩ | ⟨rfl, rfl⟩ | ⟨rfl, rfl⟩ | ⟨rfl, rfl⟩ <;>
    exact spells_keyword (by decide) (by decide)

theorem spells_placeholders (dialect : Dialect) (start : Nat) (values : List Value) :
    Spells dialect.lexicon
      ((List.range' start values.length).flatMap fun n =>
        [',', ' '] ++ (dialect.placeholder n).toList)
      (unbound dialect.lexicon start (values.flatMap fun value => [Token.comma, .slot value])) := by
  induction values generalizing start with
  | nil => exact spells_nil
  | cons value values ih =>
    have breaks : Breaks ((List.range' (start + 1) values.length).flatMap fun n =>
        [',', ' '] ++ (dialect.placeholder n).toList) := by
      cases values with
      | nil => exact breaks_nil
      | cons => exact breaks_cons (by simp) _
    have here := ((spells_placeholder dialect start).space).comma
    have whole := here.append (ih (start + 1)) breaks
    simpa [unbound, List.range'_succ] using whole

theorem spells_joined (dialect : Dialect) (start : Nat) (values : List Value) :
    Spells dialect.lexicon
      (", ".intercalate
        ((List.range values.length).map fun i => dialect.placeholder (start + i))).toList
      (unbound dialect.lexicon start
        ([Token.comma].intercalate (values.map fun value => [Token.slot value]))) := by
  cases values with
  | nil => exact spells_nil
  | cons value values =>
    have breaks : Breaks ((List.range' (start + 1) values.length).flatMap fun n =>
        [',', ' '] ++ (dialect.placeholder n).toList) := by
      cases values with
      | nil => exact breaks_nil
      | cons => exact breaks_cons (by simp) _
    have numbers : (List.range (value :: values).length).map (fun i => dialect.placeholder (start + i)) =
        dialect.placeholder start :: (List.range' (start + 1) values.length).map dialect.placeholder := by
      rw [List.range_eq_range', List.length_cons, List.range'_succ, List.map_cons, Nat.add_zero,
        List.range'_eq_map_range, List.range'_eq_map_range, List.map_map, List.map_map]
      congr 1
      apply List.map_congr_left
      intro i _
      simp [Nat.add_assoc]
    rw [numbers, String.toList_intercalate, List.map_cons, intercalate_cons, List.map_cons,
      intercalate_cons, List.flatMap_map, List.flatMap_map, List.flatMap_map]
    have whole := (spells_placeholder dialect start).append
      (spells_placeholders dialect (start + 1) values) breaks
    simpa [unbound] using whole

theorem renders_ilike (p : Predicate) (binding : Binding) (ilike : p.op = .iLike) :
    Renders dialect binding (renderPredicateSql dialect p binding) (dialect.test p).tokens := by
  obtain ⟨field, op, value⟩ := p
  obtain rfl : op = .iLike := ilike
  -- `LOWER(column) LIKE LOWER(value)`, for the dialects that have no ILIKE.
  have lowered : Spells dialect.lexicon
      ("LOWER(" ++ dialect.quoteIdent field ++ ") LIKE LOWER(" ++
        dialect.placeholder binding.idx ++ ")").toList
      [.keyword .lower, .opening, .ident field.toList, .closing, .keyword .like, .keyword .lower,
        .opening, .slot (if dialect.lexicon.numbered then some binding.idx else none), .closing] := by
    have lower : Spells dialect.lexicon "LOWER".toList [.keyword .lower] :=
      spells_word (by simp [keywords])
    have like : Spells dialect.lexicon "LIKE".toList [.keyword .like] :=
      spells_word (by simp [keywords])
    have value := ((spells_placeholder dialect binding.idx).append spells_nil.closing
      (breaks_cons (by simp) _)).opening
    have pattern := (like.append (lower.append value (breaks_cons (by simp) _)).space
      (breaks_cons (by simp) _)).space.closing
    have column := ((spells_quoteIdent dialect field).append pattern
      (breaks_cons (by simp) _)).opening
    have whole := lower.append column (breaks_cons (by simp) _)
    simpa using whole
  by_cases postgres : dialect = .postgres
  · subst postgres
    have rendered : renderPredicateSql .postgres ⟨field, .iLike, value⟩ binding =
        renderCompared "ILIKE" .postgres ⟨field, .iLike, value⟩ binding := by
      refine Prod.ext ?_ rfl
      apply String.toList_inj.mp
      simp [renderPredicateSql, renderCompared, Dialect.ilike]
    rw [rendered]
    exact renders_compared ⟨field, .iLike, value⟩ binding (spells_word (by simp [keywords]))
  · have rendered : renderPredicateSql dialect ⟨field, .iLike, value⟩ binding =
        ("LOWER(" ++ dialect.quoteIdent field ++ ") LIKE LOWER(" ++
          dialect.placeholder binding.idx ++ ")", binding.push value) := by
      cases dialect with
      | postgres => exact absurd rfl postgres
      | mySql => rfl
      | sqlite => rfl
    have tokens : (dialect.test ⟨field, .iLike, value⟩).tokens =
        [.keyword .lower, .opening, .ident field.toList, .closing, .keyword .like, .keyword .lower,
          .opening, .slot value, .closing] := by
      simp [Dialect.test, Dialect.operator, Dialect.values, postgres, Test.tokens]
    rw [rendered, tokens]
    exact ⟨lowered, rfl, rfl, by simp⟩

theorem renders_in (p : Predicate) (binding : Binding) (isIn : p.op = .isIn) :
    Renders dialect binding (renderPredicateSql dialect p binding) (dialect.test p).tokens := by
  obtain ⟨field, op, value⟩ := p
  obtain rfl : op = .isIn := isIn
  have inWord : Spells dialect.lexicon "IN".toList [.keyword .isIn] := spells_word (by simp [keywords])
  have anyWord : Spells dialect.lexicon "ANY".toList [.keyword .any] :=
    spells_word (by simp [keywords])
  have equals : Spells dialect.lexicon "=".toList [.compare .eq] := spells_sign (by simp [comparisons])
  have array : Spells dialect.lexicon
      (dialect.quoteIdent field ++ " = ANY(" ++ dialect.placeholder binding.idx ++ ")").toList
      [.ident field.toList, .compare .eq, .keyword .any, .opening,
        .slot (if dialect.lexicon.numbered then some binding.idx else none), .closing] := by
    have value := ((spells_placeholder dialect binding.idx).append spells_nil.closing
      (breaks_cons (by simp) _)).opening
    have whole := (spells_quoteIdent dialect field).append
      (equals.append (anyWord.append value (breaks_cons (by simp) _)).space
        (breaks_cons (by simp) _)).space (breaks_cons (by simp) _)
    simpa using whole
  have expanded : ∀ values : List Value, Spells dialect.lexicon
      (dialect.renderInExpanded (dialect.quoteIdent field) binding.idx values.length).toList
      (unbound dialect.lexicon binding.idx
        (Test.tokens ⟨field.toList, .isIn, values⟩)) := by
    intro values
    have list := ((spells_joined dialect binding.idx values).append spells_nil.closing
      (breaks_cons (by simp) _)).opening
    have whole := (spells_quoteIdent dialect field).append
      (inWord.append list.space (breaks_cons (by simp) _)).space (breaks_cons (by simp) _)
    simpa [Dialect.renderInExpanded, Test.tokens, unbound] using whole
  by_cases postgres : dialect = .postgres
  · subst postgres
    have rendered : renderPredicateSql .postgres ⟨field, .isIn, value⟩ binding =
        (Dialect.quoteIdent .postgres field ++ " = ANY(" ++
          Dialect.placeholder .postgres binding.idx ++ ")", binding.push value) := rfl
    have tokens : (Dialect.test .postgres ⟨field, .isIn, value⟩).tokens =
        [.ident field.toList, .compare .eq, .keyword .any, .opening, .slot value, .closing] := by
      cases value <;> rfl
    rw [rendered, tokens]
    refine ⟨array, rfl, rfl, ?_⟩
    rw [String.append_assoc, String.append_assoc]
    exact quoteIdent_ne _ _ _
  · have rendered : renderPredicateSql dialect ⟨field, .isIn, value⟩ binding =
        (dialect.renderInExpanded (dialect.quoteIdent field) binding.idx
            (dialect.values ⟨field, .isIn, value⟩).length,
          { args := binding.args ++ dialect.values ⟨field, .isIn, value⟩
            idx := binding.idx + (dialect.values ⟨field, .isIn, value⟩).length }) := by
      cases dialect with
      | postgres => exact absurd rfl postgres
      | mySql => cases value <;> rfl
      | sqlite => cases value <;> rfl
    have operator : dialect.operator .isIn = .isIn := by simp [Dialect.operator, postgres]
    have bound : slots (Test.tokens ⟨field.toList, .isIn, dialect.values ⟨field, .isIn, value⟩⟩) =
        dialect.values ⟨field, .isIn, value⟩ :=
      Test.slots_tokens _ (by simp)
    rw [rendered, Dialect.test, operator]
    refine ⟨expanded _, by rw [bound], by rw [bound], ?_⟩
    rw [Dialect.renderInExpanded, String.append_assoc, String.append_assoc]
    exact quoteIdent_ne _ _ _

theorem renders_isNil (p : Predicate) (binding : Binding) (isNil : p.op = .isNil) :
    Renders dialect binding (renderPredicateSql dialect p binding) (dialect.test p).tokens := by
  obtain ⟨field, op, value⟩ := p
  obtain rfl : op = .isNil := isNil
  have is : Spells dialect.lexicon "IS".toList [.keyword .is] := spells_word (by simp [keywords])
  have null : Spells dialect.lexicon "NULL".toList [.keyword .null] :=
    spells_word (by simp [keywords])
  have whole := (spells_quoteIdent dialect field).append
    (is.append null.space (breaks_cons (by simp) _)).space (breaks_cons (by simp) _)
  refine ⟨?_, by simp [renderPredicateSql, Dialect.test, Dialect.operator, Test.tokens], ?_,
    quoteIdent_ne _ _ _⟩
  · simpa [renderPredicateSql, Dialect.test, Dialect.operator, Test.tokens, unbound] using whole
  · simp [renderPredicateSql, Dialect.test, Dialect.operator, Test.tokens]

theorem renders_predicate (p : Predicate) (binding : Binding) :
    Renders dialect binding (renderPredicateSql dialect p binding) (dialect.test p).tokens := by
  obtain ⟨field, op, value⟩ := p
  cases op with
  | eq => exact renders_compared ⟨field, .eq, value⟩ binding (spells_sign (by simp [comparisons]))
  | ne => exact renders_compared ⟨field, .ne, value⟩ binding (spells_sign (by simp [comparisons]))
  | lt => exact renders_compared ⟨field, .lt, value⟩ binding (spells_sign (by simp [comparisons]))
  | lte => exact renders_compared ⟨field, .lte, value⟩ binding (spells_sign (by simp [comparisons]))
  | gt => exact renders_compared ⟨field, .gt, value⟩ binding (spells_sign (by simp [comparisons]))
  | gte => exact renders_compared ⟨field, .gte, value⟩ binding (spells_sign (by simp [comparisons]))
  | like => exact renders_compared ⟨field, .like, value⟩ binding (spells_word (by simp [keywords]))
  | iLike => exact renders_ilike ⟨field, .iLike, value⟩ binding rfl
  | isIn => exact renders_in ⟨field, .isIn, value⟩ binding rfl
  | isNil => exact renders_isNil ⟨field, .isNil, value⟩ binding rfl

end Predicates

section Trees

variable {dialect : Dialect}

def treeTokens (dialect : Dialect) (formula : Formula Predicate) : List (Token Value) :=
  written (fun p => (dialect.test p).tokens) formula

def RendersEach (dialect : Dialect) : Nat → List String → List (Formula Predicate) → Prop
  | _, [], [] => True
  | idx, sql :: parts, formula :: formulas =>
    sql ≠ "" ∧ Spells dialect.lexicon sql.toList
      (unbound dialect.lexicon idx (treeTokens dialect formula)) ∧
    RendersEach dialect (idx + (slots (treeTokens dialect formula)).length) parts formulas
  | _, _, _ => False

theorem spells_chain {joiner : String} {k : Keyword}
    (word : Spells dialect.lexicon joiner.toList [.keyword k]) {idx : Nat} {parts : List String}
    {formulas : List (Formula Predicate)} (each : RendersEach dialect idx parts formulas) :
    Spells dialect.lexicon
      (parts.flatMap fun sql => (" " ++ joiner ++ " ").toList ++ sql.toList)
      (unbound dialect.lexicon idx
        (formulas.flatMap fun formula => [Token.keyword k] ++ treeTokens dialect formula)) := by
  induction parts generalizing idx formulas with
  | nil =>
    cases formulas with
    | nil => exact spells_nil
    | cons => exact each.elim
  | cons sql parts ih =>
    cases formulas with
    | nil => exact each.elim
    | cons formula formulas =>
      obtain ⟨_, here, later⟩ := each
      have breaks : Breaks (parts.flatMap fun sql => (" " ++ joiner ++ " ").toList ++ sql.toList) := by
        cases parts with
        | nil => exact breaks_nil
        | cons => simpa using breaks_cons (by simp) _
      have whole := ((word.append here.space (breaks_cons (by simp) _)).space).append
        (ih later) breaks
      simpa [unbound] using whole

theorem spells_node {joiner : String} {k : Keyword}
    (word : Spells dialect.lexicon joiner.toList [.keyword k]) {idx : Nat} {parts : List String}
    {formulas : List (Formula Predicate)} (each : RendersEach dialect idx parts formulas) :
    Spells dialect.lexicon ("(" ++ (" " ++ joiner ++ " ").intercalate parts ++ ")").toList
      (unbound dialect.lexicon idx
        (.opening :: [Token.keyword k].intercalate (formulas.map (treeTokens dialect)) ++
          [.closing])) := by
  match parts, formulas with
  | [], [] =>
    have whole := (show Spells dialect.lexicon [] [] from spells_nil).closing.opening
    simpa [unbound, List.intercalate] using whole
  | [], _ :: _ => exact each.elim
  | _ :: _, [] => exact each.elim
  | sql :: parts, formula :: formulas =>
    obtain ⟨_, here, later⟩ := each
    have chain := spells_chain word later
    have breaks : Breaks ((parts.flatMap fun sql => (" " ++ joiner ++ " ").toList ++ sql.toList) ++
        [')']) := by
      cases parts with
      | nil => exact breaks_cons (by simp) _
      | cons => simpa using breaks_cons (by simp) _
    have whole := (here.append (chain.append spells_nil.closing (breaks_cons (by simp) _))
      breaks).opening
    rw [String.toList_append, String.toList_append, String.toList_intercalate, List.map_cons,
      List.map_cons, intercalate_cons, intercalate_cons, List.flatMap_map, List.flatMap_map]
    simpa [unbound] using whole

theorem slots_intercalate (dialect : Dialect) (k : Keyword) (formulas : List (Formula Predicate)) :
    slots ([Token.keyword k].intercalate (formulas.map (treeTokens dialect))) =
      formulas.flatMap fun formula => slots (treeTokens dialect formula) := by
  cases formulas with
  | nil => rfl
  | cons formula formulas =>
    rw [List.map_cons, intercalate_cons, List.flatMap_map, slots_append, List.flatMap_cons]
    congr 1
    induction formulas with
    | nil => rfl
    | cons formula formulas ih =>
      simp only [List.singleton_append] at ih
      simp [ih]

def RendersTree (dialect : Dialect) (spec : Specification) (binding : Binding) : Prop :=
  match spec.reduce with
  | none => spec.render dialect binding = ("", binding)
  | some formula =>
    Renders dialect binding (spec.render dialect binding) (treeTokens dialect formula)

theorem renderParts_each {children : List Specification}
    (each : ∀ child ∈ children, ∀ binding, RendersTree dialect child binding) (binding : Binding) :
    RendersEach dialect binding.idx (Specification.renderParts dialect children binding).1
      (children.filterMap Specification.reduce) ∧
    (Specification.renderParts dialect children binding).2 =
      { args := binding.args ++ (children.filterMap Specification.reduce).flatMap fun formula =>
          slots (treeTokens dialect formula)
        idx := binding.idx + ((children.filterMap Specification.reduce).flatMap fun formula =>
          slots (treeTokens dialect formula)).length } := by
  induction children generalizing binding with
  | nil => exact ⟨trivial, by simp [Specification.renderParts]⟩
  | cons child children ih =>
    have here := each child (by simp) binding
    have later := ih (fun child member => each child (by simp [member]))
    rw [RendersTree] at here
    rw [Specification.renderParts]
    cases reduced : child.reduce with
    | none =>
      rw [reduced] at here
      simp only [here]
      rw [List.filterMap_cons_none reduced]
      simpa using later binding
    | some formula =>
      rw [reduced] at here
      simp only at here
      obtain ⟨spells, args, idx, nonempty⟩ := here
      rw [List.filterMap_cons_some reduced]
      obtain ⟨parts, bound⟩ := later (child.render dialect binding).2
      simp only [if_neg nonempty]
      rw [idx] at parts
      refine ⟨⟨nonempty, spells, parts⟩, ?_⟩
      rw [bound, args, idx]
      simp [Nat.add_assoc]

theorem rendersTree_node {joiner : String} {k : Keyword}
    {node : List (Formula Predicate) → Formula Predicate}
    (word : Spells dialect.lexicon joiner.toList [.keyword k])
    (tokens : ∀ formulas, treeTokens dialect (node formulas) =
      .opening :: [Token.keyword k].intercalate (formulas.map (treeTokens dialect)) ++ [.closing])
    {binding : Binding} {parts : List String} {formulas : List (Formula Predicate)}
    (each : RendersEach dialect binding.idx parts formulas) :
    match Specification.collapse node formulas with
    | none => parts = []
    | some formula =>
      Spells dialect.lexicon (Specification.joined joiner parts).toList
        (unbound dialect.lexicon binding.idx (treeTokens dialect formula)) ∧
      slots (treeTokens dialect formula) =
        formulas.flatMap (fun formula => slots (treeTokens dialect formula)) ∧
      Specification.joined joiner parts ≠ "" := by
  match parts, formulas with
  | [], [] => rfl
  | [], _ :: _ => exact each.elim
  | _ :: _, [] => exact each.elim
  | [sql], [formula] => exact ⟨each.2.1, by simp, each.1⟩
  | [_], _ :: _ :: _ => exact each.2.2.elim
  | _ :: _ :: _, [_] => exact each.2.2.elim
  | first :: second :: rest, formula :: other :: more =>
    have whole := spells_node word each
    simp only [Specification.collapse, Specification.joined]
    rw [tokens]
    refine ⟨whole, ?_, by simp⟩
    have inner := slots_intercalate dialect k (formula :: other :: more)
    simpa using inner

theorem rendersTree_parts {joiner : String} {k : Keyword}
    (node : List (Formula Predicate) → Formula Predicate) {spec : Specification}
    {children : List Specification}
    (word : Spells dialect.lexicon joiner.toList [.keyword k])
    (tokens : ∀ formulas, treeTokens dialect (node formulas) =
      .opening :: [Token.keyword k].intercalate (formulas.map (treeTokens dialect)) ++ [.closing])
    (reduced : spec.reduce = Specification.collapse node (children.filterMap Specification.reduce))
    (binding : Binding)
    (rendered : spec.render dialect binding =
      (Specification.joined joiner (Specification.renderParts dialect children binding).1,
        (Specification.renderParts dialect children binding).2))
    (each : ∀ child ∈ children, ∀ binding, RendersTree dialect child binding) :
    RendersTree dialect spec binding := by
  obtain ⟨parts, bound⟩ := renderParts_each each binding
  have whole := rendersTree_node word tokens parts
  rw [RendersTree, reduced, rendered, bound]
  cases collapsed : Specification.collapse node (children.filterMap Specification.reduce) with
  | none =>
    rw [collapsed] at whole
    have nothing := Specification.collapse_eq_none.mp collapsed
    simp [whole, Specification.joined, nothing]
  | some formula =>
    rw [collapsed] at whole
    obtain ⟨spells, bindings, nonempty⟩ := whole
    exact ⟨spells, by rw [bindings], by rw [bindings], nonempty⟩

theorem rendersTree (dialect : Dialect) (spec : Specification) (binding : Binding) :
    RendersTree dialect spec binding := by
  induction spec using Specification.induct generalizing binding with
  | all => exact rfl
  | pred p => exact renders_predicate p binding
  | and children ih =>
    have word : Spells dialect.lexicon "AND".toList [.keyword .and] :=
      spells_word (by simp [keywords])
    refine rendersTree_parts .all word (fun formulas => ?_) ?_ binding rfl ih
    · rw [treeTokens, written, writtenParts_eq]
      rfl
    · rw [Specification.reduce, Specification.reduceParts_eq]
  | or children ih =>
    have word : Spells dialect.lexicon "OR".toList [.keyword .or] :=
      spells_word (by simp [keywords])
    refine rendersTree_parts .any word (fun formulas => ?_) ?_ binding rfl ih
    · rw [treeTokens, written, writtenParts_eq]
      rfl
    · rw [Specification.reduce, Specification.reduceParts_eq]
  | not inner ih =>
    have here := ih binding
    rw [RendersTree] at here ⊢
    rw [Specification.reduce]
    cases reduced : inner.reduce with
    | none =>
      rw [reduced] at here
      simp only at here
      simp [Specification.render, here]
    | some part =>
      rw [reduced] at here
      obtain ⟨spells, args, idx, nonempty⟩ := here
      have word : Spells dialect.lexicon "NOT".toList [.keyword .not] :=
        spells_word (by simp [keywords])
      have negated := word.append spells.space (breaks_cons (by simp) _)
      simp only [Option.map_some, Specification.render, if_neg nonempty]
      refine ⟨?_, args, idx, by simp⟩
      simpa [treeTokens, written, unbound] using negated

end Trees

def Faithful (dialect : Dialect) (spec : Specification) : Prop :=
  let (text, args) := spec.toSqlWith dialect
  match spec.reduce with
  | none => text = "" ∧ args = []
  | some tree =>
    expression dialect.lexicon text args = some (tree.map dialect.test) ∧
    ∃ tokens, lex dialect.lexicon text = some tokens ∧
      slots tokens =
        if dialect = .postgres then (List.range' 1 args.length).map some
        else List.replicate args.length none

-- MySQL has no empty IN list, and SQLite and the array parameter of PostgreSQL do.
def EmptyList (dialect : Dialect) (p : Predicate) : Prop :=
  dialect = .mySql ∧ p.op = .isIn ∧ p.value = .array []

theorem reads_or_jams (dialect : Dialect) (p : Predicate) :
    ¬EmptyList dialect p ∧ Reads dialect.lexicon (dialect.test p).tokens (.test (dialect.test p)) ∨
      EmptyList dialect p ∧ Jams dialect.lexicon (dialect.test p).tokens := by
  by_cases empty : EmptyList dialect p
  · obtain ⟨rfl, isIn, nothing⟩ := id empty
    obtain ⟨field, op, value⟩ := p
    obtain rfl : op = .isIn := isIn
    obtain rfl : value = .array [] := nothing
    have strict : (Dialect.lexicon .mySql).emptyLists = false := rfl
    exact .inr ⟨empty, jams_empty_list strict field.toList⟩
  · refine .inl ⟨empty, reads_tokens ?_⟩
    obtain ⟨field, op, value⟩ := p
    cases op with
    | iLike => cases dialect <;> simp [Dialect.test, Dialect.operator, Dialect.values, Test.Allowed,
        Dialect.lexicon]
    | isIn =>
      cases dialect with
      | postgres =>
        cases value <;>
          simp [Dialect.test, Dialect.operator, Dialect.values, Test.Allowed, Dialect.lexicon]
      | sqlite => exact fun _ => rfl
      | mySql =>
        intro none
        cases value with
        | array items =>
          obtain rfl : items = [] := none
          exact absurd ⟨rfl, rfl, rfl⟩ empty
        | _ => simp [Dialect.test, Dialect.values] at none
    | _ => simp [Dialect.test, Dialect.operator, Dialect.values, Test.Allowed]

section Reading

variable {dialect : Dialect} {spec : Specification} {tree : Formula Predicate}

theorem expression_rendered (reduced : spec.reduce = some tree) :
    (spec.toSqlWith dialect).1 ≠ "" ∧
      expression dialect.lexicon (spec.toSqlWith dialect).1 (spec.toSqlWith dialect).2 =
        parse dialect.lexicon (treeTokens dialect tree) := by
  have rendered := rendersTree dialect spec {}
  rw [RendersTree, reduced] at rendered
  obtain ⟨spells, args, idx, nonempty⟩ := rendered
  have bound : (spec.render dialect {}).2.args = slots (treeTokens dialect tree) := by
    rw [args]
    rfl
  refine ⟨nonempty, ?_⟩
  rw [expression, Specification.toSqlWith]
  simp only [spells.lex, bound]
  simp [bind_unbound]

theorem parse_tree (reduced : spec.reduce = some tree)
    (none : ∀ p ∈ spec.predicates, ¬EmptyList dialect p) :
    parse dialect.lexicon (treeTokens dialect tree) = some (tree.map dialect.test) := by
  have leaves := Specification.tests_reduce spec
  rw [reduced, Option.map_some, Option.getD_some] at leaves
  apply Reads.parse
  apply reads_written (Specification.reduce_proper reduced)
  intro p member
  rcases reads_or_jams dialect p with reads | jams
  · exact reads.2
  · exact absurd jams.1 (none p (leaves ▸ member))

end Reading

theorem faithful_iff (dialect : Dialect) (spec : Specification) :
    Faithful dialect spec ↔ ∀ p ∈ spec.predicates, ¬EmptyList dialect p := by
  have rendered := rendersTree dialect spec {}
  have leaves := Specification.tests_reduce spec
  rw [RendersTree] at rendered
  rw [Faithful, Specification.toSqlWith]
  cases reduced : spec.reduce with
  | none =>
    rw [reduced] at rendered leaves
    simp only at rendered
    rw [rendered]
    simp [← leaves]
  | some tree =>
    rw [reduced] at rendered leaves
    obtain ⟨spells, args, idx, nonempty⟩ := rendered
    have proper := Specification.reduce_proper reduced
    have lexed := spells.lex
    have bound : (spec.render dialect {}).2.args = slots (treeTokens dialect tree) := by
      rw [args]
      rfl
    have parsed : expression dialect.lexicon (spec.render dialect {}).1
        (spec.render dialect {}).2.args = parse dialect.lexicon (treeTokens dialect tree) :=
      (expression_rendered reduced).2
    have numbers : ∃ tokens, lex dialect.lexicon (spec.render dialect {}).1 = some tokens ∧
        slots tokens = if dialect = .postgres then
          (List.range' 1 (spec.render dialect {}).2.args.length).map some
        else List.replicate (spec.render dialect {}).2.args.length none := by
      refine ⟨_, lexed, ?_⟩
      rw [slots_unbound, bound]
      cases dialect <;> rfl
    simp only [parsed, numbers, and_true]
    simp only [Option.map_some, Option.getD_some] at leaves
    rw [← leaves]
    constructor
    · intro same p member empty
      have each : ∀ p, Reads dialect.lexicon (dialect.test p).tokens (.test (dialect.test p)) ∨
          Jams dialect.lexicon (dialect.test p).tokens :=
        fun p => (reads_or_jams dialect p).imp And.right And.right
      have here : Jams dialect.lexicon (dialect.test p).tokens := by
        rcases reads_or_jams dialect p with reads | jams
        · exact absurd empty reads.1
        · exact jams.2
      have jams := jams_written proper each ⟨p, member, here⟩
      rw [treeTokens, jams.parse] at same
      simp at same
    · intro none
      refine parse_tree reduced fun p member => none p ?_
      rwa [← Specification.tests_reduce spec, reduced] at member

theorem empty_list_unfaithful :
    ¬Faithful .mySql (.pred ⟨"id", .isIn, .array []⟩) := by
  rintro ⟨same, _⟩
  have refused : (expression (Dialect.lexicon .mySql)
      (Specification.toSqlWith .mySql (.pred ⟨"id", .isIn, .array []⟩)).1
      ([] : List Value)).isNone := by
    decide
  rw [Option.isNone_iff_eq_none] at refused
  exact absurd (refused.symm.trans same) (by simp)

end Firefly.Data
