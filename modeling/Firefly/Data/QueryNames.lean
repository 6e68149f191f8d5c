import Firefly.Data.QueryParser

set_option autoImplicit false

namespace Firefly.Data

open Words

def reserved : List (List Char) :=
  ["and", "or", "order", "by", "asc", "desc", "not", "in", "like", "between", "containing", "is", "null",
    "greater", "less", "than", "equal"].map String.toList

def fieldWords (field : String) : List (List Char) := field.toList.splitOn '_'

def FieldName (field : String) : Prop := ∀ word ∈ fieldWords field, word ≠ [] ∧ word ∉ reserved

instance (field : String) : Decidable (FieldName field) :=
  inferInstanceAs (Decidable (∀ word ∈ fieldWords field, word ≠ [] ∧ word ∉ reserved))

def QueryPrefix.asStr : QueryPrefix → String
  | .find => "find_by"
  | .count => "count_by"
  | .exists => "exists_by"
  | .delete => "delete_by"

def QueryOperator.suffix (operator : QueryOperator) : String :=
  ((QueryMethodParser.operators.find? fun entry => entry.2 = operator).map Prod.fst).getD ""

def FieldPredicate.name (p : FieldPredicate) : List Char := p.field.toList ++ p.operator.suffix.toList

def OrderClause.name (clause : OrderClause) : List Char :=
  clause.field.toList ++
    match clause.direction with
    | .asc => "_asc".toList
    | .desc => "_desc".toList

namespace ParsedQuery

def predicatesName : List FieldPredicate → List String → List Char
  | [], _ => []
  | p :: _, [] => p.name
  | p :: predicates, connector :: connectors =>
    p.name ++ '_' :: connector.toList ++ '_' :: predicatesName predicates connectors

def orderName : List OrderClause → List Char
  | [] => []
  | clauses => QueryMethodParser.orderBy ++ ['_'].intercalate (clauses.map OrderClause.name)

def methodName (q : ParsedQuery) : String :=
  String.ofList (q.queryPrefix.asStr.toList ++ '_' :: predicatesName q.predicates q.connectors ++
    orderName q.orderClauses)

structure WellFormed (q : ParsedQuery) : Prop where
  present : q.predicates ≠ []
  counted : q.connectors.length + 1 = q.predicates.length
  connectors : ∀ connector ∈ q.connectors, connector = "and" ∨ connector = "or"
  fields : ∀ p ∈ q.predicates, FieldName p.field
  orders : ∀ clause ∈ q.orderClauses, FieldName clause.field

end ParsedQuery

theorem fieldWords_ne (field : String) : fieldWords field ≠ [] := List.splitOn_ne_nil _ _

theorem join_fieldWords (field : String) : join '_' (fieldWords field) = field.toList := join_splitOn _

-- Behind its underscore a suffix is a sequence of words.
def suffixWords (suffix : String) : List (List Char) := (suffix.toList.splitOn '_').tail

namespace FieldPredicate

def words (p : FieldPredicate) : List (List Char) := fieldWords p.field ++ suffixWords p.operator.suffix

end FieldPredicate

theorem suffix_words {operator : QueryOperator} (other : operator ≠ .eq) :
    (operator.suffix, operator) ∈ QueryMethodParser.operators := by
  cases operator with
  | eq => exact absurd rfl other
  | _ => decide

theorem operators_words : ∀ entry ∈ QueryMethodParser.operators,
    entry.1.toList = '_' :: join '_' (suffixWords entry.1) ∧ suffixWords entry.1 ≠ [] ∧
      ∀ word ∈ suffixWords entry.1, '_' ∉ word ∧ word ∈ reserved ∧ word ≠ "and".toList ∧
        word ≠ "or".toList ∧ word ≠ "order".toList := by
  decide

theorem operators_order : QueryMethodParser.operators.Pairwise fun entry later =>
    ¬ suffixWords entry.1 <:+ suffixWords later.1 := by
  decide

theorem suffix_name (operator : QueryOperator) : operator.suffix = "" ∧ operator = .eq ∨
    operator.suffix.toList = '_' :: join '_' (suffixWords operator.suffix) ∧
      suffixWords operator.suffix ≠ [] := by
  by_cases plain : operator = .eq
  · exact .inl ⟨by rw [plain]; rfl, plain⟩
  · obtain ⟨text, present, -⟩ := operators_words _ (suffix_words plain)
    exact .inr ⟨text, present⟩

theorem suffix_fresh (operator : QueryOperator) : ∀ word ∈ suffixWords operator.suffix,
    '_' ∉ word ∧ word ≠ "and".toList ∧ word ≠ "or".toList ∧ word ≠ "order".toList := by
  by_cases plain : operator = .eq
  · rw [plain]
    decide
  · intro word member
    obtain ⟨free, -, marks⟩ := (operators_words _ (suffix_words plain)).2.2 word member
    exact ⟨free, marks⟩

namespace FieldPredicate

variable {p : FieldPredicate}

theorem words_plain (p : FieldPredicate) : Plain '_' p.words :=
  plain_append (plain_splitOn _) fun word member => (suffix_fresh p.operator word member).1

theorem name_join (p : FieldPredicate) : p.name = join '_' p.words := by
  rw [name, words]
  rcases suffix_name p.operator with ⟨none_, -⟩ | ⟨text, present⟩
  · rw [none_, ← join_fieldWords]
    simp [suffixWords]
  · rw [text, join_append (fieldWords_ne _) present, join_fieldWords]

theorem words_fresh (named : FieldName p.field) {word : List Char} (member : word ∈ p.words) :
    word ≠ "and".toList ∧ word ≠ "or".toList ∧ word ≠ "order".toList := by
  rcases List.mem_append.mp member with member | member
  · have free := (named word member).2
    refine ⟨?_, ?_, ?_⟩ <;> rintro rfl <;> exact free (by decide)
  · exact (suffix_fresh p.operator word member).2

end FieldPredicate

theorem suffix_of_words {field suffix run : List (List Char)} (free : ∀ word ∈ field, word ∉ reserved)
    (own : ∀ word ∈ run, word ∈ reserved) (ends : run <:+ field ++ suffix) : run <:+ suffix := by
  rcases List.suffix_or_suffix_of_suffix ends (List.suffix_append field suffix) with shorter | longer
  · exact shorter
  · obtain ⟨more, rfl⟩ := longer
    have inside : more <:+ field := by
      obtain ⟨start, same⟩ := ends
      exact ⟨start, List.append_cancel_right (by rw [List.append_assoc, same])⟩
    cases more with
    | nil => exact List.suffix_rfl
    | cons word more =>
      exact absurd (own word (by simp)) (free word (inside.mem (.head _)))

theorem dropSuffix?_name {p : FieldPredicate} (named : FieldName p.field) {entry : String × QueryOperator}
    (member : entry ∈ QueryMethodParser.operators) {field : List Char}
    (found : p.name.dropSuffix? entry.1.toList = some field) :
    suffixWords entry.1 <:+ suffixWords p.operator.suffix := by
  obtain ⟨text, present, own⟩ := operators_words entry member
  have plain : Plain '_' (suffixWords entry.1) := ⟨present, fun word member => (own word member).1⟩
  rw [p.name_join, text, dropSuffix?_iff p.words_plain plain] at found
  refine suffix_of_words (fun word member => (named word member).2)
    (fun word member => (own word member).2.1) ?_
  exact ⟨_, found.symm⟩

theorem parseSinglePredicate_name {p : FieldPredicate} (named : FieldName p.field) :
    QueryMethodParser.parseSinglePredicate p.name = p := by
  have others : ∀ entry ∈ QueryMethodParser.operators,
      ¬ suffixWords entry.1 <:+ suffixWords p.operator.suffix →
        (p.name.dropSuffix? entry.1.toList).map
          (fun field => (⟨String.ofList field, entry.2⟩ : FieldPredicate)) = none := by
    intro entry member apart
    rw [Option.map_eq_none_iff, Option.eq_none_iff_forall_ne_some]
    exact fun field found => apart (dropSuffix?_name named member found)
  rw [QueryMethodParser.parseSinglePredicate]
  by_cases plain : p.operator = .eq
  · have none_ : QueryMethodParser.operators.findSome? (fun entry =>
        (p.name.dropSuffix? entry.1.toList).map fun field =>
          (⟨String.ofList field, entry.2⟩ : FieldPredicate)) = none := by
      rw [List.findSome?_eq_none_iff]
      refine fun entry member => others entry member fun ends => ?_
      rw [plain] at ends
      exact (operators_words entry member).2.1 (List.suffix_nil.mp ends)
    rw [none_, Option.getD_none, FieldPredicate.name, plain]
    cases p
    cases plain
    simp [QueryOperator.suffix, QueryMethodParser.operators]
  · obtain ⟨before, after, split⟩ := List.append_of_mem (suffix_words plain)
    have order := operators_order
    have own : p.name.dropSuffix? p.operator.suffix.toList = some p.field.toList :=
      List.dropSuffix?_eq_some_iff.mpr ⟨_, rfl, beq_self_eq_true _⟩
    have some_ : QueryMethodParser.operators.findSome? (fun entry =>
        (p.name.dropSuffix? entry.1.toList).map fun field =>
          (⟨String.ofList field, entry.2⟩ : FieldPredicate)) = some p := by
      rw [List.findSome?_eq_some_iff]
      refine ⟨before, _, after, split, ?_, fun entry member => others entry ?_ ?_⟩
      · rw [own, Option.map_some, String.ofList_toList]
      · rw [split]
        exact List.mem_append_left _ member
      · rw [split, List.pairwise_append] at order
        exact order.2.2 entry member (p.operator.suffix, p.operator) (.head _)
    rw [some_, Option.getD_some]

namespace ParsedQuery

def predicatesWords : List FieldPredicate → List String → List (List Char)
  | [], _ => []
  | p :: _, [] => p.words
  | p :: predicates, connector :: connectors =>
    p.words ++ connector.toList :: predicatesWords predicates connectors

theorem predicatesWords_plain {predicates : List FieldPredicate} {connectors : List String}
    (present : predicates ≠ []) (known : ∀ connector ∈ connectors, connector = "and" ∨ connector = "or") :
    Plain '_' (predicatesWords predicates connectors) := by
  induction predicates generalizing connectors with
  | nil => exact absurd rfl present
  | cons p predicates ih =>
    cases connectors with
    | nil => exact p.words_plain
    | cons connector connectors =>
      rw [predicatesWords]
      refine plain_append p.words_plain ?_
      rw [List.forall_mem_cons]
      constructor
      · rcases known connector (.head _) with rfl | rfl <;> decide
      · by_cases last : predicates = []
        · rw [last]
          exact fun word member => nomatch member
        · exact (ih last fun connector member => known connector (.tail _ member)).free

theorem predicatesName_join {predicates : List FieldPredicate} {connectors : List String}
    (counted : connectors.length + 1 = predicates.length)
    (known : ∀ connector ∈ connectors, connector = "and" ∨ connector = "or") :
    predicatesName predicates connectors = join '_' (predicatesWords predicates connectors) := by
  induction predicates generalizing connectors with
  | nil => cases counted
  | cons p predicates ih =>
    cases connectors with
    | nil => exact p.name_join
    | cons connector connectors =>
      have rest := Nat.succ.inj counted
      have more : predicates ≠ [] := by
        rintro rfl
        cases rest
      have after := fun connector member => known connector (.tail _ member)
      rw [predicatesName, predicatesWords, ih rest after, p.name_join,
        join_append p.words_plain.present (List.cons_ne_nil _ _),
        join_cons _ (predicatesWords_plain more after).present]
      simp

theorem nextConnector_words {before after : List (List Char)} {connector : String}
    (plain : Plain '_' (before ++ connector.toList :: after)) (left : before ≠ []) (right : after ≠ [])
    (known : connector = "and" ∨ connector = "or")
    (fresh : ∀ word ∈ before, word ≠ "and".toList ∧ word ≠ "or".toList) :
    QueryMethodParser.nextConnector (join '_' (before ++ connector.toList :: after)) =
      some (join '_' before, connector, join '_' after) := by
  have noAnd : "and".toList ∉ before := fun member => (fresh _ member).1 rfl
  have noOr : "or".toList ∉ before := fun member => (fresh _ member).2 rfl
  have ands : "_and_".toList = token '_' ["and".toList] := by decide
  have ors : "_or_".toList = token '_' ["or".toList] := by decide
  have shape (word : List Char) : before ++ word :: after = before ++ [word] ++ after := by simp
  rw [QueryMethodParser.nextConnector, ands, ors]
  rcases known with rfl | rfl
  · have first := @dropInfix?_first _ _ _ _ [] _ _ (shape _ ▸ plain) left right noAnd
    rw [← shape] at first
    rw [first]
    cases found : (join '_' (before ++ "and".toList :: after)).dropInfix? (token '_' ["or".toList]) with
    | none => rfl
    | some parts =>
      have behind := dropInfix?_behind plain ⟨by simp, by decide⟩ left noOr (by decide) found
      dsimp only
      rw [if_pos behind]
  · have first := @dropInfix?_first _ _ _ _ [] _ _ (shape _ ▸ plain) left right noOr
    rw [← shape] at first
    rw [first]
    cases found : (join '_' (before ++ "or".toList :: after)).dropInfix? (token '_' ["and".toList]) with
    | none => rfl
    | some parts =>
      have behind := dropInfix?_behind plain ⟨by simp, by decide⟩ left noAnd (by decide) found
      dsimp only
      rw [if_neg (by omega)]

theorem nextConnector_none {words : List (List Char)} (plain : Plain '_' words)
    (fresh : ∀ word ∈ words, word ≠ "and".toList ∧ word ≠ "or".toList) :
    QueryMethodParser.nextConnector (join '_' words) = none := by
  have ands : "_and_".toList = token '_' ["and".toList] := by decide
  have ors : "_or_".toList = token '_' ["or".toList] := by decide
  rw [QueryMethodParser.nextConnector, ands, ors,
    dropInfix?_absent plain ⟨by simp, by decide⟩ fun member => (fresh _ member).1 rfl,
    dropInfix?_absent plain ⟨by simp, by decide⟩ fun member => (fresh _ member).2 rfl]

theorem parseSegments_name {predicates : List FieldPredicate} {connectors : List String}
    (counted : connectors.length + 1 = predicates.length)
    (known : ∀ connector ∈ connectors, connector = "and" ∨ connector = "or")
    (fields : ∀ p ∈ predicates, FieldName p.field) :
    QueryMethodParser.parseSegments (predicatesName predicates connectors) = (predicates, connectors) := by
  induction predicates generalizing connectors with
  | nil => cases counted
  | cons p predicates ih =>
    have fresh : ∀ word ∈ p.words, word ≠ "and".toList ∧ word ≠ "or".toList := fun word member =>
      have marks := FieldPredicate.words_fresh (fields p (.head _)) member
      ⟨marks.1, marks.2.1⟩
    rw [predicatesName_join counted known, QueryMethodParser.parseSegments]
    cases connectors with
    | nil =>
      have last : predicates = [] := List.length_eq_zero_iff.mp (Nat.succ.inj counted).symm
      have none_ := nextConnector_none p.words_plain fresh
      split
      · rename_i some_
        rw [predicatesWords, none_] at some_
        cases some_
      · rw [predicatesWords, ← p.name_join, parseSinglePredicate_name (fields p (.head _)), last]
    | cons connector connectors =>
      have rest := Nat.succ.inj counted
      have more : predicates ≠ [] := by
        rintro rfl
        cases rest
      have after := fun connector member => known connector (.tail _ member)
      have first := nextConnector_words (predicatesWords_plain (List.cons_ne_nil p predicates) known)
        p.words_plain.present (predicatesWords_plain more after).present (known _ (.head _)) fresh
      split
      · rename_i found
        rw [predicatesWords, first] at found
        cases found
        rw [← predicatesName_join rest after, ih rest after fun p member => fields p (.tail _ member),
          ← p.name_join, parseSinglePredicate_name (fields p (.head _))]
      · rename_i found
        rw [predicatesWords, first] at found
        cases found

def directionWord : Direction → List Char
  | .asc => "asc".toList
  | .desc => "desc".toList

def clauseWords (clause : OrderClause) : List (List Char) :=
  fieldWords clause.field ++ [directionWord clause.direction]

theorem name_clauseWords (clause : OrderClause) : clause.name = join '_' (clauseWords clause) := by
  rw [clauseWords, join_append (fieldWords_ne _) (by simp), join_fieldWords, OrderClause.name]
  cases clause.direction <;> rfl

theorem clauseWords_plain (clause : OrderClause) : Plain '_' (clauseWords clause) := by
  refine plain_append (plain_splitOn _) ?_
  cases clause.direction <;> decide

theorem parseOrderParts_field {field rest : List (List Char)} (parts : List (List Char))
    (fresh : ∀ word ∈ field, word ≠ "asc".toList ∧ word ≠ "desc".toList) :
    QueryMethodParser.parseOrderParts parts (field ++ rest) =
      QueryMethodParser.parseOrderParts (parts ++ field) rest := by
  induction field generalizing parts with
  | nil => simp
  | cons word field ih =>
    obtain ⟨here, after⟩ := List.forall_mem_cons.mp fresh
    rw [List.cons_append, QueryMethodParser.parseOrderParts, if_neg here.1, if_neg here.2, ih _ after,
      List.append_assoc, List.singleton_append]

theorem fieldName_present {field : String} (named : FieldName field) : field.toList ≠ [] := by
  intro none_
  have empty : fieldWords field = [[]] := by
    rw [fieldWords, none_]
    rfl
  exact (named [] (by simp [empty])).1 rfl

theorem parseOrder_words {clauses : List OrderClause}
    (orders : ∀ clause ∈ clauses, FieldName clause.field) :
    QueryMethodParser.parseOrderParts [] (clauses.map clauseWords).flatten = clauses := by
  induction clauses with
  | nil => rfl
  | cons clause clauses ih =>
    obtain ⟨named, rest⟩ := List.forall_mem_cons.mp orders
    have fresh : ∀ word ∈ fieldWords clause.field, word ≠ "asc".toList ∧ word ≠ "desc".toList := by
      intro word member
      have free := (named word member).2
      constructor <;> rintro rfl <;> exact free (by decide)
    have push (direction : Direction) (after : List OrderClause) :
        QueryMethodParser.pushClause (fieldWords clause.field) direction after =
          ⟨clause.field, direction⟩ :: after := by
      have text : ['_'].intercalate (fieldWords clause.field) = clause.field.toList := join_fieldWords _
      rw [QueryMethodParser.pushClause, text, if_neg (fieldName_present named), String.ofList_toList]
    rw [List.map_cons, List.flatten_cons, clauseWords, List.append_assoc, parseOrderParts_field [] fresh,
      List.nil_append, List.singleton_append, QueryMethodParser.parseOrderParts, ih rest]
    obtain ⟨field, direction⟩ := clause
    cases direction with
    | asc => rw [if_pos (by rfl), push]
    | desc =>
      have other : directionWord .desc ≠ "asc".toList := by decide
      rw [if_neg other, if_pos (by rfl), push]

theorem predicatesWords_fresh {predicates : List FieldPredicate} {connectors : List String}
    (known : ∀ connector ∈ connectors, connector = "and" ∨ connector = "or")
    (fields : ∀ p ∈ predicates, FieldName p.field) :
    "order".toList ∉ predicatesWords predicates connectors := by
  induction predicates generalizing connectors with
  | nil => exact List.not_mem_nil
  | cons p predicates ih =>
    have own : "order".toList ∉ p.words := fun member =>
      (FieldPredicate.words_fresh (fields p (.head _)) member).2.2 rfl
    cases connectors with
    | nil => exact own
    | cons connector connectors =>
      have rest := ih (fun connector member => known connector (.tail _ member))
        fun p member => fields p (.tail _ member)
      have other : "order".toList ≠ connector.toList := by
        rcases known connector (.head _) with rfl | rfl <;> decide
      rw [predicatesWords, List.mem_append, List.mem_cons, not_or, not_or]
      exact ⟨own, other, rest⟩

theorem predicatesName_present {predicates : List FieldPredicate} {connectors : List String}
    (present : predicates ≠ []) (fields : ∀ p ∈ predicates, FieldName p.field) :
    predicatesName predicates connectors ≠ [] := by
  obtain ⟨p, predicates, rfl⟩ := List.exists_cons_of_ne_nil present
  have text := fieldName_present (fields p (.head _))
  cases connectors <;> simp [predicatesName, FieldPredicate.name, text]

theorem orderName_words {clauses : List OrderClause} (present : clauses ≠ []) :
    orderName clauses = QueryMethodParser.orderBy ++ join '_' (clauses.map clauseWords).flatten := by
  have names : clauses.map OrderClause.name = (clauses.map clauseWords).map (join '_') := by
    rw [List.map_map]
    exact List.map_congr_left fun clause _ => name_clauseWords clause
  have words : ∀ run ∈ clauses.map clauseWords, run ≠ [] := by
    intro run member
    obtain ⟨clause, -, rfl⟩ := List.mem_map.mp member
    exact (clauseWords_plain clause).present
  have joined := @join_flatten _ '_' _ words
  rw [← names] at joined
  obtain ⟨clause, clauses, rfl⟩ := List.exists_cons_of_ne_nil present
  rw [orderName, ← joined]
  · rfl
  · simp

theorem orderWords_plain {clauses : List OrderClause} (present : clauses ≠ []) :
    Plain '_' (clauses.map clauseWords).flatten := by
  constructor
  · obtain ⟨clause, clauses, rfl⟩ := List.exists_cons_of_ne_nil present
    exact fun none_ => (clauseWords_plain clause).present (List.append_eq_nil_iff.mp none_).1
  · intro word member
    obtain ⟨run, among, here⟩ := List.mem_flatten.mp member
    obtain ⟨clause, -, rfl⟩ := List.mem_map.mp among
    exact (clauseWords_plain clause).free word here

theorem prefix_methodName (q : ParsedQuery) :
    (QueryMethodParser.prefixes.findSome? fun (text, kind) =>
      (q.methodName.toList.dropPrefix? text.toList).map fun body => (kind, body)) =
        some (q.queryPrefix, predicatesName q.predicates q.connectors ++ orderName q.orderClauses) := by
  rw [methodName, String.toList_ofList]
  cases q.queryPrefix <;> simp [QueryMethodParser.prefixes, QueryPrefix.asStr, List.dropPrefix?]

theorem parse_methodName {q : ParsedQuery} (formed : q.WellFormed) :
    QueryMethodParser.parse q.methodName = .ok q := by
  have plain := predicatesWords_plain formed.present formed.connectors
  have fresh := predicatesWords_fresh formed.connectors formed.fields
  have name := predicatesName_join formed.counted formed.connectors
  have text := @predicatesName_present _ q.connectors formed.present formed.fields
  have predicates : QueryMethodParser.parsePredicates (predicatesName q.predicates q.connectors) =
      (q.predicates, q.connectors) := by
    rw [QueryMethodParser.parsePredicates, if_neg text,
      parseSegments_name formed.counted formed.connectors formed.fields]
  have orderBy : QueryMethodParser.orderBy = token '_' ["order".toList, "by".toList] := by decide
  rw [QueryMethodParser.parse, prefix_methodName]
  dsimp only
  by_cases none_ : q.orderClauses = []
  · have absent := @dropInfix?_absent _ _ _ ["by".toList] _ _ plain ⟨by simp, by decide⟩ fresh
    rw [none_, orderName, List.append_nil, orderBy, name, absent, ← name]
    dsimp only
    rw [predicates, ← none_]
  · have clauses := orderWords_plain none_
    have own : ∀ word ∈ ["order".toList, "by".toList], '_' ∉ word := by decide
    have whole : Plain '_' (predicatesWords q.predicates q.connectors ++
        ["order".toList, "by".toList] ++ (q.orderClauses.map clauseWords).flatten) :=
      plain_append (plain_append plain own) clauses.free
    have first := dropInfix?_first whole plain.present clauses.present fresh
    rw [join_token plain.present ⟨by simp, own⟩ clauses.present, ← name, ← orderBy] at first
    rw [orderName_words none_, ← List.append_assoc, first]
    dsimp only
    rw [predicates, QueryMethodParser.parseOrder, splitOn_join clauses, parseOrder_words formed.orders]

end ParsedQuery

end Firefly.Data
