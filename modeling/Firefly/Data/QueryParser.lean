import Firefly.Data.Specification
import Firefly.Shared.Words

set_option autoImplicit false

namespace Firefly.Data

open Json (Value)

inductive QueryPrefix where
  | find
  | count
  | «exists»
  | delete
deriving DecidableEq, Repr

inductive QueryOperator where
  | eq
  | not
  | gt
  | lt
  | gte
  | lte
  | between
  | like
  | containing
  | isIn
  | isNull
  | isNotNull
deriving DecidableEq, Repr

structure FieldPredicate where
  field : String
  operator : QueryOperator
deriving DecidableEq, Repr

structure OrderClause where
  field : String
  direction : Direction
deriving DecidableEq, Repr

structure ParsedQuery where
  queryPrefix : QueryPrefix
  predicates : List FieldPredicate
  connectors : List String
  orderClauses : List OrderClause
deriving DecidableEq, Repr

inductive QueryParseError where
  | unknownPrefix (methodName : String)
deriving DecidableEq, Repr

inductive QueryBindError where
  | argumentCount (expected got : Nat)
deriving DecidableEq, Repr

namespace QueryMethodParser

-- `OPERATORS`, the longer suffixes first.
def operators : List (String × QueryOperator) :=
  [("_greater_than_equal", .gte), ("_less_than_equal", .lte), ("_greater_than", .gt), ("_less_than", .lt),
    ("_is_not_null", .isNotNull), ("_is_null", .isNull), ("_containing", .containing),
    ("_between", .between), ("_not", .not), ("_like", .like), ("_in", .isIn)]

def prefixes : List (String × QueryPrefix) :=
  [("find_by_", .find), ("count_by_", .count), ("exists_by_", .exists), ("delete_by_", .delete)]

def orderBy : List Char := "_order_by_".toList

-- A clause without a field is left out.
def pushClause (fieldParts : List (List Char)) (direction : Direction) (rest : List OrderClause) :
    List OrderClause :=
  let field := ['_'].intercalate fieldParts
  if field = [] then rest else ⟨String.ofList field, direction⟩ :: rest

-- The loop of `parse_order` over the parts; `fieldParts` are those since the last direction.
def parseOrderParts (fieldParts : List (List Char)) : List (List Char) → List OrderClause
  | [] => pushClause fieldParts .asc []
  | part :: parts =>
    if part = "asc".toList then pushClause fieldParts .asc (parseOrderParts [] parts)
    else if part = "desc".toList then pushClause fieldParts .desc (parseOrderParts [] parts)
    else parseOrderParts (fieldParts ++ [part]) parts

def parseOrder (orderBody : List Char) : List OrderClause := parseOrderParts [] (orderBody.splitOn '_')

def parseSinglePredicate (segment : List Char) : FieldPredicate :=
  let stripped := operators.findSome? fun (suffix, operator) =>
    (segment.dropSuffix? suffix.toList).map fun field => ⟨String.ofList field, operator⟩
  stripped.getD ⟨String.ofList segment, .eq⟩

def nextConnector (rest : List Char) : Option (List Char × String × List Char) :=
  match rest.dropInfix? "_and_".toList, rest.dropInfix? "_or_".toList with
  | some (a, afterAnd), some (o, afterOr) =>
    if a.length < o.length then some (a, "and", afterAnd) else some (o, "or", afterOr)
  | some (a, afterAnd), none => some (a, "and", afterAnd)
  | none, some (o, afterOr) => some (o, "or", afterOr)
  | none, none => none

theorem dropInfix?_shorter {text token before after : List Char} (present : token ≠ [])
    (found : text.dropInfix? token = some (before, after)) : after.length < text.length := by
  obtain ⟨⟨run, rfl, equal⟩, -⟩ := List.dropInfix?_eq_some_iff.mp found
  obtain rfl := eq_of_beq equal
  have long := List.length_pos_of_ne_nil present
  simp only [List.length_append]
  omega

theorem nextConnector_shorter {rest before after : List Char} {connector : String}
    (found : nextConnector rest = some (before, connector, after)) : after.length < rest.length := by
  rw [nextConnector] at found
  split at found
  · rename_i and_ or_
    split at found <;> cases found
    · exact dropInfix?_shorter (by decide) and_
    · exact dropInfix?_shorter (by decide) or_
  · rename_i and_ _
    cases found
    exact dropInfix?_shorter (by decide) and_
  · rename_i _ or_
    cases found
    exact dropInfix?_shorter (by decide) or_
  · cases found

-- The loop of `parse_predicates`.
def parseSegments (rest : List Char) : List FieldPredicate × List String :=
  match _found : nextConnector rest with
  | some (segment, connector, after) =>
    let (predicates, connectors) := parseSegments after
    (parseSinglePredicate segment :: predicates, connector :: connectors)
  | none => ([parseSinglePredicate rest], [])
termination_by rest.length
decreasing_by exact nextConnector_shorter _found

def parsePredicates (body : List Char) : List FieldPredicate × List String :=
  if body = [] then ([], []) else parseSegments body

def parse (methodName : String) : Except QueryParseError ParsedQuery :=
  let split := prefixes.findSome? fun (text, kind) =>
    (methodName.toList.dropPrefix? text.toList).map fun body => (kind, body)
  match split with
  | none => .error (.unknownPrefix methodName)
  | some (kind, body) =>
    let (body, orderClauses) :=
      match body.dropInfix? orderBy with
      | some (body, orderBody) => (body, parseOrder orderBody)
      | none => (body, [])
    let (predicates, connectors) := parsePredicates body
    .ok ⟨kind, predicates, connectors, orderClauses⟩

end QueryMethodParser

def QueryOperator.arity : QueryOperator → Nat
  | .isNull | .isNotNull => 0
  | .between => 2
  | _ => 1

namespace ParsedQuery

def argCount (q : ParsedQuery) : Nat := (q.predicates.map fun p => p.operator.arity).sum

def take1 (field : String) (op : Op) (args : List Value) (idx : Nat) : Specification × Nat :=
  (.pred ⟨field, op, args[idx]?.getD .null⟩, idx + 1)

def containingPattern : Value → Value
  | .string s => .string ("%" ++ s ++ "%")
  | other => other

-- The second part of the result is the index of the next argument.
def predicateToSpec (p : FieldPredicate) (args : List Value) (idx : Nat) : Specification × Nat :=
  match p.operator with
  | .eq => take1 p.field .eq args idx
  | .not => take1 p.field .ne args idx
  | .gt => take1 p.field .gt args idx
  | .lt => take1 p.field .lt args idx
  | .gte => take1 p.field .gte args idx
  | .lte => take1 p.field .lte args idx
  | .like => take1 p.field .like args idx
  | .isIn => take1 p.field .isIn args idx
  | .containing => (.pred ⟨p.field, .like, containingPattern (args[idx]?.getD .null)⟩, idx + 1)
  | .between =>
    (Specification.andSpec (.pred ⟨p.field, .gte, args[idx]?.getD .null⟩)
      (.pred ⟨p.field, .lte, args[idx + 1]?.getD .null⟩), idx + 2)
  | .isNull => (.pred (.isNil p.field), idx)
  | .isNotNull => (Specification.notSpec (.pred (.isNil p.field)), idx)

def predicateSpecs (args : List Value) : (idx : Nat) → List FieldPredicate → List Specification
  | _, [] => []
  | idx, p :: predicates =>
    let (spec, idx) := predicateToSpec p args idx
    spec :: predicateSpecs args idx predicates

def connect (acc : Specification) : String × Specification → Specification
  | (connector, spec) => if connector = "or" then acc.orSpec spec else acc.andSpec spec

def toSpecification (q : ParsedQuery) (args : List Value) : Except QueryBindError Specification :=
  if args.length ≠ q.argCount then .error (.argumentCount q.argCount args.length)
  else
    match predicateSpecs args 0 q.predicates with
    | [] => .ok .all
    | first :: rest => .ok ((q.connectors.zip rest).foldl connect first)

end ParsedQuery

end Firefly.Data
