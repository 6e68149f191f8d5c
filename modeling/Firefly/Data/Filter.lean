import Firefly.Shared.Decimal
import Firefly.Shared.Json
import Firefly.Shared.Usize

set_option autoImplicit false

namespace Firefly.Data

open Json (Value)

inductive Op where
  | eq
  | ne
  | lt
  | lte
  | gt
  | gte
  | like
  | iLike
  | isIn
  | isNil
deriving DecidableEq, Repr

structure Predicate where
  field : String
  op : Op
  value : Value
deriving DecidableEq, Repr

def Predicate.isNil (field : String) : Predicate := ⟨field, .isNil, .null⟩

inductive Dialect where
  | postgres
  | mySql
  | sqlite
deriving DecidableEq, Repr

namespace Dialect

def placeholder : Dialect → Nat → String
  | .postgres, n => String.ofList ('$' :: Decimal.digits n)
  | .mySql, _ | .sqlite, _ => "?"

def quote : Dialect → Char
  | .postgres | .sqlite => '"'
  | .mySql => Char.ofNat 96

-- `id.replace(quote, quote quote)`.
def escapeQuote (quote : Char) (id : List Char) : List Char :=
  id.flatMap fun c => if c = quote then [quote, quote] else [c]

def quoteIdent (dialect : Dialect) (id : String) : String :=
  String.ofList (dialect.quote :: escapeQuote dialect.quote id.toList ++ [dialect.quote])

def renderInExpanded (dialect : Dialect) (field : String) (start args : Nat) : String :=
  field ++ " IN (" ++
    ", ".intercalate ((List.range args).map fun i => dialect.placeholder (start + i)) ++ ")"

def renderIn : Dialect → String → Nat → Nat → String
  | .postgres, field, start, _ => field ++ " = ANY(" ++ Dialect.postgres.placeholder start ++ ")"
  | dialect, field, start, args => renderInExpanded dialect field start args

def inArgCount : Dialect → Nat → Nat
  | .postgres, _ => 1
  | _, args => args

def expandsInList : Dialect → Bool
  | .postgres => false
  | _ => true

def ilike : Dialect → String → String → String
  | .postgres, field, placeholder => field ++ " ILIKE " ++ placeholder
  | _, field, placeholder => "LOWER(" ++ field ++ ") LIKE LOWER(" ++ placeholder ++ ")"

end Dialect

/-- The arguments bound so far, and the number of the next placeholder. -/
structure Binding where
  args : List Value := []
  idx : Nat := 1
deriving DecidableEq, Repr

namespace Binding

def push (binding : Binding) (value : Value) : Binding :=
  { args := binding.args ++ [value], idx := binding.idx + 1 }

end Binding

def renderCompared (sign : String) (dialect : Dialect) (p : Predicate) (binding : Binding) :
    String × Binding :=
  (dialect.quoteIdent p.field ++ " " ++ sign ++ " " ++ dialect.placeholder binding.idx,
    binding.push p.value)

def renderPredicateSql (dialect : Dialect) (p : Predicate) (binding : Binding) :
    String × Binding :=
  let fieldQ := dialect.quoteIdent p.field
  match p.op with
  | .eq => renderCompared "=" dialect p binding
  | .ne => renderCompared "<>" dialect p binding
  | .lt => renderCompared "<" dialect p binding
  | .lte => renderCompared "<=" dialect p binding
  | .gt => renderCompared ">" dialect p binding
  | .gte => renderCompared ">=" dialect p binding
  | .like => renderCompared "LIKE" dialect p binding
  | .iLike => (dialect.ilike fieldQ (dialect.placeholder binding.idx), binding.push p.value)
  | .isIn =>
    let nArgs := match p.value with
      | .array items => items.length
      | _ => 1
    let clause := dialect.renderIn fieldQ binding.idx nArgs
    let bound :=
      -- The array dialect binds the whole list as one parameter.
      if dialect.expandsInList then
        match p.value with
        | .array items => items
        | other => [other]
      else [p.value]
    (clause, { args := binding.args ++ bound, idx := binding.idx + dialect.inArgCount nArgs })
  | .isNil => (fieldQ ++ " IS NULL", binding)

inductive Direction where
  | asc
  | desc
deriving DecidableEq, Repr

/-- `Sort` of the filter DSL. -/
structure SortClause where
  field : String
  direction : Direction
deriving DecidableEq, Repr

/-- The predicates are joined by AND. The page is counted from 0, and a size of 0 turns paging off. -/
structure Filter where
  predicates : List Predicate := []
  sorts : List SortClause := []
  page : Usize := 0
  size : Usize := 0
deriving DecidableEq

def renderPredicates (dialect : Dialect) : List Predicate → Binding → List String × Binding
  | [], binding => ([], binding)
  | p :: rest, binding =>
    let (part, binding) := renderPredicateSql dialect p binding
    let (parts, binding) := renderPredicates dialect rest binding
    (part :: parts, binding)

def SortClause.render (dialect : Dialect) (sort : SortClause) : String :=
  dialect.quoteIdent sort.field ++ " " ++
    match sort.direction with
    | .asc => "ASC"
    | .desc => "DESC"

def orderBy (dialect : Dialect) : List SortClause → String
  | [] => ""
  | sorts => " ORDER BY " ++ ", ".intercalate (sorts.map (SortClause.render dialect))

def limitOffset (limit offset : Nat) : String :=
  " LIMIT " ++ String.ofList (Decimal.digits limit) ++
    " OFFSET " ++ String.ofList (Decimal.digits offset)

-- `none` is the panic of a debug build on `page * size`.
def Filter.toSqlWith (filter : Filter) (build : Build) (dialect : Dialect) :
    Option (String × List Value) := do
  let (parts, binding) := renderPredicates dialect filter.predicates {}
  let whereSql := if parts = [] then "" else " WHERE " ++ " AND ".intercalate parts
  let window ←
    if 0 < filter.size then
      (Usize.mul build filter.page filter.size).map fun offset =>
        limitOffset filter.size.toNat offset.toNat
    else some ""
  return (whereSql ++ orderBy dialect filter.sorts ++ window, binding.args)

end Firefly.Data
