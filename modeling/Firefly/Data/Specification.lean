import Firefly.Data.Filter
import Firefly.Data.JsonOrder

set_option autoImplicit false

namespace Firefly.Data

open Json (Value)

inductive Specification where
  | all
  | pred (p : Predicate)
  | and (children : List Specification)
  | or (children : List Specification)
  | not (inner : Specification)
deriving Repr

namespace Specification

@[elab_as_elim]
theorem induct {P : Specification → Prop} (all : P .all) (pred : ∀ p, P (.pred p))
    (and : ∀ children, (∀ child ∈ children, P child) → P (.and children))
    (or : ∀ children, (∀ child ∈ children, P child) → P (.or children))
    (not : ∀ inner, P inner → P (.not inner)) (spec : Specification) : P spec :=
  @Specification.rec P (fun children => ∀ child ∈ children, P child) all pred and or not (by simp)
    (fun child children here rest => by simpa using ⟨here, rest⟩) spec

def andSpec : Specification → Specification → Specification
  | .all, rhs => rhs
  | lhs, .all => lhs
  | .and a, .and b => .and (a ++ b)
  | .and a, rhs => .and (a ++ [rhs])
  | lhs, .and b => .and (lhs :: b)
  | lhs, rhs => .and [lhs, rhs]

def orSpec : Specification → Specification → Specification
  | .all, rhs => rhs
  | lhs, .all => lhs
  | .or a, .or b => .or (a ++ b)
  | .or a, rhs => .or (a ++ [rhs])
  | lhs, .or b => .or (lhs :: b)
  | lhs, rhs => .or [lhs, rhs]

def notSpec : Specification → Specification
  | .all => .all
  | .not inner => inner
  | other => .not other

inductive Built : Specification → Prop where
  | pred (p : Predicate) : Built (.pred p)
  | and {lhs rhs : Specification} (left : Built lhs) (right : Built rhs) : Built (lhs.andSpec rhs)
  | or {lhs rhs : Specification} (left : Built lhs) (right : Built rhs) : Built (lhs.orSpec rhs)
  | not {inner : Specification} (built : Built inner) : Built inner.notSpec

inductive Solid : Specification → Prop where
  | pred (p : Predicate) : Solid (.pred p)
  | and {children : List Specification} (some : children ≠ [])
    (solid : ∀ child ∈ children, Solid child) : Solid (.and children)
  | or {children : List Specification} (some : children ≠ [])
    (solid : ∀ child ∈ children, Solid child) : Solid (.or children)
  | not {inner : Specification} (solid : Solid inner) : Solid (.not inner)

mutual

def signed : Bool → Specification → List (Bool × Predicate)
  | _, .all => []
  | sign, .pred p => [(sign, p)]
  | sign, .and children => signedOf sign children
  | sign, .or children => signedOf sign children
  | sign, .not inner => signed (!sign) inner

def signedOf : Bool → List Specification → List (Bool × Predicate)
  | _, [] => []
  | sign, child :: children => signed sign child ++ signedOf sign children

end

theorem Solid.append {a b : List Specification} (left : ∀ child ∈ a, Solid child)
    (right : ∀ child ∈ b, Solid child) : ∀ child ∈ a ++ b, Solid child := by
  intro child inside
  exact (List.mem_append.mp inside).elim (left child) (right child)

theorem Built.solid {spec : Specification} (built : Built spec) : Solid spec := by
  induction built with
  | pred p => exact .pred p
  | @and lhs rhs _ _ left right =>
    fun_cases andSpec lhs rhs with
    | case1 => exact right
    | case2 => exact left
    | case3 a b =>
      cases left with | and some each =>
      cases right with | and _ later =>
      exact .and (by simp [some]) (Solid.append each later)
    | case4 a rhs =>
      cases left with | and _ each =>
      exact .and (by simp) (Solid.append each (by simpa using right))
    | case5 lhs b =>
      cases right with | and _ later =>
      exact .and (by simp) (List.forall_mem_cons.mpr ⟨left, later⟩)
    | case6 lhs rhs => exact .and (by simp) (by simp [left, right])
  | @or lhs rhs _ _ left right =>
    fun_cases orSpec lhs rhs with
    | case1 => exact right
    | case2 => exact left
    | case3 a b =>
      cases left with | or some each =>
      cases right with | or _ later =>
      exact .or (by simp [some]) (Solid.append each later)
    | case4 a rhs =>
      cases left with | or _ each =>
      exact .or (by simp) (Solid.append each (by simpa using right))
    | case5 lhs b =>
      cases right with | or _ later =>
      exact .or (by simp) (List.forall_mem_cons.mpr ⟨left, later⟩)
    | case6 lhs rhs => exact .or (by simp) (by simp [left, right])
  | @not inner _ solid =>
    fun_cases notSpec inner with
    | case1 => exact solid
    | case2 inner =>
      cases solid with | not solid =>
      exact solid
    | case3 => exact .not solid

def joined (joiner : String) (parts : List String) : String :=
  match parts with
  | [] => ""
  | [part] => part
  | parts => "(" ++ (" " ++ joiner ++ " ").intercalate parts ++ ")"

mutual

def render (dialect : Dialect) : Specification → Binding → String × Binding
  | .all, binding => ("", binding)
  | .pred p, binding => renderPredicateSql dialect p binding
  | .and children, binding =>
    let (parts, binding) := renderParts dialect children binding
    (joined "AND" parts, binding)
  | .or children, binding =>
    let (parts, binding) := renderParts dialect children binding
    (joined "OR" parts, binding)
  | .not inner, binding =>
    let (sql, binding) := render dialect inner binding
    (if sql = "" then "" else "NOT " ++ sql, binding)

def renderParts (dialect : Dialect) : List Specification → Binding → List String × Binding
  | [], binding => ([], binding)
  | child :: children, binding =>
    let (sql, binding) := render dialect child binding
    let (parts, binding) := renderParts dialect children binding
    (if sql = "" then parts else sql :: parts, binding)

end

def toSqlWith (dialect : Dialect) (spec : Specification) : String × List Value :=
  let (sql, binding) := render dialect spec {}
  (sql, binding.args)

end Specification

-- `json_cmp`: values of different types are in no order.
def jsonCmp : Value → Value → Option Ordering
  | .number x, .number y => some (compare x.asF64 y.asF64)
  | .string x, .string y => some (compare x y)
  | _, _ => none

-- The pattern, then the text.
def likeMatchChars : List Char → List Char → Bool
  | [], text => text.isEmpty
  | c :: rest, text =>
    if c = '%' then text.tails.any (likeMatchChars rest)
    else
      match text with
      | [] => false
      | first :: text => (c = '_' || first = c) && likeMatchChars rest text

-- `lower` is `str::to_lowercase`.
def likeMatch (lower : String → String) (actual pattern : Value) (caseInsensitive : Bool) : Bool :=
  match actual, pattern with
  | .string text, .string pat =>
    if caseInsensitive then likeMatchChars (lower pat).toList (lower text).toList
    else likeMatchChars pat.toList text.toList
  | _, _ => false

def evalPredicate (lower : String → String) (p : Predicate) (row : Value) : Bool :=
  let actual := row.field p.field
  match p.op with
  | .eq => actual = p.value
  | .ne => actual ≠ p.value
  | .lt => ((jsonCmp actual p.value).map Ordering.isLT).getD false
  | .lte => ((jsonCmp actual p.value).map Ordering.isLE).getD false
  | .gt => ((jsonCmp actual p.value).map Ordering.isGT).getD false
  | .gte => ((jsonCmp actual p.value).map Ordering.isGE).getD false
  | .like => likeMatch lower actual p.value false
  | .iLike => likeMatch lower actual p.value true
  | .isIn =>
    match p.value with
    | .array items => items.contains actual
    | _ => false
  | .isNil => actual = .null

namespace Specification

mutual

def eval (lower : String → String) : Specification → Value → Bool
  | .all, _ => true
  | .pred p, row => evalPredicate lower p row
  | .and children, row => evalAll lower children row
  | .or children, row => evalAny lower children row
  | .not inner, row => !eval lower inner row

def evalAll (lower : String → String) : List Specification → Value → Bool
  | [], _ => true
  | child :: children, row => eval lower child row && evalAll lower children row

def evalAny (lower : String → String) : List Specification → Value → Bool
  | [], _ => false
  | child :: children, row => eval lower child row || evalAny lower children row

end

-- The argument is what the entity serialises to, if it does.
def «matches» (lower : String → String) (spec : Specification) : Option Value → Bool
  | some (.object fields) => spec.eval lower (.object fields)
  | _ => false

end Specification

end Firefly.Data
