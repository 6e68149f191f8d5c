import Firefly.Orchestration.Condition

set_option autoImplicit false

namespace Firefly.Orchestration.Condition

open Json

inductive Expr where
  | literal (l : Literal)
  | index (ns : Namespace) (key : String)
  | input
  | group (inner : Expr)
  | field (of : Expr) (name : String)
  | compare (left : Expr) (op : CompareOp) (right : Expr)
  | member (left right : Expr)
  | notMember (left right : Expr)
  | not (operand : Expr)
  | and (left right : Expr)
  | or (left right : Expr)
deriving DecidableEq, Repr

def Expr.denote (ctx : StepContext) : Expr → Value
  | .literal l => l.value
  | .index ns key => lookup ctx ns key
  | .input => ctx.input
  | .group inner => inner.denote ctx
  | .field of name => fieldOf (of.denote ctx) name
  | .compare left op right => .bool (compareValues (left.denote ctx) op (right.denote ctx))
  | .member left right => .bool (contains (right.denote ctx) (left.denote ctx))
  | .notMember left right => .bool !contains (right.denote ctx) (left.denote ctx)
  | .not operand => .bool !truthy (operand.denote ctx)
  | .and left right => .bool (truthy (left.denote ctx) && truthy (right.denote ctx))
  | .or left right => .bool (truthy (left.denote ctx) || truthy (right.denote ctx))

def Literal.tok : Literal → Tok
  | .str s => .str s
  | .num n => .num n
  | .bool b => .bool b
  | .null => .null

inductive Level where
  | or
  | and
  | not
  | cmp
  | operand

inductive Derives : Level → Expr → List Tok → Prop
  | literal (l : Literal) : Derives .operand (.literal l) [l.tok]
  | index {name : String} {ns : Namespace} (named : Namespace.ofName name = some ns) (key : String) :
      Derives .operand (.index ns key) [.ident name, .lbracket, .str key, .rbracket]
  | input : Derives .operand .input [.ident "input"]
  | group {e : Expr} {tokens : List Tok} (inner : Derives .or e tokens) :
      Derives .operand (.group e) (.lparen :: (tokens ++ [.rparen]))
  | field {e : Expr} {tokens : List Tok} (of : Derives .operand e tokens) (name : String) :
      Derives .operand (.field e name) (tokens ++ [.dot, .ident name])
  | operand {e : Expr} {tokens : List Tok} (only : Derives .operand e tokens) : Derives .cmp e tokens
  | compare {e e' : Expr} {tokens tokens' : List Tok} (left : Derives .operand e tokens)
      (op : CompareOp) (right : Derives .operand e' tokens') :
      Derives .cmp (.compare e op e') (tokens ++ .op op :: tokens')
  | member {e e' : Expr} {tokens tokens' : List Tok} (left : Derives .operand e tokens)
      (right : Derives .operand e' tokens') : Derives .cmp (.member e e') (tokens ++ .in :: tokens')
  | notMember {e e' : Expr} {tokens tokens' : List Tok} (left : Derives .operand e tokens)
      (right : Derives .operand e' tokens') :
      Derives .cmp (.notMember e e') (tokens ++ .not :: .in :: tokens')
  | comparison {e : Expr} {tokens : List Tok} (only : Derives .cmp e tokens) : Derives .not e tokens
  | not {e : Expr} {tokens : List Tok} (operand : Derives .not e tokens) :
      Derives .not (.not e) (.not :: tokens)
  | negation {e : Expr} {tokens : List Tok} (only : Derives .not e tokens) : Derives .and e tokens
  | and {e e' : Expr} {tokens tokens' : List Tok} (first : Derives .and e tokens)
      (last : Derives .not e' tokens') : Derives .and (.and e e') (tokens ++ .and :: tokens')
  | conjunction {e : Expr} {tokens : List Tok} (only : Derives .and e tokens) : Derives .or e tokens
  | or {e e' : Expr} {tokens tokens' : List Tok} (first : Derives .or e tokens)
      (last : Derives .and e' tokens') : Derives .or (.or e e') (tokens ++ .or :: tokens')

section Fold

variable {α : Type}

def Expr.fold (actions : Actions α) : Expr → α
  | .literal l => actions.literal l
  | .index ns key => actions.index ns key
  | .input => actions.input
  | .group inner => actions.group (inner.fold actions)
  | .field of name => actions.field (of.fold actions) name
  | .compare left op right => actions.compare (left.fold actions) op (right.fold actions)
  | .member left right => actions.member (left.fold actions) (right.fold actions)
  | .notMember left right => actions.notMember (left.fold actions) (right.fold actions)
  | .not operand => actions.not (operand.fold actions)
  | .and left right => actions.and (left.fold actions) (right.fold actions)
  | .or left right => actions.or (left.fold actions) (right.fold actions)

def building : Actions Expr where
  literal := .literal
  index := .index
  input := .input
  group := .group
  field := .field
  compare := .compare
  member := .member
  notMember := .notMember
  not := .not
  and := .and
  or := .or

@[simp] theorem Expr.fold_building (e : Expr) : e.fold building = e := by
  induction e <;> simp_all [Expr.fold, building]

theorem Expr.fold_evaluating (ctx : StepContext) (e : Expr) :
    e.fold (evaluating ctx) = e.denote ctx := by
  induction e <;> simp_all [Expr.fold, Expr.denote, evaluating]

end Fold

theorem Derives.ne_nil {level : Level} {e : Expr} {tokens : List Tok}
    (derives : Derives level e tokens) : tokens ≠ [] := by
  induction derives <;> simp_all

section Sound

variable {α : Type} {actions : Actions α}

def Reads (actions : Actions α) (level : Level) (tokens : List Tok)
    (result : Except ConditionError (α × List Tok)) : Prop :=
  ∀ value rest, result = .ok (value, rest) → ∃ e taken, tokens = taken ++ rest ∧
    Derives level e taken ∧ value = e.fold actions

def Extends (actions : Actions α) (level : Level) (before tokens : List Tok)
    (result : Except ConditionError (α × List Tok)) : Prop :=
  ∀ value rest, result = .ok (value, rest) → ∃ e taken, tokens = taken ++ rest ∧
    Derives level e (before ++ taken) ∧ value = e.fold actions

theorem Extends.stop {level : Level} {before tokens : List Tok} {e : Expr}
    (derives : Derives level e before) :
    Extends actions level before tokens (.ok (e.fold actions, tokens)) := by
  intro value rest found
  obtain ⟨rfl, rfl⟩ := Prod.mk.inj (Except.ok.inj found)
  exact ⟨e, [], rfl, by simpa using derives, rfl⟩

theorem Extends.reads {level : Level} {before tokens : List Tok}
    {result : Except ConditionError (α × List Tok)} (ends : Extends actions level before tokens result) :
    Reads actions level (before ++ tokens) result := by
  intro value rest found
  obtain ⟨e, taken, rfl, derives, same⟩ := ends value rest found
  exact ⟨e, before ++ taken, by simp, derives, same⟩

theorem Extends.more {level : Level} {before tokens : List Tok} (further : List Tok)
    {result : Except ConditionError (α × List Tok)}
    (ends : Extends actions level (before ++ further) tokens result) :
    Extends actions level before (further ++ tokens) result := by
  intro value rest found
  obtain ⟨e, taken, rfl, derives, same⟩ := ends value rest found
  exact ⟨e, further ++ taken, by simp, by simpa using derives, same⟩

theorem bind_ok {β γ : Type} {x : Except ConditionError β} {f : β → Except ConditionError γ} {c : γ}
    (found : (x >>= f) = .ok c) : ∃ b, x = .ok b ∧ f b = .ok c := by
  cases x with
  | error e => cases found
  | ok b => exact ⟨b, rfl, found⟩

theorem parseFieldAccessors_extends {e : Expr} {before : List Tok} (tokens : List Tok)
    (derives : Derives .operand e before) :
    Extends actions .operand before tokens
      (parseFieldAccessors actions (e.fold actions) tokens) := by
  generalize start : e.fold actions = value
  fun_induction parseFieldAccessors actions value tokens generalizing e before with
  | case1 value field rest ih =>
    subst start
    have further := ih (derives.field field) rfl
    exact further.more [.dot, .ident field]
  | case2 value rest unnamed =>
    intro value' rest' found
    cases found
  | case3 value rest =>
    subst start
    exact Extends.stop derives

theorem parseLookup_reads (name : String) (tokens : List Tok) :
    ∀ value rest, parseLookup actions name tokens = .ok (value, rest) →
      ∃ e taken, .ident name :: tokens = taken ++ rest ∧ Derives .operand e taken ∧
        value = e.fold actions := by
  intro value rest found
  unfold parseLookup at found
  split at found
  next key after =>
    split at found
    next ns named =>
      obtain ⟨rfl, rfl⟩ := Prod.mk.inj (Except.ok.inj found)
      exact ⟨.index ns key, _, by simp, .index named key, rfl⟩
    next => cases found
  next => cases found
  next => cases found
  next =>
    split at found
    next same =>
      obtain ⟨rfl, rfl⟩ := Prod.mk.inj (Except.ok.inj found)
      subst same
      exact ⟨.input, [.ident "input"], rfl, .input, rfl⟩
    next => cases found

structure Sound (actions : Actions α) (fuel : Nat) : Prop where
  or : ∀ tokens, Reads actions .or tokens (parseOr actions fuel tokens)
  orRest : ∀ e before tokens, Derives .or e before →
    Extends actions .or before tokens (parseOrRest actions fuel (e.fold actions) tokens)
  and : ∀ tokens, Reads actions .and tokens (parseAnd actions fuel tokens)
  andRest : ∀ e before tokens, Derives .and e before →
    Extends actions .and before tokens (parseAndRest actions fuel (e.fold actions) tokens)
  not : ∀ tokens, Reads actions .not tokens (parseNot actions fuel tokens)
  cmp : ∀ tokens, Reads actions .cmp tokens (parseComparison actions fuel tokens)
  operand : ∀ tokens, Reads actions .operand tokens (parseOperand actions fuel tokens)

theorem sound (actions : Actions α) (fuel : Nat) : Sound actions fuel := by
  induction fuel with
  | zero =>
    constructor
    case orRest | andRest =>
      intro e before tokens derives value rest found
      cases found
    all_goals
      intro tokens value rest found
      cases found
  | succ fuel ih =>
    refine ⟨?or, ?orRest, ?and, ?andRest, ?not, ?cmp, ?operand⟩
    case or =>
      intro tokens value rest found
      obtain ⟨⟨left, middle⟩, first, loop⟩ := bind_ok found
      obtain ⟨e, taken, rfl, derives, rfl⟩ := ih.and tokens left middle first
      exact (ih.orRest e taken middle derives.conjunction).reads value rest loop
    case orRest =>
      intro e before tokens derives
      rw [parseOrRest.eq_def]
      split
      next spent => cases spent
      next later after spent =>
        cases spent
        intro value rest found
        obtain ⟨⟨right, middle⟩, operand, loop⟩ := bind_ok found
        obtain ⟨e', taken, rfl, derives', rfl⟩ := ih.and after right middle operand
        have further := ih.orRest (.or e e') (before ++ .or :: taken) middle (derives.or derives')
        exact Extends.more (.or :: taken) further value rest loop
      next => exact Extends.stop derives
    case and =>
      intro tokens value rest found
      obtain ⟨⟨left, middle⟩, first, loop⟩ := bind_ok found
      obtain ⟨e, taken, rfl, derives, rfl⟩ := ih.not tokens left middle first
      exact (ih.andRest e taken middle derives.negation).reads value rest loop
    case andRest =>
      intro e before tokens derives
      rw [parseAndRest.eq_def]
      split
      next spent => cases spent
      next later after spent =>
        cases spent
        intro value rest found
        obtain ⟨⟨right, middle⟩, operand, loop⟩ := bind_ok found
        obtain ⟨e', taken, rfl, derives', rfl⟩ := ih.not after right middle operand
        have further := ih.andRest (.and e e') (before ++ .and :: taken) middle (derives.and derives')
        exact Extends.more (.and :: taken) further value rest loop
      next => exact Extends.stop derives
    case not =>
      intro tokens value rest found
      rw [parseNot.eq_def] at found
      split at found
      next spent => cases spent
      next later after spent =>
        cases spent
        obtain ⟨⟨inner, middle⟩, operand, same⟩ := bind_ok found
        obtain ⟨e, taken, rfl, derives, rfl⟩ := ih.not after inner middle operand
        cases same
        exact ⟨.not e, .not :: taken, rfl, derives.not, rfl⟩
      next later spent plain =>
        cases spent
        obtain ⟨e, taken, split, derives, same⟩ := ih.cmp _ value rest found
        exact ⟨e, taken, split, derives.comparison, same⟩
    case cmp =>
      intro tokens value rest found
      obtain ⟨⟨left, middle⟩, first, second⟩ := bind_ok found
      obtain ⟨e, taken, rfl, derives, rfl⟩ := ih.operand tokens left middle first
      dsimp only at second
      split at second
      next op after =>
        obtain ⟨⟨right, last⟩, operand, same⟩ := bind_ok second
        obtain ⟨e', taken', rfl, derives', rfl⟩ := ih.operand after right last operand
        cases same
        exact ⟨.compare e op e', taken ++ .op op :: taken', by simp, derives.compare op derives', rfl⟩
      next after =>
        obtain ⟨⟨right, last⟩, operand, same⟩ := bind_ok second
        obtain ⟨e', taken', rfl, derives', rfl⟩ := ih.operand after right last operand
        cases same
        exact ⟨.member e e', taken ++ .in :: taken', by simp, derives.member derives', rfl⟩
      next after =>
        obtain ⟨⟨right, last⟩, operand, same⟩ := bind_ok second
        obtain ⟨e', taken', rfl, derives', rfl⟩ := ih.operand after right last operand
        cases same
        exact ⟨.notMember e e', taken ++ .not :: .in :: taken', by simp, derives.notMember derives', rfl⟩
      next => cases second
      next =>
        cases second
        exact ⟨e, taken, rfl, derives.operand, rfl⟩
    case operand =>
      intro tokens value rest found
      -- a literal is followed by its accessors
      have literal (l : Literal) (after : List Tok)
          (ends : parseFieldAccessors actions (actions.literal l) after = .ok (value, rest)) :
          ∃ e taken, l.tok :: after = taken ++ rest ∧ Derives .operand e taken ∧ value = e.fold actions :=
        (parseFieldAccessors_extends after (.literal l)).reads value rest ends
      rw [parseOperand.eq_def] at found
      split at found
      next spent => cases spent
      next later after spent =>
        cases spent
        obtain ⟨⟨inner, middle⟩, parsed, closed⟩ := bind_ok found
        obtain ⟨e, taken, rfl, derives, rfl⟩ := ih.or after inner middle parsed
        dsimp only at closed
        split at closed
        next last =>
          have ends := (parseFieldAccessors_extends last derives.group).reads value rest closed
          simpa using ends
        next => cases closed
      next s after spent => exact literal (.str s) after found
      next n after spent => exact literal (.num n) after found
      next b after spent => exact literal (.bool b) after found
      next after spent => exact literal .null after found
      next name after spent =>
        obtain ⟨⟨base, middle⟩, looked, ends⟩ := bind_ok found
        obtain ⟨e, taken, split, derives, rfl⟩ := parseLookup_reads name after base middle looked
        rw [split]
        exact (parseFieldAccessors_extends middle derives).reads value rest ends
      next => cases found

end Sound

section Complete

variable {α : Type} {actions : Actions α}

def Ends (rest : List Tok) : Prop := ∀ tok ∈ rest.head?, tok = .and ∨ tok = .or ∨ tok = .rparen

theorem ends_cons {tok : Tok} {rest : List Tok} (ends : tok = .and ∨ tok = .or ∨ tok = .rparen) :
    Ends (tok :: rest) := by
  simpa [Ends] using ends

theorem Ends.unlike {rest : List Tok} (ends : Ends rest) {tok : Tok}
    (other : tok ≠ .and ∧ tok ≠ .or ∧ tok ≠ .rparen) : rest.head? ≠ some tok := by
  intro first
  rcases ends tok first with same | same | same
  · exact other.1 same
  · exact other.2.1 same
  · exact other.2.2 same

theorem parseFieldAccessors_stop {value : α} {rest : List Tok} (stops : rest.head? ≠ some .dot) :
    parseFieldAccessors actions value rest = .ok (value, rest) := by
  cases rest with
  | nil => rfl
  | cons tok rest => cases tok <;> simp_all [parseFieldAccessors]

theorem parseAndRest_stop {value : α} {rest : List Tok} (stops : rest.head? ≠ some .and) {fuel : Nat}
    (enough : 1 ≤ fuel) : parseAndRest actions fuel value rest = .ok (value, rest) := by
  obtain ⟨fuel, rfl⟩ := Nat.exists_eq_add_of_le' enough
  cases rest with
  | nil => rfl
  | cons tok rest => cases tok <;> simp_all [parseAndRest]

theorem parseOrRest_stop {value : α} {rest : List Tok} (stops : rest.head? ≠ some .or) {fuel : Nat}
    (enough : 1 ≤ fuel) : parseOrRest actions fuel value rest = .ok (value, rest) := by
  obtain ⟨fuel, rfl⟩ := Nat.exists_eq_add_of_le' enough
  cases rest with
  | nil => rfl
  | cons tok rest => cases tok <;> simp_all [parseOrRest]

theorem parseComparison_stop {value : α} {tokens rest : List Tok} {fuel : Nat}
    (operand : parseOperand actions fuel tokens = .ok (value, rest)) (ends : Ends rest) :
    parseComparison actions (fuel + 1) tokens = .ok (value, rest) := by
  rw [parseComparison, operand]
  cases rest with
  | nil => rfl
  | cons tok rest =>
    rcases ends tok rfl with rfl | rfl | rfl <;> rfl

theorem Derives.head_cmp {level : Level} {e : Expr} {tokens : List Tok}
    (derives : Derives level e tokens) (low : level = .operand ∨ level = .cmp) :
    tokens.head? ≠ some .not := by
  induction derives with
  | literal l => cases l <;> simp [Literal.tok]
  | index | input | group => simp
  | field of name ih =>
    rw [List.head?_append_of_ne_nil _ of.ne_nil]
    exact ih (.inl rfl)
  | operand only ih => exact ih (.inl rfl)
  | compare left op right ih | member left right ih | notMember left right ih =>
    rw [List.head?_append_of_ne_nil _ left.ne_nil]
    exact ih (.inl rfl)
  | comparison | not | negation | and | conjunction | or => simp at low

def Accepts (actions : Actions α) (e : Expr) (tokens : List Tok) : Level → Prop
  | .operand => ∀ fuel rest, 6 * tokens.length ≤ fuel → rest.head? ≠ some .lbracket →
      parseOperand actions fuel (tokens ++ rest) = parseFieldAccessors actions (e.fold actions) rest
  | .cmp => ∀ fuel rest, 6 * tokens.length + 1 ≤ fuel → Ends rest →
      parseComparison actions fuel (tokens ++ rest) = .ok (e.fold actions, rest)
  | .not => ∀ fuel rest, 6 * tokens.length + 2 ≤ fuel → Ends rest →
      parseNot actions fuel (tokens ++ rest) = .ok (e.fold actions, rest)
  | .and => ∃ turns, 1 ≤ turns ∧ turns ≤ tokens.length ∧ ∀ fuel rest,
      6 * tokens.length + 3 ≤ fuel → Ends rest →
      parseAnd actions fuel (tokens ++ rest) =
        parseAndRest actions (fuel - turns) (e.fold actions) rest
  | .or => ∃ turns, 1 ≤ turns ∧ turns ≤ tokens.length ∧ ∀ fuel rest,
      6 * tokens.length + 4 ≤ fuel → Ends rest → rest.head? ≠ some .and →
      parseOr actions fuel (tokens ++ rest) =
        parseOrRest actions (fuel - turns) (e.fold actions) rest

section Accepts

variable {e : Expr} {tokens rest : List Tok}

theorem Accepts.operand (accepts : Accepts actions e tokens .operand) (fuel : Nat)
    (rest : List Tok) (enough : 6 * tokens.length ≤ fuel) (bare : rest.head? ≠ some .lbracket)
    (stops : rest.head? ≠ some .dot) :
    parseOperand actions fuel (tokens ++ rest) = .ok (e.fold actions, rest) := by
  rw [accepts fuel rest enough bare, parseFieldAccessors_stop stops]

theorem Accepts.last (accepts : Accepts actions e tokens .operand) (fuel : Nat)
    (enough : 6 * tokens.length ≤ fuel) (ends : Ends rest) :
    parseOperand actions fuel (tokens ++ rest) = .ok (e.fold actions, rest) :=
  accepts.operand fuel rest enough (ends.unlike (by simp)) (ends.unlike (by simp))

theorem Accepts.and (accepts : Accepts actions e tokens .and) (fuel : Nat)
    (enough : 6 * tokens.length + 3 ≤ fuel) (ends : Ends rest) (stops : rest.head? ≠ some .and) :
    parseAnd actions fuel (tokens ++ rest) = .ok (e.fold actions, rest) := by
  obtain ⟨turns, some_turn, few, result⟩ := accepts
  rw [result fuel rest enough ends, parseAndRest_stop stops (by omega)]

theorem Accepts.or (accepts : Accepts actions e tokens .or) (fuel : Nat)
    (enough : 6 * tokens.length + 4 ≤ fuel) (ends : Ends rest) (stops : rest.head? ≠ some .and)
    (stops' : rest.head? ≠ some .or) :
    parseOr actions fuel (tokens ++ rest) = .ok (e.fold actions, rest) := by
  obtain ⟨turns, some_turn, few, result⟩ := accepts
  rw [result fuel rest enough ends stops, parseOrRest_stop stops' (by omega)]

end Accepts

theorem accepts_of_derives {level : Level} {e : Expr} {tokens : List Tok}
    (derives : Derives level e tokens) : Accepts actions e tokens level := by
  induction derives with
  | literal l =>
    intro fuel rest enough bare
    obtain ⟨fuel, rfl⟩ := Nat.exists_eq_add_of_le' (show 1 ≤ fuel by simp at enough; omega)
    cases l <;> rfl
  | @index name ns named key =>
    intro fuel rest enough bare
    obtain ⟨fuel, rfl⟩ := Nat.exists_eq_add_of_le' (show 1 ≤ fuel by simp at enough; omega)
    simp only [List.cons_append, List.nil_append, parseOperand, parseLookup, named]
    rfl
  | input =>
    intro fuel rest enough bare
    obtain ⟨fuel, rfl⟩ := Nat.exists_eq_add_of_le' (show 1 ≤ fuel by simp at enough; omega)
    have looked : parseLookup actions "input" rest = .ok (actions.input, rest) := by
      unfold parseLookup
      split <;> simp_all
    simp only [List.cons_append, List.nil_append, parseOperand, looked]
    rfl
  | @group e tokens inner ih =>
    intro fuel rest enough bare
    have long : (Tok.lparen :: (tokens ++ [.rparen])).length = tokens.length + 2 := by simp
    rw [long] at enough
    obtain ⟨fuel, rfl⟩ := Nat.exists_eq_add_of_le' (show 1 ≤ fuel by omega)
    have inside : parseOr actions fuel (tokens ++ .rparen :: rest) =
        .ok (e.fold actions, .rparen :: rest) :=
      Accepts.or ih fuel (by omega) (ends_cons (by simp)) (by simp) (by simp)
    simp only [List.cons_append, List.append_assoc, List.nil_append, parseOperand, inside]
    rfl
  | @field e tokens of name ih =>
    intro fuel rest enough bare
    rw [List.length_append] at enough
    rw [List.append_assoc, ih fuel _ (by simp at enough; omega) (by simp)]
    rfl
  | @operand e tokens only ih =>
    intro fuel rest enough ends
    obtain ⟨fuel, rfl⟩ := Nat.exists_eq_add_of_le' (show 1 ≤ fuel by omega)
    have taken := Accepts.last ih fuel (by omega) ends
    exact parseComparison_stop taken ends
  | @compare e e' tokens tokens' left op right ih ih' =>
    intro fuel rest enough ends
    rw [List.length_append, List.length_cons] at enough
    obtain ⟨fuel, rfl⟩ := Nat.exists_eq_add_of_le' (show 1 ≤ fuel by omega)
    have first := Accepts.operand ih fuel (.op op :: (tokens' ++ rest)) (by omega)
      (by simp) (by simp)
    have second := Accepts.last ih' fuel (by omega) ends
    rw [List.append_assoc, List.cons_append, parseComparison, first]
    simp only [Except.bind, bind, second]
    rfl
  | @member e e' tokens tokens' left right ih ih' =>
    intro fuel rest enough ends
    rw [List.length_append, List.length_cons] at enough
    obtain ⟨fuel, rfl⟩ := Nat.exists_eq_add_of_le' (show 1 ≤ fuel by omega)
    have first := Accepts.operand ih fuel (.in :: (tokens' ++ rest)) (by omega)
      (by simp) (by simp)
    have second := Accepts.last ih' fuel (by omega) ends
    rw [List.append_assoc, List.cons_append, parseComparison, first]
    simp only [Except.bind, bind, second]
    rfl
  | @notMember e e' tokens tokens' left right ih ih' =>
    intro fuel rest enough ends
    rw [List.length_append, List.length_cons, List.length_cons] at enough
    obtain ⟨fuel, rfl⟩ := Nat.exists_eq_add_of_le' (show 1 ≤ fuel by omega)
    have first := Accepts.operand ih fuel (.not :: .in :: (tokens' ++ rest))
      (by omega) (by simp) (by simp)
    have second := Accepts.last ih' fuel (by omega) ends
    rw [List.append_assoc, List.cons_append, List.cons_append, parseComparison, first]
    simp only [Except.bind, bind, second]
    rfl
  | @comparison e tokens only ih =>
    intro fuel rest enough ends
    obtain ⟨fuel, rfl⟩ := Nat.exists_eq_add_of_le' (show 1 ≤ fuel by omega)
    have taken := ih fuel rest (by omega) ends
    have plain := only.head_cmp (.inr rfl)
    obtain ⟨tok, tokens, rfl⟩ := List.exists_cons_of_ne_nil only.ne_nil
    rw [List.cons_append] at taken ⊢
    cases tok <;> simp_all [parseNot]
  | @not e tokens operand ih =>
    intro fuel rest enough ends
    rw [List.length_cons] at enough
    obtain ⟨fuel, rfl⟩ := Nat.exists_eq_add_of_le' (show 1 ≤ fuel by omega)
    rw [List.cons_append, parseNot, ih fuel rest (by omega) ends]
    rfl
  | @negation e tokens only ih =>
    have present : tokens.length ≠ 0 := by simpa using only.ne_nil
    refine ⟨1, le_rfl, by omega, fun fuel rest enough ends => ?_⟩
    obtain ⟨fuel, rfl⟩ := Nat.exists_eq_add_of_le' (show 1 ≤ fuel by omega)
    rw [parseAnd, ih fuel rest (by omega) ends]
    rfl
  | @and e e' tokens tokens' first last ih ih' =>
    obtain ⟨turns, some_turn, few, result⟩ := ih
    refine ⟨turns + 1, by omega, by simp; omega, fun fuel rest enough ends => ?_⟩
    rw [List.length_append, List.length_cons] at enough
    -- the turn that takes the right operand
    obtain ⟨spent, left_over⟩ := Nat.exists_eq_add_of_le' (show 1 ≤ fuel - turns by omega)
    have taken := ih' spent rest (by omega) ends
    rw [List.append_assoc, List.cons_append, result fuel _ (by omega) (ends_cons (by simp)), left_over,
      parseAndRest, taken, show fuel - (turns + 1) = spent by omega]
    rfl
  | @conjunction e tokens only ih =>
    have present : tokens.length ≠ 0 := by simpa using only.ne_nil
    refine ⟨1, le_rfl, by omega, fun fuel rest enough ends stops => ?_⟩
    obtain ⟨fuel, rfl⟩ := Nat.exists_eq_add_of_le' (show 1 ≤ fuel by omega)
    rw [parseOr, Accepts.and ih fuel (by omega) ends stops]
    rfl
  | @or e e' tokens tokens' first last ih ih' =>
    obtain ⟨turns, some_turn, few, result⟩ := ih
    refine ⟨turns + 1, by omega, by simp; omega, fun fuel rest enough ends stops => ?_⟩
    rw [List.length_append, List.length_cons] at enough
    obtain ⟨spent, left_over⟩ := Nat.exists_eq_add_of_le' (show 1 ≤ fuel - turns by omega)
    have taken := Accepts.and ih' spent (by omega) ends stops
    rw [List.append_assoc, List.cons_append,
      result fuel _ (by omega) (ends_cons (by simp)) (by simp), left_over, parseOrRest, taken,
      show fuel - (turns + 1) = spent by omega]
    rfl

theorem parseWhole_ok_iff (actions : Actions α) (tokens : List Tok) (value : α) :
    parseWhole actions tokens = .ok value ↔
      ∃ e, Derives .or e tokens ∧ value = e.fold actions := by
  constructor
  · intro found
    obtain ⟨⟨value', rest⟩, parsed, ended⟩ := bind_ok found
    obtain ⟨e, taken, rfl, derives, rfl⟩ :=
      (sound actions (parseFuel tokens)).or tokens value' rest parsed
    dsimp only at ended
    split at ended
    next done =>
      obtain rfl := Except.ok.inj ended
      subst done
      exact ⟨e, by simpa using derives, rfl⟩
    next => cases ended
  · rintro ⟨e, derives, rfl⟩
    have whole : parseOr actions (parseFuel tokens) (tokens ++ []) = .ok (e.fold actions, []) :=
      Accepts.or (accepts_of_derives derives) (parseFuel tokens) (by simp [parseFuel])
        (by simp [Ends]) (by simp) (by simp)
    rw [List.append_nil] at whole
    simp only [parseWhole, whole]
    rfl

theorem Derives.unique {e e' : Expr} {tokens : List Tok} (first : Derives .or e tokens)
    (second : Derives .or e' tokens) : e' = e := by
  have built := (parseWhole_ok_iff building tokens e).mpr ⟨e, first, by simp⟩
  have built' := (parseWhole_ok_iff building tokens e').mpr ⟨e', second, by simp⟩
  exact Except.ok.inj (built'.symm.trans built)

end Complete

theorem evaluate_ok_iff (tables : CharTables) (expression : List Char) (ctx : StepContext)
    (result : Bool) :
    evaluate tables expression ctx = .ok result ↔
      ∃ tokens e, tokenize tables expression = .ok tokens ∧ Derives .or e tokens ∧
        result = truthy (e.denote ctx) := by
  constructor
  · intro found
    obtain ⟨tokens, read, evaluated⟩ := bind_ok found
    obtain ⟨value, parsed, same⟩ := bind_ok evaluated
    obtain ⟨e, derives, rfl⟩ := (parseWhole_ok_iff _ _ _).mp parsed
    rw [Expr.fold_evaluating] at same
    exact ⟨tokens, e, read, derives, (Except.ok.inj same).symm⟩
  · rintro ⟨tokens, e, read, derives, rfl⟩
    have parsed := (parseWhole_ok_iff (evaluating ctx) tokens _).mpr ⟨e, derives, rfl⟩
    simp only [evaluate, read, bind, Except.bind, parsed, Expr.fold_evaluating]

theorem evaluate_grammar (tables : CharTables) (expression : List Char) :
    (∀ ctx, (∃ result, evaluate tables expression ctx = .ok result) ↔
      ∃ tokens e, tokenize tables expression = .ok tokens ∧ Derives .or e tokens) ∧
    (∀ tokens e, tokenize tables expression = .ok tokens → Derives .or e tokens →
      (∀ other, Derives .or other tokens → other = e) ∧
      ∀ ctx, evaluate tables expression ctx = .ok (truthy (e.denote ctx))) := by
  constructor
  · intro ctx
    constructor
    · rintro ⟨result, evaluated⟩
      obtain ⟨tokens, e, read, derives, -⟩ := (evaluate_ok_iff _ _ _ _).mp evaluated
      exact ⟨tokens, e, read, derives⟩
    · rintro ⟨tokens, e, read, derives⟩
      exact ⟨_, (evaluate_ok_iff _ _ _ _).mpr ⟨tokens, e, read, derives, rfl⟩⟩
  · intro tokens e read derives
    refine ⟨fun other parsed => derives.unique parsed, fun ctx => ?_⟩
    exact (evaluate_ok_iff _ _ _ _).mpr ⟨tokens, e, read, derives, rfl⟩

section Charge

def asciiTables : CharTables where
  isAlphabetic := Char.isAlpha
  isAlphanumeric := Char.isAlphanum

def largeAndKept : List Char := "results['charge'].total >= 10 and not variables['skip']".toList

def largeAndKeptTree : Expr :=
  .and (.compare (.field (.index .results "charge") "total") .ge (.literal (.num (some 10))))
    (.not (.index .variables "skip"))

-- An empty array is not true.
def charged (total : Int) : StepContext where
  results :=
    (∅ : Std.TreeMap String Value).insert "charge" (.object [("total", .number (.int total))])
  vars := (∅ : Std.TreeMap String Value).insert "skip" (.array [])

theorem largeAndKept_derives : Derives .or largeAndKeptTree
    [.ident "results", .lbracket, .str "charge", .rbracket, .dot, .ident "total", .op .ge,
      .num (some 10), .and, .not, .ident "variables", .lbracket, .str "skip", .rbracket] :=
  .conjunction (.and
    (.negation (.comparison (.compare (.field (.index rfl "charge") "total") .ge
      (.literal (.num (some 10))))))
    (.not (.comparison (.operand (.index rfl "skip")))))

theorem evaluate_grammar_charge :
    evaluate asciiTables largeAndKept (charged 12) = .ok true ∧
      evaluate asciiTables largeAndKept (charged 9) = .ok false := by
  have evaluated := ((evaluate_grammar asciiTables largeAndKept).2 _ _ (by decide +kernel)
    largeAndKept_derives).2
  exact ⟨(evaluated (charged 12)).trans (by decide +kernel),
    (evaluated (charged 9)).trans (by decide +kernel)⟩

end Charge

end Firefly.Orchestration.Condition
