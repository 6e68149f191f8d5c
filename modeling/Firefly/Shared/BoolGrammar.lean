import Firefly.Shared.Formula

set_option autoImplicit false

/-!
# A grammar of Boolean expressions

`or := and ('|' and)*`, `and := unary ('&' unary)*`, `unary := '!' unary | '(' or ')' | value`, over
values of any type.
-/

namespace Firefly.BoolGrammar

open Formulas

variable {α β : Type}

inductive Token (α : Type) where
  | and
  | or
  | not
  | lparen
  | rparen
  | value (a : α)
deriving DecidableEq, Repr

def Token.map (f : α → β) : Token α → Token β
  | .and => .and
  | .or => .or
  | .not => .not
  | .lparen => .lparen
  | .rparen => .rparen
  | .value a => .value (f a)

inductive Level where
  | or
  | and
  | unary

inductive Derives : Level → Formula α → List (Token α) → Prop
  | value (a : α) : Derives .unary (.test a) [.value a]
  | paren {formula : Formula α} {tokens : List (Token α)} (inner : Derives .or formula tokens) :
      Derives .unary formula (.lparen :: (tokens ++ [.rparen]))
  | not {formula : Formula α} {tokens : List (Token α)} (operand : Derives .unary formula tokens) :
      Derives .unary (.not formula) (.not :: tokens)
  | unary {formula : Formula α} {tokens : List (Token α)} (only : Derives .unary formula tokens) :
      Derives .and formula tokens
  | and {left right : Formula α} {tokens tokens' : List (Token α)}
      (first : Derives .and left tokens) (last : Derives .unary right tokens') :
      Derives .and (.all [left, right]) (tokens ++ .and :: tokens')
  | conjunction {formula : Formula α} {tokens : List (Token α)}
      (only : Derives .and formula tokens) : Derives .or formula tokens
  | or {left right : Formula α} {tokens tokens' : List (Token α)}
      (first : Derives .or left tokens) (last : Derives .and right tokens') :
      Derives .or (.any [left, right]) (tokens ++ .or :: tokens')

@[simp] theorem eval_both (holds : α → Bool) (left right : Formula α) :
    (Formula.all [left, right]).eval holds = (left.eval holds && right.eval holds) := by
  simp [Formula.eval, Formula.evalAll]

@[simp] theorem eval_either (holds : α → Bool) (left right : Formula α) :
    (Formula.any [left, right]).eval holds = (left.eval holds || right.eval holds) := by
  simp [Formula.eval, Formula.evalAny]

section Derives

variable {level : Level} {formula : Formula α} {tokens : List (Token α)}

theorem Derives.ne_nil (derives : Derives level formula tokens) : tokens ≠ [] := by
  induction derives <;> simp_all

def Token.connective : Token α → Bool
  | .and | .or => true
  | _ => false

theorem Derives.spread (derives : Derives level formula tokens) :
    (∀ token ∈ tokens.head?, token.connective = false) ∧
    (∀ token ∈ tokens.getLast?, token.connective = false) ∧
    tokens.IsChain fun token next => (token.connective && next.connective) = false := by
  induction derives with
  | value a => simp [Token.connective]
  | paren inner ih =>
    refine ⟨by simp [Token.connective], ?_, ?_⟩
    · rw [List.getLast?_cons_of_ne_nil (by simp), List.getLast?_concat]
      simp [Token.connective]
    rw [List.isChain_cons, List.isChain_append]
    exact ⟨by simp [Token.connective], ih.2.2, by simp, by simp [Token.connective]⟩
  | not operand ih =>
    have present := operand.ne_nil
    refine ⟨by simp [Token.connective], ?_, ?_⟩
    · rw [List.getLast?_cons_of_ne_nil present]
      exact ih.2.1
    · rw [List.isChain_cons]
      exact ⟨by simp [Token.connective], ih.2.2⟩
  | unary only ih => exact ih
  | conjunction only ih => exact ih
  | and first last ih ih' | or first last ih ih' =>
    have present := first.ne_nil
    have present' := last.ne_nil
    refine ⟨?_, ?_, ?_⟩
    · rw [List.head?_append_of_ne_nil _ present]
      exact ih.1
    · rw [List.getLast?_append_of_ne_nil _ (by simp), List.getLast?_cons_of_ne_nil present']
      exact ih'.2.1
    · rw [List.isChain_append, List.isChain_cons]
      refine ⟨ih.2.2, ⟨?_, ih'.2.2⟩, ?_⟩
      · intro next there
        simp [ih'.1 next there]
      · intro token there next
        simp [ih.2.1 token there]

theorem negated_parity (count : Nat) (value : Bool) :
    (!if count % 2 = 0 then value else !value) = if (count + 1) % 2 = 0 then value else !value := by
  rcases Nat.mod_two_eq_zero_or_one count with even | odd
  · simp [even, show (count + 1) % 2 = 1 by omega]
  · simp [odd, show (count + 1) % 2 = 0 by omega]

theorem Derives.negations (derives : Derives level formula tokens)
    (bare : ∀ token ∈ tokens, token.connective = false ∧ token ≠ .lparen) :
    ∃ count a, tokens = List.replicate count .not ++ [.value a] ∧
      ∀ holds, formula.eval holds = if count % 2 = 0 then holds a else !holds a := by
  induction derives with
  | value a => exact ⟨0, a, rfl, fun holds => by simp [Formula.eval]⟩
  | paren inner ih => exact absurd rfl (bare _ (by simp)).2
  | not operand ih =>
    obtain ⟨count, a, rfl, evals⟩ := ih fun token among => bare token (by simp [among])
    refine ⟨count + 1, a, by simp [List.replicate_succ], fun holds => ?_⟩
    rw [Formula.eval, evals holds, negated_parity]
  | unary only ih => exact ih bare
  | conjunction only ih => exact ih bare
  | and first last => simpa [Token.connective] using (bare .and (by simp)).1
  | or first last => simpa [Token.connective] using (bare .or (by simp)).1

theorem derives_negations (count : Nat) (a : α) :
    ∃ formula, Derives .unary formula (List.replicate count .not ++ [.value a]) ∧
      ∀ holds, formula.eval holds = if count % 2 = 0 then holds a else !holds a := by
  induction count with
  | zero => exact ⟨_, .value a, fun holds => by simp [Formula.eval]⟩
  | succ count ih =>
    obtain ⟨formula, derives, evals⟩ := ih
    refine ⟨.not formula, by simpa [List.replicate_succ] using derives.not, fun holds => ?_⟩
    rw [Formula.eval, evals holds, negated_parity]

end Derives

end Firefly.BoolGrammar
