import Firefly.Shared.BoolGrammar
import Firefly.Shared.Text

set_option autoImplicit false

namespace Firefly.Config.Profile

open Text BoolGrammar

def operators : List Char := ['&', '|', '!', '(', ')', ',']

/-- `char::is_alphanumeric`: no operator and no whitespace is a letter or a digit. -/
structure Alphabet where
  isAlphanumeric : Char → Bool
  apart : ∀ c, isAlphanumeric c = true → isWhitespace c = false ∧ c ∉ operators

def Alphabet.nameChar (alphabet : Alphabet) (c : Char) : Bool :=
  alphabet.isAlphanumeric c || c == '_' || c == '.' || c == '-'

def ascii : Alphabet where
  isAlphanumeric := Char.isAlphanum
  apart := by
    intro c alphanumeric
    simp only [Char.isAlphanum, Char.isAlpha, Char.isUpper, Char.isLower, Char.isDigit,
      Bool.or_eq_true, Bool.and_eq_true, decide_eq_true_eq, UInt32.le_iff_toNat_le,
      ge_iff_le] at alphanumeric
    have codes : 48 ≤ c.toNat ∧ c.toNat ≤ 57 ∨ 65 ≤ c.toNat ∧ c.toNat ≤ 122 := by
      change ((65 ≤ c.toNat ∧ c.toNat ≤ 90) ∨ (97 ≤ c.toNat ∧ c.toNat ≤ 122)) ∨
        (48 ≤ c.toNat ∧ c.toNat ≤ 57) at alphanumeric
      omega
    refine ⟨by simp [isWhitespace]; omega, ?_⟩
    intro among
    simp only [operators, List.mem_cons, List.not_mem_nil, or_false] at among
    rcases among with rfl | rfl | rfl | rfl | rfl | rfl <;> simp at codes

abbrev ProfileToken := Token Bool

def punctuation {α : Type} : Char → Option (Token α)
  | '&' => some .and
  | '|' => some .or
  | '!' => some .not
  | '(' => some .lparen
  | ')' => some .rparen
  | _ => none

def tokenizeProfile (alphabet : Alphabet) (active : List (List Char)) :
    List Char → Option (List ProfileToken)
  | [] => some []
  | c :: rest =>
    if isWhitespace c then tokenizeProfile alphabet active rest
    else
      match punctuation c with
      | some token => (tokenizeProfile alphabet active rest).map (token :: ·)
      | none =>
        if alphabet.nameChar c then
          let ident := c :: rest.takeWhile alphabet.nameChar
          (tokenizeProfile alphabet active (rest.dropWhile alphabet.nameChar)).map
            (.value (decide (ident ∈ active)) :: ·)
        else none
termination_by chars => chars.length
decreasing_by
  all_goals simp
  exact (List.dropWhile_suffix _).length_le

-- A parser returns the tokens it leaves; the fuel bounds the depth of its calls and the turns of
-- its loops.
mutual

def parseOr : Nat → List ProfileToken → Option (Bool × List ProfileToken)
  | 0, _ => none
  | fuel + 1, tokens =>
    match parseAnd fuel tokens with
    | none => none
    | some (value, rest) => parseOrRest fuel value rest

def parseOrRest : Nat → Bool → List ProfileToken → Option (Bool × List ProfileToken)
  | 0, _, _ => none
  | fuel + 1, value, .or :: rest =>
    match parseAnd fuel rest with
    | none => none
    | some (rhs, rest) => parseOrRest fuel (value || rhs) rest
  | _ + 1, value, rest => some (value, rest)

def parseAnd : Nat → List ProfileToken → Option (Bool × List ProfileToken)
  | 0, _ => none
  | fuel + 1, tokens =>
    match parseUnary fuel tokens with
    | none => none
    | some (value, rest) => parseAndRest fuel value rest

def parseAndRest : Nat → Bool → List ProfileToken → Option (Bool × List ProfileToken)
  | 0, _, _ => none
  | fuel + 1, value, .and :: rest =>
    match parseUnary fuel rest with
    | none => none
    | some (rhs, rest) => parseAndRest fuel (value && rhs) rest
  | _ + 1, value, rest => some (value, rest)

def parseUnary : Nat → List ProfileToken → Option (Bool × List ProfileToken)
  | 0, _ => none
  | fuel + 1, .not :: rest =>
    match parseUnary fuel rest with
    | none => none
    | some (value, rest) => some (!value, rest)
  | fuel + 1, tokens => parsePrimary fuel tokens

def parsePrimary : Nat → List ProfileToken → Option (Bool × List ProfileToken)
  | fuel + 1, .lparen :: rest =>
    match parseOr fuel rest with
    | some (value, .rparen :: rest) => some (value, rest)
    | _ => none
  | _ + 1, .value value :: rest => some (value, rest)
  | _, _ => none

end

def parseFuel {α : Type} (tokens : List α) : Nat := 4 * tokens.length + 4

def evalBooleanProfile (alphabet : Alphabet) (active : List (List Char)) (expr : List Char) : Bool :=
  match tokenizeProfile alphabet active expr with
  | none => false
  | some tokens =>
    match parseOr (parseFuel tokens) tokens with
    | some (value, []) => value
    | _ => false

def matchesSingle (active : List (List Char)) (profile : List Char) : Bool :=
  match trim profile with
  | '!' :: rest => decide (trim rest ∉ active)
  | profile => decide (profile ∈ active)

def booleanForm (expr : List Char) : Bool :=
  expr.contains '&' || expr.contains '|' || expr.contains '('

def pieces (expr : List Char) : List (List Char) :=
  ((expr.splitOn ',').map trim).filter (· ≠ [])

def matchesProfileExpression (alphabet : Alphabet) (active : List (List Char)) (expr : List Char) :
    Bool :=
  let expr := trim expr
  if booleanForm expr then evalBooleanProfile alphabet active expr
  else if expr.contains ',' then (pieces expr).any (matchesSingle active)
  else matchesSingle active expr

def acceptsProfiles (alphabet : Alphabet) (active : List (List Char)) (exprs : List (List Char)) :
    Bool :=
  exprs.any (matchesProfileExpression alphabet active)

end Firefly.Config.Profile
