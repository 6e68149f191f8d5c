import Firefly.Config.Profile
import Firefly.Config.ProfileParsing

set_option autoImplicit false

namespace Firefly.Container.Condition

open Text BoolGrammar

structure ConditionContext where
  profiles : List (List Char)
deriving DecidableEq, Repr

def toAsciiLowercase (chars : List Char) : List Char := chars.map Char.toLower

def eqIgnoreAsciiCase (a b : List Char) : Bool := toAsciiLowercase a == toAsciiLowercase b

def ConditionContext.withProfiles (profiles : List (List Char)) : ConditionContext where
  profiles := (profiles.map fun p => toAsciiLowercase (trim p)).filter (· ≠ [])

abbrev PTok := Token (List Char)

structure Scan where
  name : List Char
  tokens : List PTok
deriving DecidableEq, Repr

def flush (scan : Scan) : Scan where
  name := []
  tokens := if trim scan.name = [] then scan.tokens else scan.tokens ++ [.value (trim scan.name)]

-- `&&` is one `And`, `||` one `Or`.
def collapse (scan : Scan) (token : PTok) : Scan :=
  if scan.tokens.getLast? = some token then scan
  else { scan with tokens := scan.tokens ++ [token] }

def Scan.push (scan : Scan) (token : PTok) : Scan :=
  { scan with tokens := scan.tokens ++ [token] }

def scanChar (scan : Scan) : Char → Scan
  | '&' => collapse (flush scan) .and
  | '|' | ',' => collapse (flush scan) .or
  | '!' => (flush scan).push .not
  | '(' => (flush scan).push .lparen
  | ')' => (flush scan).push .rparen
  | c => if isWhitespace c then flush scan else { scan with name := scan.name ++ [c] }

def tokenizeProfile (expr : List Char) : List PTok :=
  (flush (expr.foldl scanChar { name := [], tokens := [] })).tokens

def evalProfileAtom (active : List (List Char)) (name : List Char) : Bool :=
  active.any (eqIgnoreAsciiCase · name)

-- Nothing is an error here: a missing operand is `false`, a missing `)` is passed over.
mutual

def parseOr (active : List (List Char)) : Nat → List PTok → Bool × List PTok
  | 0, tokens => (false, tokens)
  | fuel + 1, tokens =>
    let (value, rest) := parseAnd active fuel tokens
    parseOrRest active fuel value rest

def parseOrRest (active : List (List Char)) : Nat → Bool → List PTok → Bool × List PTok
  | fuel + 1, value, .or :: rest =>
    let (rhs, rest) := parseAnd active fuel rest
    parseOrRest active fuel (value || rhs) rest
  | _, value, rest => (value, rest)

def parseAnd (active : List (List Char)) : Nat → List PTok → Bool × List PTok
  | 0, tokens => (false, tokens)
  | fuel + 1, tokens =>
    let (value, rest) := parseUnary active fuel tokens
    parseAndRest active fuel value rest

def parseAndRest (active : List (List Char)) : Nat → Bool → List PTok → Bool × List PTok
  | fuel + 1, value, .and :: rest =>
    let (rhs, rest) := parseUnary active fuel rest
    parseAndRest active fuel (value && rhs) rest
  | _, value, rest => (value, rest)

def parseUnary (active : List (List Char)) : Nat → List PTok → Bool × List PTok
  | 0, tokens => (false, tokens)
  | fuel + 1, .not :: rest =>
    let (value, rest) := parseUnary active fuel rest
    (!value, rest)
  | fuel + 1, tokens => parsePrimary active fuel tokens

def parsePrimary (active : List (List Char)) : Nat → List PTok → Bool × List PTok
  | fuel + 1, .lparen :: rest =>
    match parseOr active fuel rest with
    | (value, .rparen :: rest) => (value, rest)
    | (value, rest) => (value, rest)
  | _ + 1, .value name :: rest => (evalProfileAtom active name, rest)
  | _, tokens => (false, tokens)

end

def evalProfileExpr (active : List (List Char)) (expr : List Char) : Bool :=
  let expr := trim expr
  if !Config.Profile.booleanForm expr && expr.contains ',' then
    (Config.Profile.pieces expr).any (evalProfileAtom active)
  else
    let tokens := tokenizeProfile expr
    (parseOr active (Config.Profile.parseFuel tokens) tokens).1

def ConditionContext.acceptsProfiles (context : ConditionContext) (expr : List Char) : Bool :=
  let expr := trim expr
  if expr = [] then true else evalProfileExpr context.profiles expr

end Firefly.Container.Condition

namespace Firefly.Container.Condition

open Text BoolGrammar Formulas
open Config.Profile (Alphabet IsName Spells ProfileToken nameChar_apart punctuation punctuation_mem
  operators operator_not_white parseFuel parseOr_whole)

section Tokens

variable {alphabet : Alphabet} {tokens : List PTok} {text : List Char}

theorem flush_name {name : List Char} (named : IsName alphabet name) (tokens : List PTok) :
    flush { name, tokens } = { name := [], tokens := tokens ++ [.value name] } := by
  have whole : trim name = name := trim_of_dark fun c among => (nameChar_apart (named.2 c among)).1
  simp [flush, whole, named.1]

@[simp] theorem flush_idle (tokens : List PTok) :
    flush { name := [], tokens } = { name := [], tokens } := by
  simp [flush, trim]

theorem flush_flush (scan : Scan) : flush (flush scan) = flush scan :=
  flush_idle _

theorem scanChar_flush (scan : Scan) {c : Char} (ends : isWhitespace c = true ∨ c ∈ operators) :
    scanChar (flush scan) c = scanChar scan c := by
  rcases ends with white | operator
  · have plain : ∀ d ∈ operators, c ≠ d := by
      rintro d among rfl
      simp [operator_not_white among] at white
    unfold scanChar
    split <;> simp_all [operators, flush_flush]
  · simp only [operators, List.mem_cons, List.not_mem_nil, or_false] at operator
    rcases operator with rfl | rfl | rfl | rfl | rfl | rfl <;> simp [scanChar, flush_flush]

theorem foldl_name {name : List Char} (named : ∀ c ∈ name, alphabet.nameChar c = true)
    (scan : Scan) : name.foldl scanChar scan = { scan with name := scan.name ++ name } := by
  induction name generalizing scan with
  | nil => simp
  | cons c rest ih =>
    have apart := nameChar_apart (named c (by simp))
    have pushed : scanChar scan c = { scan with name := scan.name ++ [c] } := by
      unfold scanChar
      split <;> simp_all [operators]
    rw [List.foldl_cons, pushed, ih fun d among => named d (by simp [among])]
    simp

theorem scanChar_sign {c : Char} {token : PTok} (sign : punctuation c = some token)
    {seen : List PTok} (apart : ∀ last ∈ seen.getLast?,
      (last.connective && token.connective) = false) :
    scanChar { name := [], tokens := seen } c = { name := [], tokens := seen ++ [token] } := by
  have once : token.connective = true → seen.getLast? ≠ some token := by
    intro connective last
    simpa [connective] using apart token last
  unfold punctuation at sign
  split at sign <;> cases sign <;>
    simp_all [scanChar, collapse, Scan.push, Token.connective]

theorem tokenize_from (spells : Spells alphabet tokens text) (seen : List PTok)
    (spread : (seen ++ tokens).IsChain fun token next =>
      (token.connective && next.connective) = false) :
    (flush (text.foldl scanChar { name := [], tokens := seen })).tokens = seen ++ tokens := by
  induction spells generalizing seen with
  | done => simp
  | @space tokens c rest white later ih =>
    have skipped : scanChar { name := [], tokens := seen } c = { name := [], tokens := seen } := by
      have plain : ∀ d ∈ operators, c ≠ d := by
        rintro d among rfl
        simp [operator_not_white among] at white
      unfold scanChar
      split <;> simp_all [operators]
    rw [List.foldl_cons, skipped]
    exact ih seen spread
  | @symbol tokens c token rest sign later ih =>
    have apart : ∀ last ∈ seen.getLast?, (last.connective && token.connective) = false := by
      intro last there
      exact (List.isChain_append.mp spread).2.2 last there token (by simp)
    rw [List.foldl_cons, scanChar_sign sign apart, ih (seen ++ [token]) (by simpa using spread)]
    simp
  | @name tokens name rest named ends later ih =>
    have read := ih (seen ++ [.value name]) (by simpa using spread)
    rw [List.foldl_append, foldl_name named.2, List.nil_append]
    -- what comes after the name ends it
    cases rest with
    | nil => simpa [flush_name named] using read
    | cons c rest =>
      have stops : isWhitespace c = true ∨ c ∈ operators := by
        have unnamed := ends c (by simp)
        generalize text_eq : c :: rest = text at later
        cases later with
        | done => cases text_eq
        | space white later =>
          obtain ⟨rfl, rfl⟩ := List.cons.inj text_eq
          exact .inl white
        | symbol sign later =>
          obtain ⟨rfl, rfl⟩ := List.cons.inj text_eq
          exact .inr (punctuation_mem sign)
        | @name _ other _ named' _ _ =>
          cases other with
          | nil => exact absurd rfl named'.1
          | cons d more =>
            obtain ⟨rfl, -⟩ := List.cons.inj text_eq
            simp [named'.2 c (by simp)] at unnamed
      rw [List.foldl_cons, ← scanChar_flush _ stops, flush_name named]
      simpa using read

theorem tokenizeProfile_of_spells (spells : Spells alphabet tokens text) {level : Level}
    {formula : Formula (List Char)} (derives : Derives level formula tokens) :
    tokenizeProfile text = tokens := by
  simpa [tokenizeProfile] using tokenize_from spells [] (by simpa using derives.spread.2.2)

end Tokens

section Parsers

open Config

variable {active : List (List Char)}

def Agrees (active : List (List Char)) (strict : Option (Bool × List ProfileToken))
    (permissive : Bool × List PTok) : Prop :=
  ∀ value rest, strict = some (value, rest) →
    permissive.1 = value ∧ rest = permissive.2.map (Token.map (evalProfileAtom active))

structure Follows (active : List (List Char)) (fuel : Nat) : Prop where
  or : ∀ tokens, Agrees active (Profile.parseOr fuel (tokens.map (Token.map (evalProfileAtom active))))
    (parseOr active fuel tokens)
  orRest : ∀ value tokens, Agrees active
    (Profile.parseOrRest fuel value (tokens.map (Token.map (evalProfileAtom active))))
    (parseOrRest active fuel value tokens)
  and : ∀ tokens, Agrees active
    (Profile.parseAnd fuel (tokens.map (Token.map (evalProfileAtom active))))
    (parseAnd active fuel tokens)
  andRest : ∀ value tokens, Agrees active
    (Profile.parseAndRest fuel value (tokens.map (Token.map (evalProfileAtom active))))
    (parseAndRest active fuel value tokens)
  unary : ∀ tokens, Agrees active
    (Profile.parseUnary fuel (tokens.map (Token.map (evalProfileAtom active))))
    (parseUnary active fuel tokens)
  primary : ∀ tokens, Agrees active
    (Profile.parsePrimary fuel (tokens.map (Token.map (evalProfileAtom active))))
    (parsePrimary active fuel tokens)

theorem Agrees.stop (value : Bool) (tokens : List PTok) :
    Agrees active (some (value, tokens.map (Token.map (evalProfileAtom active)))) (value, tokens) := by
  intro value' rest found
  obtain ⟨rfl, rfl⟩ := Prod.mk.inj (Option.some.inj found)
  exact ⟨rfl, rfl⟩

theorem follows (active : List (List Char)) (fuel : Nat) : Follows active fuel := by
  induction fuel with
  | zero => constructor <;> intros <;> intro value rest found <;> cases found
  | succ fuel ih =>
    refine ⟨?or, ?orRest, ?and, ?andRest, ?unary, ?primary⟩
    case or =>
      intro tokens value rest found
      rw [Profile.parseOr] at found
      split at found
      next => cases found
      next first left parsed =>
        obtain ⟨rfl, rfl⟩ := ih.and tokens _ _ parsed
        exact ih.orRest _ _ value rest found
    case orRest =>
      intro value tokens
      cases tokens with
      | nil => exact Agrees.stop value []
      | cons token tokens =>
        cases token with
        | or =>
          intro value' rest found
          simp only [List.map_cons, Token.map, Profile.parseOrRest] at found
          split at found
          next => cases found
          next rhs left parsed =>
            obtain ⟨rfl, rfl⟩ := ih.and tokens _ _ parsed
            exact ih.orRest _ _ value' rest found
        | _ =>
          intro value' rest found
          obtain ⟨rfl, rfl⟩ := Prod.mk.inj (Option.some.inj found)
          exact ⟨rfl, rfl⟩
    case and =>
      intro tokens value rest found
      rw [Profile.parseAnd] at found
      split at found
      next => cases found
      next first left parsed =>
        obtain ⟨rfl, rfl⟩ := ih.unary tokens _ _ parsed
        exact ih.andRest _ _ value rest found
    case andRest =>
      intro value tokens
      cases tokens with
      | nil => exact Agrees.stop value []
      | cons token tokens =>
        cases token with
        | and =>
          intro value' rest found
          simp only [List.map_cons, Token.map, Profile.parseAndRest] at found
          split at found
          next => cases found
          next rhs left parsed =>
            obtain ⟨rfl, rfl⟩ := ih.unary tokens _ _ parsed
            exact ih.andRest _ _ value' rest found
        | _ =>
          intro value' rest found
          obtain ⟨rfl, rfl⟩ := Prod.mk.inj (Option.some.inj found)
          exact ⟨rfl, rfl⟩
    case unary =>
      intro tokens
      cases tokens with
      | nil => exact ih.primary []
      | cons token tokens =>
        cases token with
        | not =>
          intro value rest found
          simp only [List.map_cons, Token.map, Profile.parseUnary] at found
          split at found
          next => cases found
          next operand left parsed =>
            obtain ⟨rfl, rfl⟩ := ih.unary tokens _ _ parsed
            exact Agrees.stop _ _ value rest found
        | _ =>
          intro value rest found
          exact ih.primary _ value rest found
    case primary =>
      intro tokens value rest found
      cases tokens with
      | nil => cases found
      | cons token tokens =>
        cases token with
        | lparen =>
          simp only [List.map_cons, Token.map, Profile.parsePrimary] at found
          split at found
          next inner left parsed =>
            obtain ⟨rfl, rests⟩ := ih.or tokens _ _ parsed
            rw [parsePrimary]
            split
            next value' left' permissive =>
              rw [permissive] at rests found
              obtain ⟨-, tails⟩ := List.cons.inj rests
              exact Agrees.stop value' left' value rest (tails ▸ found)
            next value' left' unclosed permissive =>
              rw [permissive] at rests
              cases left' with
              | nil => cases rests
              | cons closing left' =>
                obtain ⟨closes, -⟩ := List.cons.inj rests
                cases closing <;> cases closes
                exact absurd rfl (unclosed left')
          next => cases found
        | value name => exact Agrees.stop _ _ value rest found
        | _ => cases found

theorem parseOr_of_derives {tokens : List PTok} {formula : Formula (List Char)}
    (derives : Derives .or formula tokens) :
    (parseOr active (parseFuel tokens) tokens).1 = formula.eval (evalProfileAtom active) :=
  ((follows active _).or tokens _ _ (parseOr_whole derives)).1

end Parsers

end Firefly.Container.Condition
