import Firefly.Config.Profile

set_option autoImplicit false

namespace Firefly.Config.Profile

open Text BoolGrammar Formulas

section Spelling

variable {alphabet : Alphabet} {active : List (List Char)} {tokens : List (Token (List Char))}
  {text : List Char}

def IsName (alphabet : Alphabet) (name : List Char) : Prop :=
  name ≠ [] ∧ ∀ c ∈ name, alphabet.nameChar c = true

instance (alphabet : Alphabet) (name : List Char) : Decidable (IsName alphabet name) :=
  inferInstanceAs (Decidable (_ ∧ _))

/-- Whitespace may stand between the tokens, and a name goes as far as it can. -/
inductive Spells (alphabet : Alphabet) : List (Token (List Char)) → List Char → Prop
  | done : Spells alphabet [] []
  | space {tokens : List (Token (List Char))} {c : Char} {rest : List Char}
      (white : isWhitespace c = true) (later : Spells alphabet tokens rest) :
      Spells alphabet tokens (c :: rest)
  | symbol {tokens : List (Token (List Char))} {c : Char} {token : Token (List Char)}
      {rest : List Char} (sign : punctuation c = some token) (later : Spells alphabet tokens rest) :
      Spells alphabet (token :: tokens) (c :: rest)
  | name {tokens : List (Token (List Char))} {name rest : List Char} (named : IsName alphabet name)
      (ends : ∀ c ∈ rest.head?, alphabet.nameChar c = false)
      (later : Spells alphabet tokens rest) :
      Spells alphabet (.value name :: tokens) (name ++ rest)

theorem nameChar_apart {c : Char} (named : alphabet.nameChar c = true) :
    isWhitespace c = false ∧ c ∉ operators := by
  simp only [Alphabet.nameChar, Bool.or_eq_true, beq_iff_eq] at named
  rcases named with ((letter | rfl) | rfl) | rfl
  · exact alphabet.apart c letter
  all_goals decide

theorem punctuation_mem {α : Type} {c : Char} {token : Token α}
    (sign : punctuation c = some token) : c ∈ operators := by
  unfold punctuation at sign
  split at sign <;> simp_all [operators]

theorem punctuation_none {α : Type} {c : Char} (named : alphabet.nameChar c = true) :
    punctuation (α := α) c = none := by
  cases sign : punctuation (α := α) c with
  | none => rfl
  | some token => exact absurd (punctuation_mem sign) (nameChar_apart named).2

theorem operator_not_white {c : Char} (operator : c ∈ operators) : isWhitespace c = false := by
  simp only [operators, List.mem_cons, List.not_mem_nil, or_false] at operator
  rcases operator with rfl | rfl | rfl | rfl | rfl | rfl <;> decide

theorem punctuation_map {α β : Type} (f : α → β) (c : Char) :
    punctuation (α := β) c = (punctuation c).map (Token.map f) := by
  unfold punctuation
  split <;> rfl

local instance lawfulName : LawfulBEq (List Char) := inferInstance

def activeIn (active : List (List Char)) (name : List Char) : Bool := decide (name ∈ active)

theorem tokenizeProfile_of_spells (spells : Spells alphabet tokens text) :
    tokenizeProfile alphabet active text = some (tokens.map (Token.map (activeIn active))) := by
  induction spells with
  | done => simp [tokenizeProfile]
  | space white later ih => rw [tokenizeProfile, if_pos white, ih]
  | @symbol tokens c token rest sign later ih =>
    have dark := operator_not_white (punctuation_mem sign)
    have sign' : punctuation c = some (token.map (activeIn active)) := by
      rw [punctuation_map (activeIn active), sign]
      rfl
    simp [tokenizeProfile, dark, sign', ih]
  | @name tokens name rest named ends later ih =>
    cases name with
    | nil => exact absurd rfl named.1
    | cons c more =>
      have first := named.2 c (by simp)
      have others : ∀ d ∈ more, alphabet.nameChar d = true := fun d among => named.2 d (by simp [among])
      have stops : rest.takeWhile alphabet.nameChar = [] ∧ rest.dropWhile alphabet.nameChar = rest := by
        cases rest with
        | nil => simp
        | cons d rest => simp [ends d (by simp)]
      rw [List.cons_append, tokenizeProfile, if_neg (by simp [(nameChar_apart first).1]),
        punctuation_none first]
      simp [first, List.takeWhile_append_of_pos others, List.dropWhile_append_of_pos others, stops,
        ih, Token.map, activeIn]

theorem spells_of_tokenizeProfile {found : List ProfileToken}
    (tokenized : tokenizeProfile alphabet active text = some found) :
    ∃ tokens, Spells alphabet tokens text ∧ found = tokens.map (Token.map (activeIn active)) := by
  induction text using tokenizeProfile.induct alphabet generalizing found with
  | case1 =>
    rw [tokenizeProfile] at tokenized
    exact ⟨[], .done, (Option.some.inj tokenized).symm⟩
  | case2 c rest white ih =>
    rw [tokenizeProfile, if_pos white] at tokenized
    obtain ⟨tokens, spells, rfl⟩ := ih tokenized
    exact ⟨tokens, .space white spells, rfl⟩
  | case3 c rest dark token sign ih =>
    rw [tokenizeProfile, if_neg dark, sign] at tokenized
    obtain ⟨later, inner, rfl⟩ := Option.map_eq_some_iff.mp tokenized
    obtain ⟨tokens, spells, rfl⟩ := ih inner
    rw [punctuation_map (activeIn active)] at sign
    obtain ⟨written, sign', rfl⟩ := Option.map_eq_some_iff.mp sign
    exact ⟨written :: tokens, .symbol sign' spells, rfl⟩
  | case4 c rest dark sign named ih =>
    rw [tokenizeProfile, if_neg dark, sign, if_pos named] at tokenized
    obtain ⟨later, inner, rfl⟩ := Option.map_eq_some_iff.mp tokenized
    obtain ⟨tokens, spells, rfl⟩ := ih inner
    refine ⟨.value (c :: rest.takeWhile alphabet.nameChar) :: tokens, ?_, rfl⟩
    have whole : c :: rest = (c :: rest.takeWhile alphabet.nameChar) ++
        rest.dropWhile alphabet.nameChar := by
      rw [List.cons_append, List.takeWhile_append_dropWhile]
    rw [whole]
    refine .name ⟨by simp, ?_⟩ ?_ spells
    · intro d among
      rcases List.mem_cons.mp among with rfl | among
      · exact named
      · exact List.mem_takeWhile_imp among
    · intro d first
      have stopped := List.head?_dropWhile_not alphabet.nameChar rest
      rw [Option.mem_def.mp first] at stopped
      simpa using stopped
  | case5 c rest dark sign unnamed =>
    rw [tokenizeProfile, if_neg dark, sign, if_neg unnamed] at tokenized
    cases tokenized

end Spelling

section Parser

variable {α : Type} {f : α → Bool}

def Parsed (f : α → Bool) (level : Level) (before tokens : List (Token α))
    (result : Option (Bool × List ProfileToken)) : Prop :=
  ∀ value rest, result = some (value, rest) → ∃ formula taken left, tokens = taken ++ left ∧
    rest = left.map (Token.map f) ∧ Derives level formula (before ++ taken) ∧
    formula.eval f = value

-- One turn more: the connective and its right operand are taken, and the loop goes on.
theorem Parsed.more {level : Level} {before tokens taken left : List (Token α)}
    {connective : Token α} {result : Option (Bool × List ProfileToken)}
    (split : tokens = taken ++ left)
    (parsed : Parsed f level (before ++ connective :: taken) left result) :
    Parsed f level before (connective :: tokens) result := by
  intro value rest found
  obtain ⟨formula, further, left', rfl, rests, derives, evals⟩ := parsed value rest found
  exact ⟨formula, connective :: taken ++ further, left', by simp [split], rests,
    by simpa using derives, evals⟩

theorem Parsed.stop {level : Level} {before tokens : List (Token α)} {formula : Formula α}
    (derives : Derives level formula before) :
    Parsed f level before tokens (some (formula.eval f, tokens.map (Token.map f))) := by
  intro value rest found
  obtain ⟨rfl, rfl⟩ := Prod.mk.inj (Option.some.inj found)
  exact ⟨formula, [], tokens, rfl, rfl, by simpa using derives, rfl⟩

structure Sound (f : α → Bool) (fuel : Nat) : Prop where
  or : ∀ tokens, Parsed f .or [] tokens (parseOr fuel (tokens.map (Token.map f)))
  orRest : ∀ before formula tokens, Derives .or formula before →
    Parsed f .or before tokens (parseOrRest fuel (formula.eval f) (tokens.map (Token.map f)))
  and : ∀ tokens, Parsed f .and [] tokens (parseAnd fuel (tokens.map (Token.map f)))
  andRest : ∀ before formula tokens, Derives .and formula before →
    Parsed f .and before tokens (parseAndRest fuel (formula.eval f) (tokens.map (Token.map f)))
  unary : ∀ tokens, Parsed f .unary [] tokens (parseUnary fuel (tokens.map (Token.map f)))
  primary : ∀ tokens, Parsed f .unary [] tokens (parsePrimary fuel (tokens.map (Token.map f)))

theorem sound (f : α → Bool) (fuel : Nat) : Sound f fuel := by
  induction fuel with
  | zero => constructor <;> intros <;> intro value rest found <;> cases found
  | succ fuel ih =>
    refine ⟨?or, ?orRest, ?and, ?andRest, ?unary, ?primary⟩
    case or =>
      intro tokens value rest found
      rw [parseOr] at found
      cases first : parseAnd fuel (tokens.map (Token.map f)) with
      | none => simp [first] at found
      | some result =>
        obtain ⟨formula, taken, left, rfl, rests, derives, evals⟩ := ih.and tokens _ _ first
        rw [first] at found
        simp only [rests, ← evals] at found
        obtain ⟨whole, further, left', rfl, rests', derives', evals'⟩ :=
          ih.orRest taken formula left derives.conjunction value rest found
        exact ⟨whole, taken ++ further, left', by simp, rests', by simpa using derives', evals'⟩
    case orRest =>
      intro before formula tokens derives
      cases tokens with
      | nil => exact Parsed.stop derives
      | cons token tokens =>
        cases token with
        | or =>
          intro value rest found
          simp only [List.map_cons, Token.map, parseOrRest] at found
          cases operand : parseAnd fuel (tokens.map (Token.map f)) with
          | none => simp [operand] at found
          | some result =>
            obtain ⟨right, taken, left, split, rests, derives', evals⟩ := ih.and tokens _ _ operand
            rw [operand] at found
            simp only [rests, ← evals, ← eval_either] at found
            exact Parsed.more split (ih.orRest _ _ left (derives.or derives')) value rest found
        | _ => exact Parsed.stop derives
    case and =>
      intro tokens value rest found
      rw [parseAnd] at found
      cases first : parseUnary fuel (tokens.map (Token.map f)) with
      | none => simp [first] at found
      | some result =>
        obtain ⟨formula, taken, left, rfl, rests, derives, evals⟩ := ih.unary tokens _ _ first
        rw [first] at found
        simp only [rests, ← evals] at found
        obtain ⟨whole, further, left', rfl, rests', derives', evals'⟩ :=
          ih.andRest taken formula left derives.unary value rest found
        exact ⟨whole, taken ++ further, left', by simp, rests', by simpa using derives', evals'⟩
    case andRest =>
      intro before formula tokens derives
      cases tokens with
      | nil => exact Parsed.stop derives
      | cons token tokens =>
        cases token with
        | and =>
          intro value rest found
          simp only [List.map_cons, Token.map, parseAndRest] at found
          cases operand : parseUnary fuel (tokens.map (Token.map f)) with
          | none => simp [operand] at found
          | some result =>
            obtain ⟨right, taken, left, split, rests, derives', evals⟩ := ih.unary tokens _ _ operand
            rw [operand] at found
            simp only [rests, ← evals, ← eval_both] at found
            exact Parsed.more split (ih.andRest _ _ left (derives.and derives')) value rest found
        | _ => exact Parsed.stop derives
    case unary =>
      intro tokens value rest found
      cases tokens with
      | nil => exact ih.primary [] value rest found
      | cons token tokens =>
        cases token with
        | not =>
          simp only [List.map_cons, Token.map, parseUnary] at found
          cases operand : parseUnary fuel (tokens.map (Token.map f)) with
          | none => simp [operand] at found
          | some result =>
            obtain ⟨formula, taken, left, rfl, rests, derives, evals⟩ := ih.unary tokens _ _ operand
            rw [operand] at found
            obtain ⟨rfl, rfl⟩ := Prod.mk.inj (Option.some.inj found)
            exact ⟨.not formula, .not :: taken, left, rfl, rests, derives.not, by
              simp [Formula.eval, evals]⟩
        | _ => exact ih.primary _ value rest found
    case primary =>
      intro tokens value rest found
      cases tokens with
      | nil => simp [parsePrimary] at found
      | cons token tokens =>
        cases token with
        | lparen =>
          simp only [List.map_cons, Token.map, parsePrimary] at found
          split at found
          next inner rest' parsed =>
            obtain ⟨rfl, rfl⟩ := Prod.mk.inj (Option.some.inj found)
            obtain ⟨formula, taken, left, rfl, rests, derives, evals⟩ := ih.or tokens _ _ parsed
            cases left with
            | nil => cases rests
            | cons closing left =>
              obtain ⟨closes, tails⟩ := List.cons.inj rests
              cases closing <;> cases closes
              exact ⟨formula, .lparen :: (taken ++ [.rparen]), left, by simp, tails,
                by simpa using derives.paren, evals⟩
          next => cases found
        | value a =>
          simp only [List.map_cons, Token.map, parsePrimary] at found
          obtain ⟨rfl, rfl⟩ := Prod.mk.inj (Option.some.inj found)
          exact ⟨.test a, [.value a], tokens, rfl, rfl, .value a, rfl⟩
        | _ => simp [Token.map, parsePrimary] at found

variable {tokens : List (Token α)} {formula : Formula α}

theorem parseOrRest_stop {value : Bool} {rest : List ProfileToken} (stops : rest.head? ≠ some .or)
    {fuel : Nat} (enough : 1 ≤ fuel) : parseOrRest fuel value rest = some (value, rest) := by
  obtain ⟨fuel, rfl⟩ := Nat.exists_eq_add_of_le' enough
  cases rest with
  | nil => rfl
  | cons token rest => cases token <;> simp_all [parseOrRest]

theorem parseAndRest_stop {value : Bool} {rest : List ProfileToken} (stops : rest.head? ≠ some .and)
    {fuel : Nat} (enough : 1 ≤ fuel) : parseAndRest fuel value rest = some (value, rest) := by
  obtain ⟨fuel, rfl⟩ := Nat.exists_eq_add_of_le' enough
  cases rest with
  | nil => rfl
  | cons token rest => cases token <;> simp_all [parseAndRest]

-- An operand is taken whole; a chain of operands leaves its loop after `turns` of them.
def Accepts (f : α → Bool) (formula : Formula α) (tokens : List (Token α)) : Level → Prop
  | .unary => ∀ fuel rest, 4 * tokens.length ≤ fuel →
      parseUnary fuel (tokens.map (Token.map f) ++ rest) = some (formula.eval f, rest)
  | .and => ∃ turns, 1 ≤ turns ∧ turns ≤ tokens.length ∧ ∀ fuel rest, 4 * tokens.length + 1 ≤ fuel →
      parseAnd fuel (tokens.map (Token.map f) ++ rest) =
        parseAndRest (fuel - turns) (formula.eval f) rest
  | .or => ∃ turns, 1 ≤ turns ∧ turns ≤ tokens.length ∧ ∀ fuel rest, 4 * tokens.length + 2 ≤ fuel →
      rest.head? ≠ some .and → parseOr fuel (tokens.map (Token.map f) ++ rest) =
        parseOrRest (fuel - turns) (formula.eval f) rest

theorem Accepts.parseAnd (accepts : Accepts f formula tokens .and) {fuel : Nat}
    (enough : 4 * tokens.length + 1 ≤ fuel) {rest : List ProfileToken}
    (stops : rest.head? ≠ some .and) :
    parseAnd fuel (tokens.map (Token.map f) ++ rest) = some (formula.eval f, rest) := by
  obtain ⟨turns, some_turn, few, result⟩ := accepts
  rw [result fuel rest enough, parseAndRest_stop stops (by omega)]

theorem Accepts.parseOr (accepts : Accepts f formula tokens .or) {fuel : Nat}
    (enough : 4 * tokens.length + 2 ≤ fuel) {rest : List ProfileToken}
    (stops : rest.head? ≠ some .and) (stops' : rest.head? ≠ some .or) :
    parseOr fuel (tokens.map (Token.map f) ++ rest) = some (formula.eval f, rest) := by
  obtain ⟨turns, some_turn, few, result⟩ := accepts
  rw [result fuel rest enough stops, parseOrRest_stop stops' (by omega)]

theorem accepts_of_derives {level : Level} (derives : Derives level formula tokens) :
    Accepts f formula tokens level := by
  induction derives with
  | value a =>
    intro fuel rest enough
    obtain ⟨fuel, rfl⟩ := Nat.exists_eq_add_of_le' (show 2 ≤ fuel by simp at enough; omega)
    rfl
  | @paren formula tokens inner ih =>
    intro fuel rest enough
    have long : (Token.lparen :: (tokens ++ [.rparen])).length = tokens.length + 2 := by simp
    rw [long] at enough
    obtain ⟨fuel, rfl⟩ := Nat.exists_eq_add_of_le' (show 2 ≤ fuel by omega)
    have inside : Profile.parseOr fuel (tokens.map (Token.map f) ++ .rparen :: rest) =
        some (formula.eval f, .rparen :: rest) :=
      Accepts.parseOr ih (by omega) (by simp) (by simp)
    simp [Token.map, Profile.parseUnary, Profile.parsePrimary, inside]
  | @not formula tokens operand ih =>
    intro fuel rest enough
    rw [List.length_cons] at enough
    obtain ⟨fuel, rfl⟩ := Nat.exists_eq_add_of_le' (show 1 ≤ fuel by omega)
    simp [Token.map, Profile.parseUnary, ih fuel rest (by omega), Formula.eval]
  | @unary formula tokens only ih =>
    have present : tokens.length ≠ 0 := by simpa using only.ne_nil
    refine ⟨1, le_rfl, by omega, fun fuel rest enough => ?_⟩
    obtain ⟨fuel, rfl⟩ := Nat.exists_eq_add_of_le' (show 1 ≤ fuel by omega)
    simp [Profile.parseAnd, ih fuel rest (by omega)]
  | @and left right tokens tokens' first last ih ih' =>
    obtain ⟨turns, some_turn, few, result⟩ := ih
    refine ⟨turns + 1, by omega, by simp; omega, fun fuel rest enough => ?_⟩
    rw [List.length_append, List.length_cons] at enough
    -- the turn that takes the right operand
    obtain ⟨spent, left_over⟩ := Nat.exists_eq_add_of_le' (show 1 ≤ fuel - turns by omega)
    have taken := ih' spent rest (by omega)
    rw [List.map_append, List.append_assoc, result fuel _ (by omega), left_over]
    simp [Token.map, Profile.parseAndRest, taken, show fuel - (turns + 1) = spent by omega]
  | @conjunction formula tokens only ih =>
    have present : tokens.length ≠ 0 := by simpa using only.ne_nil
    refine ⟨1, le_rfl, by omega, fun fuel rest enough stops => ?_⟩
    obtain ⟨fuel, rfl⟩ := Nat.exists_eq_add_of_le' (show 1 ≤ fuel by omega)
    simp [Profile.parseOr, Accepts.parseAnd ih (show 4 * tokens.length + 1 ≤ fuel by omega) stops]
  | @or left right tokens tokens' first last ih ih' =>
    obtain ⟨turns, some_turn, few, result⟩ := ih
    refine ⟨turns + 1, by omega, by simp; omega, fun fuel rest enough stops => ?_⟩
    rw [List.length_append, List.length_cons] at enough
    obtain ⟨spent, left_over⟩ := Nat.exists_eq_add_of_le' (show 1 ≤ fuel - turns by omega)
    have taken := Accepts.parseAnd ih' (show 4 * tokens'.length + 1 ≤ spent by omega) stops
    rw [List.map_append, List.append_assoc, result fuel _ (by omega) (by simp [Token.map]), left_over]
    simp [Token.map, Profile.parseOrRest, taken, show fuel - (turns + 1) = spent by omega]

theorem parseOr_whole (derives : Derives .or formula tokens) :
    parseOr (parseFuel tokens) (tokens.map (Token.map f)) = some (formula.eval f, []) := by
  have whole : parseOr (parseFuel tokens) (tokens.map (Token.map f) ++ []) =
      some (formula.eval f, []) :=
    Accepts.parseOr (accepts_of_derives derives) (by simp [parseFuel]) (by simp) (by simp)
  simpa using whole

end Parser

end Firefly.Config.Profile
