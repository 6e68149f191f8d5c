import Firefly.Config.ProfileParsing
import Firefly.Container.Condition

set_option autoImplicit false

namespace Firefly.Config.Profile

open Text BoolGrammar Formulas
open Container.Condition (ConditionContext toAsciiLowercase evalProfileAtom)

inductive IsToken (alphabet : Alphabet) (piece : List Char) : Formula (List Char) → Prop
  | plain (named : IsName alphabet (trim piece)) : IsToken alphabet piece (.test (trim piece))
  | negated {rest : List Char} (marked : trim piece = '!' :: rest)
      (named : IsName alphabet (trim rest)) : IsToken alphabet piece (.not (.test (trim rest)))

inductive Form (alphabet : Alphabet) (text : List Char) : Formula (List Char) → Prop
  | single {formula : Formula (List Char)} (token : IsToken alphabet text formula) :
      Form alphabet text formula
  | list {formulas : List (Formula (List Char))}
      (tokens : List.Forall₂ (IsToken alphabet) (text.splitOn ',') formulas) :
      Form alphabet text (.any formulas)
  | boolean {tokens : List (Token (List Char))} {formula : Formula (List Char)}
      (spells : Spells alphabet tokens text) (derives : Derives .or formula tokens) :
      Form alphabet text formula

def Grammatical (alphabet : Alphabet) (expr : List Char) (formula : Formula (List Char)) : Prop :=
  Form alphabet (trim expr) formula

def LowerCase (chars : List Char) : Prop := toAsciiLowercase chars = chars

instance (chars : List Char) : Decidable (LowerCase chars) :=
  inferInstanceAs (Decidable (_ = _))

structure Means (alphabet : Alphabet) (active : List (List Char)) (expr : List Char) : Prop where
  denotes : acceptsProfiles alphabet active [expr] = true ↔
    ∃ formula, Grammatical alphabet expr formula ∧ formula.eval (activeIn active) = true
  agrees : ∀ formula, Grammatical alphabet expr formula → trim expr ≠ [] → LowerCase expr →
    (∀ profile ∈ active, trim profile = profile ∧ LowerCase profile) →
    (ConditionContext.withProfiles active).acceptsProfiles expr =
      acceptsProfiles alphabet active [expr]

def WellFormed (alphabet : Alphabet) (piece : List Char) : Prop :=
  match trim piece with
  | '!' :: rest => IsName alphabet (trim rest)
  | name => IsName alphabet name

def Unmatched (active : List (List Char)) (piece : List Char) : Prop :=
  match trim piece with
  | '!' :: rest => trim rest ∈ active
  | profile => profile ∉ active

def TrueChain (alphabet : Alphabet) (active : List (List Char)) (text : List Char) : Prop :=
  ∃ count name, Spells alphabet (List.replicate count .not ++ [.value name]) text ∧
    (name ∈ active ↔ count % 2 = 0)

/-- A comma list with negations is read alike by both crates: through a plain name, or when it has
a negation of an inactive name exactly if it has one that is, sign and all, an active profile. -/
def NegationsAgree (active : List (List Char)) (text : List Char) : Prop :=
  (∃ piece ∈ text.splitOn ',', trim piece ∈ active ∧ ∀ rest, trim piece ≠ '!' :: rest) ∨
    ((∃ piece ∈ text.splitOn ',', ∃ rest, trim piece = '!' :: rest ∧ trim rest ∉ active) ↔
      ∃ piece ∈ text.splitOn ',', ∃ rest, trim piece = '!' :: rest ∧ trim piece ∈ active)

def SingleSound (alphabet : Alphabet) (active : List (List Char)) (text : List Char) : Prop :=
  match text with
  | '!' :: rest => trim rest ∈ active ↔ ¬ TrueChain alphabet active text
  | profile => profile ∉ active

def MeansWhen (alphabet : Alphabet) (active : List (List Char)) (expr : List Char) : Prop :=
  let text := trim expr
  if booleanForm text then True
  else if text.contains ',' then
    ((∀ piece ∈ text.splitOn ',', WellFormed alphabet piece) → LowerCase expr →
      (∀ profile ∈ active, trim profile = profile ∧ LowerCase profile) →
      NegationsAgree active text) ∧
    ((∃ piece ∈ text.splitOn ',', ¬ WellFormed alphabet piece) →
      ∀ piece ∈ text.splitOn ',', trim piece ≠ [] → Unmatched active piece)
  else WellFormed alphabet text ∨ SingleSound alphabet active text

section Tokens

variable {alphabet : Alphabet} {active : List (List Char)} {piece text : List Char}
  {formula : Formula (List Char)} {tokens : List (Token (List Char))}

theorem bang_not_name : ¬ alphabet.nameChar '!' = true := by
  intro named
  exact (nameChar_apart named).2 (by decide)

theorem wellFormed_iff : WellFormed alphabet piece ↔ ∃ formula, IsToken alphabet piece formula := by
  unfold WellFormed
  constructor
  · intro named
    split at named
    next rest marked => exact ⟨_, .negated marked named⟩
    next => exact ⟨_, .plain named⟩
  · rintro ⟨formula, named | ⟨marked, named⟩⟩
    · split
      next rest marked =>
        rw [marked] at named
        exact absurd (named.2 '!' (by simp)) bang_not_name
      next => exact named
    · rw [marked]
      exact named

theorem matchesSingle_token (token : IsToken alphabet piece formula) :
    matchesSingle active piece = formula.eval (activeIn active) := by
  cases token with
  | plain named =>
    unfold matchesSingle
    split
    next rest marked =>
      rw [marked] at named
      exact absurd (named.2 '!' (by simp)) bang_not_name
    next => rfl
  | negated marked named => simp [matchesSingle, marked, Formula.eval, activeIn]

theorem matchesSingle_unmatched : Unmatched active piece ↔ matchesSingle active piece = false := by
  unfold Unmatched matchesSingle
  cases trim piece with
  | nil => simp
  | cons c rest =>
    by_cases bang : c = '!'
    · subst bang
      simp
    · simp [bang]

@[simp] theorem matchesSingle_trim (piece : List Char) :
    matchesSingle active (trim piece) = matchesSingle active piece := by
  simp [matchesSingle]

theorem token_present (token : IsToken alphabet piece formula) : trim piece ≠ [] := by
  cases token with
  | plain named => exact named.1
  | negated marked named => simp [marked]

theorem token_operators (token : IsToken alphabet piece formula) {c : Char} (operator : c ∈ operators)
    (other : c ≠ '!') : c ∉ piece := by
  intro among
  have dark := operator_not_white operator
  have inside := mem_trim among dark
  cases token with
  | plain named => exact (nameChar_apart (named.2 c inside)).2 operator
  | negated marked named =>
    rw [marked] at inside
    rcases List.mem_cons.mp inside with rfl | inside
    · exact other rfl
    · exact (nameChar_apart (named.2 c (mem_trim inside dark))).2 operator

theorem Spells.white {before : List Char} (white : ∀ c ∈ before, isWhitespace c = true)
    (spells : Spells alphabet tokens text) : Spells alphabet tokens (before ++ text) := by
  induction before with
  | nil => exact spells
  | cons c rest ih => exact .space (white c (by simp)) (ih fun d among => white d (by simp [among]))

theorem spells_name {before name after : List Char} (named : IsName alphabet name)
    (white : ∀ c ∈ before, isWhitespace c = true) (white' : ∀ c ∈ after, isWhitespace c = true) :
    Spells alphabet [.value name] (before ++ (name ++ after)) := by
  refine .white white (.name named ?_ ?_)
  · intro c first
    have here := white' c (List.mem_of_head? first)
    by_contra odd
    simp [(nameChar_apart (Bool.not_eq_false _ ▸ odd)).1] at here
  · simpa using Spells.white white' .done

theorem token_spells (token : IsToken alphabet piece formula) :
    ∃ tokens, Spells alphabet tokens piece ∧ Derives .unary formula tokens := by
  obtain ⟨before, after, split, white, white'⟩ := trim_split piece
  cases token with
  | plain named =>
    refine ⟨[.value (trim piece)], ?_, .value _⟩
    have spells := spells_name named white white'
    rwa [← List.append_assoc, ← split] at spells
  | @negated rest marked named =>
    obtain ⟨before', after', split', white₁, white₂⟩ := trim_split rest
    refine ⟨[.not, .value (trim rest)], ?_, .not (.value _)⟩
    have spells : Spells alphabet [.value (trim rest)]
        (before' ++ (trim rest ++ (after' ++ after))) := by
      refine spells_name named white₁ fun c among => ?_
      rcases List.mem_append.mp among with left | right
      · exact white₂ c left
      · exact white' c right
    have signed : Spells alphabet [.not, .value (trim rest)] ('!' :: (rest ++ after)) := by
      have split_rest : rest ++ after = before' ++ (trim rest ++ (after' ++ after)) := by
        conv_lhs => rw [split']
        simp
      exact .symbol rfl (split_rest ▸ spells)
    rw [split, marked]
    simpa using signed.white white

theorem spells_mem (spells : Spells alphabet tokens text) {c : Char} (among : c ∈ text) :
    isWhitespace c = true ∨ (∃ token ∈ tokens, punctuation c = some token) ∨
      alphabet.nameChar c = true := by
  induction spells with
  | done => cases among
  | space white later ih =>
    rcases List.mem_cons.mp among with rfl | among
    · exact .inl white
    · exact ih among
  | symbol sign later ih =>
    rcases List.mem_cons.mp among with rfl | among
    · exact .inr (.inl ⟨_, by simp, sign⟩)
    · rcases ih among with white | ⟨token, inside, sign'⟩ | named
      · exact .inl white
      · exact .inr (.inl ⟨token, by simp [inside], sign'⟩)
      · exact .inr (.inr named)
  | name named ends later ih =>
    rcases List.mem_append.mp among with inside | among
    · exact .inr (.inr (named.2 c inside))
    · rcases ih among with white | ⟨token, inside, sign'⟩ | named
      · exact .inl white
      · exact .inr (.inl ⟨token, by simp [inside], sign'⟩)
      · exact .inr (.inr named)

theorem spells_no_comma (spells : Spells alphabet tokens text) : ',' ∉ text := by
  intro among
  rcases spells_mem spells among with white | ⟨token, -, sign⟩ | named
  · exact absurd white (by decide)
  · cases sign
  · exact (nameChar_apart named).2 (by decide)

theorem spells_token (spells : Spells alphabet tokens text) {token : Token (List Char)}
    (among : token ∈ tokens) :
    (∃ c ∈ text, punctuation c = some token) ∨
      ∃ name, token = .value name ∧ IsName alphabet name ∧ ∀ c ∈ name, c ∈ text := by
  induction spells with
  | done => cases among
  | space white later ih =>
    rcases ih among with ⟨c, inside, sign⟩ | ⟨name, same, named, inside⟩
    · exact .inl ⟨c, by simp [inside], sign⟩
    · exact .inr ⟨name, same, named, fun c here => by simp [inside c here]⟩
  | symbol sign later ih =>
    rcases List.mem_cons.mp among with rfl | among
    · exact .inl ⟨_, by simp, sign⟩
    · rcases ih among with ⟨c, inside, sign⟩ | ⟨name, same, named, inside⟩
      · exact .inl ⟨c, by simp [inside], sign⟩
      · exact .inr ⟨name, same, named, fun c here => by simp [inside c here]⟩
  | @name tokens name rest named ends later ih =>
    rcases List.mem_cons.mp among with rfl | among
    · exact .inr ⟨name, rfl, named, fun c here => by simp [here]⟩
    · rcases ih among with ⟨c, inside, sign⟩ | ⟨name, same, named, inside⟩
      · exact .inl ⟨c, by simp [inside], sign⟩
      · exact .inr ⟨name, same, named, fun c here => by simp [inside c here]⟩

theorem spelled_value {tokens' : List (Token (List Char))} {formula' : Formula (List Char)}
    (spells : Spells alphabet tokens text) (derives : Derives .or formula tokens)
    (spells' : Spells alphabet tokens' text) (derives' : Derives .or formula' tokens') :
    formula.eval (activeIn active) = formula'.eval (activeIn active) := by
  have same : tokens.map (Token.map (activeIn active)) = tokens'.map (Token.map (activeIn active)) :=
    Option.some.inj ((tokenizeProfile_of_spells spells).symm.trans (tokenizeProfile_of_spells spells'))
  have long : parseFuel tokens = parseFuel tokens' := by
    have lengths := congrArg List.length same
    simpa [parseFuel] using lengths
  have value := parseOr_whole (f := activeIn active) derives
  rw [same, long, parseOr_whole derives'] at value
  exact (Prod.mk.inj (Option.some.inj value)).1.symm

end Tokens

section Shapes

variable {alphabet : Alphabet} {active : List (List Char)} {expr text : List Char}
  {formula : Formula (List Char)}

theorem accepts_one : acceptsProfiles alphabet active [expr] =
    matchesProfileExpression alphabet active expr := by
  simp [acceptsProfiles]

theorem mem_splitOn {c : Char} (among : c ∈ text) (other : c ≠ ',') :
    ∃ piece ∈ text.splitOn ',', c ∈ piece := by
  rw [List.splitOn_eq_splitOnP]
  induction text with
  | nil => cases among
  | cons d rest ih =>
    obtain ⟨head, tail, cut⟩ := List.exists_cons_of_ne_nil (List.splitOnP_ne_nil (· == ',') rest)
    rw [List.splitOnP_cons_eq_if_modifyHead, cut]
    by_cases comma : d = ','
    · have later : c ∈ rest := by
        rcases List.mem_cons.mp among with rfl | later
        · exact absurd comma other
        · exact later
      obtain ⟨piece, inside, there⟩ := ih later
      exact ⟨piece, by simp [comma, ← cut, inside], there⟩
    · rcases List.mem_cons.mp among with rfl | later
      · exact ⟨c :: head, by simp [comma], by simp⟩
      · obtain ⟨piece, inside, there⟩ := ih later
        rw [cut] at inside
        rcases List.mem_cons.mp inside with rfl | inside
        · exact ⟨d :: piece, by simp [comma], by simp [there]⟩
        · exact ⟨piece, by simp [comma, inside], there⟩

theorem mem_of_mem_splitOn {piece : List Char} (inside : piece ∈ text.splitOn ',') {c : Char}
    (among : c ∈ piece) : c ∈ text := by
  rw [List.splitOn_eq_splitOnP] at inside
  induction text generalizing piece with
  | nil =>
    obtain rfl : piece = [] := by simpa using inside
    cases among
  | cons d rest ih =>
    obtain ⟨head, tail, cut⟩ := List.exists_cons_of_ne_nil (List.splitOnP_ne_nil (· == ',') rest)
    rw [List.splitOnP_cons_eq_if_modifyHead, cut] at inside
    rw [cut] at ih
    by_cases comma : d = ','
    · rw [if_pos (by simp [comma])] at inside
      rcases List.mem_cons.mp inside with rfl | inside
      · cases among
      · exact List.mem_cons_of_mem _ (ih inside among)
    · rw [if_neg (by simp [comma]), List.modifyHead_cons] at inside
      rcases List.mem_cons.mp inside with rfl | inside
      · rcases List.mem_cons.mp among with rfl | among
        · exact List.mem_cons_self
        · exact List.mem_cons_of_mem _ (ih List.mem_cons_self among)
      · exact List.mem_cons_of_mem _ (ih (List.mem_cons_of_mem _ inside) among)

theorem list_wellFormed {parts : List (List Char)} {formulas : List (Formula (List Char))}
    (tokens : List.Forall₂ (IsToken alphabet) parts formulas) :
    ∀ piece ∈ parts, WellFormed alphabet piece := by
  induction tokens with
  | nil => simp
  | @cons piece formula parts formulas token _ ih =>
    intro other inside
    rcases List.mem_cons.mp inside with rfl | inside
    · exact wellFormed_iff.mpr ⟨formula, token⟩
    · exact ih other inside

theorem list_value {parts : List (List Char)} {formulas : List (Formula (List Char))}
    (tokens : List.Forall₂ (IsToken alphabet) parts formulas) :
    (Formula.any formulas).eval (activeIn active) = parts.any (matchesSingle active) := by
  induction tokens with
  | nil => rfl
  | @cons piece formula parts formulas token _ ih =>
    rw [List.any_cons, matchesSingle_token token, ← ih]
    rfl

theorem exists_formulas {parts : List (List Char)}
    (wellFormed : ∀ piece ∈ parts, WellFormed alphabet piece) :
    ∃ formulas, List.Forall₂ (IsToken alphabet) parts formulas := by
  induction parts with
  | nil => exact ⟨[], .nil⟩
  | cons piece parts ih =>
    obtain ⟨formulas, tokens⟩ := ih fun other inside => wellFormed other (by simp [inside])
    obtain ⟨formula, token⟩ := wellFormed_iff.mp (wellFormed piece (by simp))
    exact ⟨formula :: formulas, .cons token tokens⟩

theorem booleanForm_iff : booleanForm text = true ↔ '&' ∈ text ∨ '|' ∈ text ∨ '(' ∈ text := by
  simp [booleanForm, or_assoc]

theorem form_boolean (form : Form alphabet text formula) (shape : booleanForm text = true) :
    ∃ tokens, Spells alphabet tokens text ∧ Derives .or formula tokens := by
  obtain ⟨c, operator, other, other', among⟩ :
      ∃ c ∈ operators, c ≠ '!' ∧ c ≠ ',' ∧ c ∈ text := by
    rcases booleanForm_iff.mp shape with here | here | here
    all_goals exact ⟨_, by decide, by decide, by decide, here⟩
  cases form with
  | single token => exact absurd among (token_operators token operator other)
  | list tokens =>
    obtain ⟨piece, inside, there⟩ := mem_splitOn among other'
    obtain ⟨formula, token⟩ := wellFormed_iff.mp (list_wellFormed tokens piece inside)
    exact absurd there (token_operators token operator other)
  | boolean spells derives => exact ⟨_, spells, derives⟩

theorem evalBooleanProfile_iff : evalBooleanProfile alphabet active text = true ↔
    ∃ formula tokens, Spells alphabet tokens text ∧ Derives .or formula tokens ∧
      formula.eval (activeIn active) = true := by
  constructor
  · intro accepted
    unfold evalBooleanProfile at accepted
    split at accepted
    next => cases accepted
    next found tokenized =>
      obtain ⟨tokens, spells, rfl⟩ := spells_of_tokenizeProfile tokenized
      split at accepted
      next value parsed =>
        obtain ⟨formula, taken, left, rfl, rests, derives, rfl⟩ :=
          (sound (activeIn active) _).or tokens value [] parsed
        obtain rfl : left = [] := by simpa using rests.symm
        exact ⟨formula, taken, by simpa using spells, by simpa using derives, accepted⟩
      next => cases accepted
  · rintro ⟨formula, tokens, spells, derives, holds⟩
    have same : parseFuel (tokens.map (Token.map (activeIn active))) = parseFuel tokens := by
      simp [parseFuel]
    simp [evalBooleanProfile, tokenizeProfile_of_spells spells, same, parseOr_whole derives, holds]

theorem plain_form (active : List (List Char)) (form : Form alphabet text formula)
    (comma : ',' ∉ text) :
    ∃ formula' tokens, Spells alphabet tokens text ∧ Derives .or formula' tokens ∧
      formula'.eval (activeIn active) = formula.eval (activeIn active) := by
  cases form with
  | single token =>
    obtain ⟨tokens, spells, derives⟩ := token_spells token
    exact ⟨formula, tokens, spells, derives.unary.conjunction, rfl⟩
  | @list formulas tokens =>
    have whole : text.splitOn ',' = [text] := by
      rw [List.splitOn_eq_splitOnP]
      refine List.splitOnP_eq_singleton fun c among => ?_
      simpa using fun same : c = ',' => comma (same ▸ among)
    rw [whole] at tokens
    obtain ⟨formula, token⟩ := wellFormed_iff.mp (list_wellFormed tokens text (by simp))
    obtain ⟨tokens', spells, derives⟩ := token_spells token
    refine ⟨formula, tokens', spells, derives.unary.conjunction, ?_⟩
    rw [list_value tokens, ← matchesSingle_token token]
    simp
  | boolean spells derives => exact ⟨formula, _, spells, derives, rfl⟩

theorem form_value {formula' : Formula (List Char)} (form : Form alphabet text formula)
    (form' : Form alphabet text formula') (comma : ',' ∉ text) :
    formula.eval (activeIn active) = formula'.eval (activeIn active) := by
  obtain ⟨_, _, spells, derives, same⟩ := plain_form active form comma
  obtain ⟨_, _, spells', derives', same'⟩ := plain_form active form' comma
  rw [← same, ← same', spelled_value spells derives spells' derives']

theorem lowerCase_iff : LowerCase text ↔ ∀ c ∈ text, c.toLower = c := by
  rw [LowerCase, toAsciiLowercase]
  conv_lhs =>
    rhs
    rw [← List.map_id text]
  exact List.map_inj_left

theorem lower_of_mem {name : List Char} (lower : LowerCase text) (inside : ∀ c ∈ name, c ∈ text) :
    LowerCase name :=
  lowerCase_iff.mpr fun c among => lowerCase_iff.mp lower c (inside c among)

theorem atom_value (kept : ∀ profile ∈ active, trim profile = profile ∧ LowerCase profile)
    {name : List Char} (present : name ≠ []) (lower : LowerCase name) :
    evalProfileAtom (ConditionContext.withProfiles active).profiles name = activeIn active name := by
  have same : active.map (fun p => toAsciiLowercase (trim p)) = active := by
    conv_rhs => rw [← List.map_id active]
    refine List.map_congr_left fun p among => ?_
    rw [(kept p among).1]
    exact (kept p among).2
  rw [Bool.eq_iff_iff, evalProfileAtom, List.any_eq_true, activeIn, decide_eq_true_eq,
    ConditionContext.withProfiles, same]
  constructor
  · rintro ⟨profile, among, equal⟩
    have inside := (List.mem_filter.mp among).1
    have named : toAsciiLowercase profile = toAsciiLowercase name := by
      simpa [Container.Condition.eqIgnoreAsciiCase] using equal
    rw [(kept profile inside).2, lower] at named
    exact named ▸ inside
  · intro inside
    exact ⟨name, List.mem_filter.mpr ⟨inside, by simpa using present⟩,
      by simp [Container.Condition.eqIgnoreAsciiCase]⟩

theorem container_value {tokens : List (Token (List Char))} (spells : Spells alphabet tokens (trim expr))
    (derives : Derives .or formula tokens) (present : trim expr ≠ []) (lower : LowerCase expr)
    (kept : ∀ profile ∈ active, trim profile = profile ∧ LowerCase profile) :
    (ConditionContext.withProfiles active).acceptsProfiles expr =
      formula.eval (activeIn active) := by
  have comma : (trim expr).contains ',' = false := by simpa using spells_no_comma spells
  have same : tokens.map (Token.map (evalProfileAtom (ConditionContext.withProfiles active).profiles)) =
      tokens.map (Token.map (activeIn active)) := by
    refine List.map_congr_left fun token among => ?_
    cases token with
    | value name =>
      rcases spells_token spells among with ⟨c, -, sign⟩ | ⟨_, ⟨⟩, named, inside⟩
      · unfold punctuation at sign
        split at sign <;> cases sign
      · have lower_name := lower_of_mem lower fun c here => mem_of_mem_trim (inside c here)
        rw [Token.map, Token.map, atom_value kept named.1 lower_name]
    | _ => rfl
  have value := parseOr_whole
    (f := evalProfileAtom (ConditionContext.withProfiles active).profiles) derives
  rw [same, parseOr_whole derives] at value
  rw [ConditionContext.acceptsProfiles]
  simp only [present, if_false, Container.Condition.evalProfileExpr, trim_trim, comma, Bool.and_false,
    Bool.false_eq_true, if_false, Container.Condition.tokenizeProfile_of_spells spells derives,
    Container.Condition.parseOr_of_derives derives]
  exact (Prod.mk.inj (Option.some.inj value)).1.symm

theorem boolean_means (shape : booleanForm (trim expr) = true) : Means alphabet active expr := by
  have accepts : acceptsProfiles alphabet active [expr] = true ↔
      ∃ formula tokens, Spells alphabet tokens (trim expr) ∧ Derives .or formula tokens ∧
        formula.eval (activeIn active) = true := by
    rw [accepts_one, ← evalBooleanProfile_iff]
    simp [matchesProfileExpression, shape]
  constructor
  · rw [accepts]
    constructor
    · rintro ⟨formula, tokens, spells, derives, holds⟩
      exact ⟨formula, .boolean spells derives, holds⟩
    · rintro ⟨formula, form, holds⟩
      obtain ⟨tokens, spells, derives⟩ := form_boolean form shape
      exact ⟨formula, tokens, spells, derives, holds⟩
  · intro formula form present lower kept
    obtain ⟨tokens, spells, derives⟩ := form_boolean form shape
    rw [container_value spells derives present lower kept, Bool.eq_iff_iff, accepts]
    constructor
    · intro holds
      exact ⟨formula, tokens, spells, derives, holds⟩
    · rintro ⟨formula', tokens', spells', derives', holds⟩
      rw [spelled_value spells derives spells' derives', holds]

theorem list_accepts (shape : booleanForm (trim expr) = false) (comma : ',' ∈ trim expr) :
    acceptsProfiles alphabet active [expr] = true ↔
      ∃ piece ∈ (trim expr).splitOn ',', trim piece ≠ [] ∧ matchesSingle active piece = true := by
  rw [accepts_one]
  simp [matchesProfileExpression, shape, comma, pieces, List.any_eq_true]

theorem list_container (shape : booleanForm (trim expr) = false) (comma : ',' ∈ trim expr)
    (present : trim expr ≠ []) (lower : LowerCase expr)
    (kept : ∀ profile ∈ active, trim profile = profile ∧ LowerCase profile) :
    (ConditionContext.withProfiles active).acceptsProfiles expr = true ↔
      ∃ piece ∈ (trim expr).splitOn ',', trim piece ≠ [] ∧ trim piece ∈ active := by
  have listed : (trim expr).contains ',' = true := by simpa using comma
  have atoms : ∀ piece ∈ (trim expr).splitOn ',', trim piece ≠ [] →
      evalProfileAtom (ConditionContext.withProfiles active).profiles (trim piece) =
        activeIn active (trim piece) := by
    intro piece inside some_name
    refine atom_value kept some_name (lower_of_mem lower fun c among => ?_)
    exact mem_of_mem_trim (mem_of_mem_splitOn inside (mem_of_mem_trim among))
  simp only [ConditionContext.acceptsProfiles, Container.Condition.evalProfileExpr, present, if_false,
    trim_trim, shape, listed, Bool.not_false, Bool.and_self, if_true, pieces, List.any_eq_true,
    List.mem_filter, List.mem_map, decide_eq_true_eq]
  constructor
  · rintro ⟨_, ⟨⟨piece, inside, rfl⟩, some_name⟩, found⟩
    rw [atoms piece inside some_name] at found
    exact ⟨piece, inside, some_name, by simpa [activeIn] using found⟩
  · rintro ⟨piece, inside, some_name, found⟩
    exact ⟨_, ⟨⟨piece, inside, rfl⟩, some_name⟩, by
      rw [atoms piece inside some_name]
      simpa [activeIn] using found⟩

theorem list_form (comma : ',' ∈ trim expr) (form : Form alphabet (trim expr) formula) :
    ∃ formulas, formula = .any formulas ∧
      List.Forall₂ (IsToken alphabet) ((trim expr).splitOn ',') formulas := by
  cases form with
  | single token => exact absurd comma (token_operators token (by decide) (by decide))
  | list tokens => exact ⟨_, rfl, tokens⟩
  | boolean spells derives => exact absurd comma (spells_no_comma spells)

theorem exists_piece_iff {parts : List (List Char)} (P : List Char → Prop) :
    (∃ piece ∈ parts, P piece) ↔
      (∃ piece ∈ parts, P piece ∧ ∀ rest, trim piece ≠ '!' :: rest) ∨
      ∃ piece ∈ parts, ∃ rest, trim piece = '!' :: rest ∧ P piece := by
  constructor
  · rintro ⟨piece, inside, holds⟩
    by_cases negated : ∃ rest, trim piece = '!' :: rest
    · obtain ⟨rest, marked⟩ := negated
      exact .inr ⟨piece, inside, rest, marked, holds⟩
    · exact .inl ⟨piece, inside, holds, not_exists.mp negated⟩
  · rintro (⟨piece, inside, holds, -⟩ | ⟨piece, inside, -, -, holds⟩)
    · exact ⟨piece, inside, holds⟩
    · exact ⟨piece, inside, holds⟩

theorem matchesSingle_plain {piece : List Char} (unmarked : ∀ rest, trim piece ≠ '!' :: rest) :
    matchesSingle active piece = true ↔ trim piece ∈ active := by
  unfold matchesSingle
  split
  next rest marked => exact absurd marked (unmarked rest)
  next => simp

theorem or_agree {plain literal negated : Prop} :
    ((plain ∨ literal) ↔ (plain ∨ negated)) ↔ plain ∨ (negated ↔ literal) := by
  by_cases here : plain
  · simp [here]
  · simp [here, iff_comm]

theorem list_means (shape : booleanForm (trim expr) = false) (comma : ',' ∈ trim expr)
    (wellFormed : ∀ piece ∈ (trim expr).splitOn ',', WellFormed alphabet piece) :
    Means alphabet active expr ↔ (LowerCase expr →
      (∀ profile ∈ active, trim profile = profile ∧ LowerCase profile) →
      NegationsAgree active (trim expr)) := by
  obtain ⟨formulas, tokens⟩ := exists_formulas wellFormed
  have present : ∀ piece ∈ (trim expr).splitOn ',', trim piece ≠ [] := by
    intro piece inside
    obtain ⟨formula, token⟩ := wellFormed_iff.mp (wellFormed piece inside)
    exact token_present token
  have accepts : acceptsProfiles alphabet active [expr] = true ↔
      ∃ piece ∈ (trim expr).splitOn ',', matchesSingle active piece = true := by
    rw [list_accepts shape comma]
    exact exists_congr fun piece => and_congr_right fun inside => by simp [present piece inside]
  have denotes : acceptsProfiles alphabet active [expr] = true ↔
      ∃ formula, Grammatical alphabet expr formula ∧ formula.eval (activeIn active) = true := by
    rw [accepts]
    constructor
    · intro found
      refine ⟨_, .list tokens, ?_⟩
      rw [list_value tokens, List.any_eq_true]
      exact found
    · rintro ⟨formula, form, holds⟩
      obtain ⟨formulas', rfl, tokens'⟩ := list_form comma form
      rwa [list_value tokens', List.any_eq_true] at holds
  have some_text : trim expr ≠ [] := List.ne_nil_of_mem comma
  have agree : LowerCase expr → (∀ profile ∈ active, trim profile = profile ∧ LowerCase profile) →
      ((ConditionContext.withProfiles active).acceptsProfiles expr =
        acceptsProfiles alphabet active [expr] ↔ NegationsAgree active (trim expr)) := by
    intro lower kept
    have container : (ConditionContext.withProfiles active).acceptsProfiles expr = true ↔
        ∃ piece ∈ (trim expr).splitOn ',', trim piece ∈ active := by
      rw [list_container shape comma some_text lower kept]
      exact exists_congr fun piece => and_congr_right fun inside => by simp [present piece inside]
    -- plain pieces are read alike: only the negated ones can tell the crates apart
    rw [Bool.eq_iff_iff, container, accepts, exists_piece_iff,
      exists_piece_iff (matchesSingle active · = true)]
    have plains : (∃ piece ∈ (trim expr).splitOn ',', matchesSingle active piece = true ∧
          ∀ rest, trim piece ≠ '!' :: rest) ↔
        ∃ piece ∈ (trim expr).splitOn ',', trim piece ∈ active ∧
          ∀ rest, trim piece ≠ '!' :: rest :=
      exists_congr fun piece => and_congr_right fun _ =>
        and_congr_left fun unmarked => matchesSingle_plain unmarked
    have negations : (∃ piece ∈ (trim expr).splitOn ',', ∃ rest, trim piece = '!' :: rest ∧
          matchesSingle active piece = true) ↔
        ∃ piece ∈ (trim expr).splitOn ',', ∃ rest, trim piece = '!' :: rest ∧ trim rest ∉ active :=
      exists_congr fun piece => and_congr_right fun _ => exists_congr fun rest =>
        and_congr_right fun marked => by simp [matchesSingle, marked]
    rw [plains, negations, NegationsAgree]
    exact or_agree
  constructor
  · intro means lower kept
    exact (agree lower kept).mp (means.agrees _ (.list tokens) some_text lower kept)
  · intro negations
    exact ⟨denotes, fun formula form _ lower kept => (agree lower kept).mpr (negations lower kept)⟩

theorem list_malformed (shape : booleanForm (trim expr) = false) (comma : ',' ∈ trim expr)
    (malformed : ∃ piece ∈ (trim expr).splitOn ',', ¬ WellFormed alphabet piece) :
    Means alphabet active expr ↔
      ∀ piece ∈ (trim expr).splitOn ',', trim piece ≠ [] → Unmatched active piece := by
  have no_form : ∀ formula, ¬ Grammatical alphabet expr formula := by
    intro formula form
    obtain ⟨formulas, -, tokens⟩ := list_form comma form
    obtain ⟨piece, inside, bad⟩ := malformed
    exact bad (list_wellFormed tokens piece inside)
  have refuses : acceptsProfiles alphabet active [expr] = false ↔
      ∀ piece ∈ (trim expr).splitOn ',', trim piece ≠ [] → Unmatched active piece := by
    rw [← Bool.not_eq_true, list_accepts shape comma]
    simp [matchesSingle_unmatched]
  rw [← refuses]
  constructor
  · intro means
    rw [← Bool.not_eq_true, means.denotes]
    rintro ⟨formula, form, -⟩
    exact no_form formula form
  · intro refused
    refine ⟨?_, fun formula form => absurd form (no_form formula)⟩
    simp [refused, no_form]

theorem single_accepts (shape : booleanForm (trim expr) = false) (comma : ',' ∉ trim expr) :
    acceptsProfiles alphabet active [expr] = matchesSingle active (trim expr) := by
  rw [accepts_one]
  simp [matchesProfileExpression, shape, comma]

theorem single_means (comma : ',' ∉ trim expr)
    (denotes : acceptsProfiles alphabet active [expr] = true ↔
      ∃ formula, Grammatical alphabet expr formula ∧ formula.eval (activeIn active) = true) :
    Means alphabet active expr := by
  refine ⟨denotes, fun formula form present lower kept => ?_⟩
  obtain ⟨formula', tokens, spells, derives, same⟩ := plain_form active form comma
  rw [container_value spells derives present lower kept, same, Bool.eq_iff_iff, denotes]
  constructor
  · intro holds
    exact ⟨formula, form, holds⟩
  · rintro ⟨other, form', holds⟩
    rw [form_value form form' comma, holds]

theorem bare_tokens {tokens : List (Token (List Char))} (shape : booleanForm text = false)
    (spells : Spells alphabet tokens text) :
    ∀ token ∈ tokens, token.connective = false ∧ token ≠ .lparen := by
  intro token among
  have absent : ∀ c, c = '&' ∨ c = '|' ∨ c = '(' → c ∉ text := by
    intro c operator there
    have shaped : booleanForm text = true := by
      rw [booleanForm_iff]
      rcases operator with rfl | rfl | rfl
      · exact .inl there
      · exact .inr (.inl there)
      · exact .inr (.inr there)
    simp [shape] at shaped
  rcases spells_token spells among with ⟨c, inside, sign⟩ | ⟨name, rfl, -⟩
  · unfold punctuation at sign
    split at sign <;> cases sign
    · exact absurd inside (absent _ (.inl rfl))
    · exact absurd inside (absent _ (.inr (.inl rfl)))
    · simp [Token.connective]
    · exact absurd inside (absent _ (.inr (.inr rfl)))
    · simp [Token.connective]
  · simp [Token.connective]

theorem parity_true {name : List Char} {count : Nat} :
    (if count % 2 = 0 then activeIn active name else !activeIn active name) = true ↔
      (name ∈ active ↔ count % 2 = 0) := by
  by_cases even : count % 2 = 0 <;> simp [even, activeIn]

theorem chain_iff (shape : booleanForm text = false) (comma : ',' ∉ text) :
    (∃ formula, Form alphabet text formula ∧ formula.eval (activeIn active) = true) ↔
      TrueChain alphabet active text := by
  constructor
  · rintro ⟨formula, form, holds⟩
    obtain ⟨formula', tokens, spells, derives, same⟩ := plain_form active form comma
    obtain ⟨count, name, rfl, evals⟩ := derives.negations (bare_tokens shape spells)
    rw [← same, evals, parity_true] at holds
    exact ⟨count, name, spells, holds⟩
  · rintro ⟨count, name, spells, holds⟩
    obtain ⟨formula, derives, evals⟩ := derives_negations count name
    refine ⟨formula, .boolean spells derives.unary.conjunction, ?_⟩
    rw [evals, parity_true]
    exact holds

theorem spells_nil {tokens : List (Token (List Char))} (spells : Spells alphabet tokens text)
    (none_left : tokens = []) : ∀ c ∈ text, isWhitespace c = true := by
  induction spells with
  | done => simp
  | space white later ih =>
    intro c among
    rcases List.mem_cons.mp among with rfl | among
    · exact white
    · exact ih none_left c among
  | symbol | name => cases none_left

theorem chain_name {count : Nat} {name : List Char} (trimmed : trim text = text)
    (spells : Spells alphabet (List.replicate count .not ++ [.value name]) text)
    (unmarked : ∀ rest, text ≠ '!' :: rest) : IsName alphabet text := by
  generalize tokens_eq : List.replicate count Token.not ++ [.value name] = tokens at spells
  cases spells with
  | done => simp at tokens_eq
  | space white later =>
    have dark := trim_head trimmed
    simp [white] at dark
  | symbol sign later =>
    cases count with
    | zero =>
      obtain ⟨rfl, -⟩ := List.cons.inj tokens_eq
      unfold punctuation at sign
      split at sign <;> cases sign
    | succ count =>
      obtain ⟨rfl, -⟩ := List.cons.inj tokens_eq
      unfold punctuation at sign
      split at sign <;> cases sign
      exact absurd rfl (unmarked _)
  | @name tokens name' rest named ends later =>
    cases count with
    | succ count => cases tokens_eq
    | zero =>
      obtain ⟨-, rfl⟩ := List.cons.inj tokens_eq
      -- nothing follows the name: it would be whitespace, and the text is trimmed
      rcases List.eq_nil_or_concat rest with rfl | ⟨before, last, rfl⟩
      · simpa using named
      · rw [List.concat_eq_append] at later trimmed
        have white := spells_nil later rfl last (by simp)
        have present : trim (name' ++ (before ++ [last])) ≠ [] := by
          rw [trimmed]
          simp
        have dark := trim_last present
        simp [trimmed, white] at dark

theorem single_wellFormed (shape : booleanForm (trim expr) = false) (comma : ',' ∉ trim expr)
    (wellFormed : WellFormed alphabet (trim expr)) : Means alphabet active expr := by
  obtain ⟨formula, token⟩ := wellFormed_iff.mp wellFormed
  refine single_means comma ?_
  rw [single_accepts shape comma, matchesSingle_token token]
  constructor
  · intro holds
    exact ⟨formula, .single token, holds⟩
  · rintro ⟨other, form, holds⟩
    rw [form_value (.single token) form comma, holds]

theorem single_malformed (shape : booleanForm (trim expr) = false) (comma : ',' ∉ trim expr)
    (malformed : ¬ WellFormed alphabet (trim expr)) :
    Means alphabet active expr ↔ SingleSound alphabet active (trim expr) := by
  have denotes : (acceptsProfiles alphabet active [expr] = true ↔
      ∃ formula, Grammatical alphabet expr formula ∧ formula.eval (activeIn active) = true) ↔
      SingleSound alphabet active (trim expr) := by
    unfold Grammatical
    rw [single_accepts shape comma, chain_iff shape comma]
    unfold SingleSound matchesSingle
    rw [trim_trim]
    split
    next rest marked =>
      simp only [marked, decide_eq_true_eq]
      tauto
    next unmarked =>
      have no_chain : ¬ TrueChain alphabet active (trim expr) := by
        rintro ⟨count, name, spells, -⟩
        apply malformed
        have named := chain_name (trim_trim expr) spells unmarked
        refine wellFormed_iff.mpr ⟨.test (trim (trim expr)), .plain ?_⟩
        rwa [trim_trim]
      simp [no_chain]
  rw [← denotes]
  exact ⟨fun means => means.denotes, single_means comma⟩

end Shapes

theorem profile_expression_means_iff (alphabet : Alphabet) (active : List (List Char))
    (expr : List Char) : Means alphabet active expr ↔ MeansWhen alphabet active expr := by
  unfold MeansWhen
  by_cases shape : booleanForm (trim expr) = true
  · simp [shape, boolean_means shape]
  rw [if_neg shape]
  rw [Bool.not_eq_true] at shape
  by_cases comma : ',' ∈ trim expr
  · rw [if_pos (by simpa using comma)]
    by_cases wellFormed : ∀ piece ∈ (trim expr).splitOn ',', WellFormed alphabet piece
    · rw [list_means shape comma wellFormed]
      constructor
      · intro agree
        exact ⟨fun _ => agree, fun ⟨piece, inside, bad⟩ => absurd (wellFormed piece inside) bad⟩
      · intro both
        exact both.1 wellFormed
    · have malformed : ∃ piece ∈ (trim expr).splitOn ',', ¬ WellFormed alphabet piece := by
        simpa using wellFormed
      rw [list_malformed shape comma malformed]
      constructor
      · intro unmatched
        exact ⟨fun all => absurd all wellFormed, fun _ => unmatched⟩
      · intro both
        exact both.2 malformed
  · rw [if_neg (by simpa using comma)]
    by_cases wellFormed : WellFormed alphabet (trim expr)
    · simp [wellFormed, single_wellFormed shape comma wellFormed]
    · rw [single_malformed shape comma wellFormed]
      simp [wellFormed]

-- A malformed or doubled negation switches on what no profile asked for.
theorem double_negation_accepted : ¬ Means ascii [] "!!prod".toList := by
  intro means
  have accepted : acceptsProfiles ascii [] ["!!prod".toList] = true := by decide
  obtain ⟨count, name, spells, odd⟩ :=
    (chain_iff (by decide) (by decide)).mp (means.denotes.mp accepted)
  have named : IsName ascii "prod".toList := by
    constructor
    · simp
    · simp [Alphabet.nameChar, ascii]
  have written : Spells ascii [.not, .not, .value "prod".toList] ('!' :: '!' :: ("prod".toList ++ [])) :=
    .symbol rfl (.symbol rfl (.name named (by simp) .done))
  have same := (@tokenizeProfile_of_spells ascii [] _ _ spells).symm.trans
    (tokenizeProfile_of_spells written)
  have lengths := congrArg List.length (Option.some.inj same)
  obtain rfl : count = 2 := by simpa using lengths
  simp at odd

end Firefly.Config.Profile
