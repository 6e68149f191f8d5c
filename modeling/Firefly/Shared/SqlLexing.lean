import Firefly.Shared.Decimal

set_option autoImplicit false

/-!
# The tokens of a boolean SQL expression

A text is cut into tokens one character at a time. The arguments bound to a statement then take the
places of its placeholders.
-/

namespace Firefly.SqlText

variable {α : Type}

structure Lexicon where
  quote : Char
  -- Placeholders are `$1`, `$2`, ... and not `?`.
  numbered : Bool
  -- `= ANY(array)` and `ILIKE` exist.
  arrays : Bool
  -- `IN ()` is allowed.
  emptyLists : Bool
  apart : ¬quote.isAlpha ∧ quote ∉ " (),?$<=>".toList

inductive Keyword where
  | and
  | or
  | not
  | like
  | iLike
  | isIn
  | is
  | null
  | any
  | lower
deriving DecidableEq, Repr

inductive Comparison where
  | eq
  | ne
  | lt
  | le
  | gt
  | ge
deriving DecidableEq, Repr

def Comparison.holds : Comparison → Ordering → Bool
  | .eq, o => o.isEq
  | .ne, o => o.isNe
  | .lt, o => o.isLT
  | .le, o => o.isLE
  | .gt, o => o.isGT
  | .ge, o => o.isGE

def keywords : List (List Char × Keyword) :=
  [(['A', 'N', 'D'], .and),
    (['O', 'R'], .or),
    (['N', 'O', 'T'], .not),
    (['L', 'I', 'K', 'E'], .like),
    (['I', 'L', 'I', 'K', 'E'], .iLike),
    (['I', 'N'], .isIn),
    (['I', 'S'], .is),
    (['N', 'U', 'L', 'L'], .null),
    (['A', 'N', 'Y'], .any),
    (['L', 'O', 'W', 'E', 'R'], .lower)]

def comparisons : List (List Char × Comparison) :=
  [(['='], .eq), (['<', '>'], .ne), (['<'], .lt), (['<', '='], .le),
    (['>'], .gt), (['>', '='], .ge)]

inductive Symbol where
  | ident (name : List Char)
  | keyword (k : Keyword)
  | compare (c : Comparison)
  | opening
  | closing
  | comma
deriving DecidableEq, Repr

inductive Token (α : Type) where
  | symbol (s : Symbol)
  | slot (bound : α)
deriving DecidableEq, Repr

namespace Token

@[match_pattern] abbrev ident (name : List Char) : Token α := .symbol (.ident name)
@[match_pattern] abbrev keyword (k : Keyword) : Token α := .symbol (.keyword k)
@[match_pattern] abbrev compare (c : Comparison) : Token α := .symbol (.compare c)
@[match_pattern] abbrev opening : Token α := .symbol .opening
@[match_pattern] abbrev closing : Token α := .symbol .closing
@[match_pattern] abbrev comma : Token α := .symbol .comma

end Token

/-- What the characters read last belong to. -/
inductive Mode where
  | gap
  | quoted (name : List Char)
  -- A quote inside a quoted identifier: its end, or the first of two that stand for one.
  | quote (name : List Char)
  | word (letters : List Char)
  | sign (chars : List Char)
  | number (digits : List Char)
deriving DecidableEq, Repr

def isSign (c : Char) : Bool := c ∈ ['<', '=', '>']

def continues (lexicon : Lexicon) : Mode → Char → Option Mode
  | .gap, _ => none
  | .quoted name, c =>
    some (if c = lexicon.quote then .quote name else .quoted (name ++ [c]))
  | .quote name, c => if c = lexicon.quote then some (.quoted (name ++ [c])) else none
  | .word letters, c => if c.isAlpha then some (.word (letters ++ [c])) else none
  | .sign chars, c => if isSign c then some (.sign (chars ++ [c])) else none
  | .number digits, c => if c.isDigit then some (.number (digits ++ [c])) else none

def ended : Mode → Option (List (Token (Option Nat)))
  | .gap => some []
  | .quoted _ => none
  | .quote name => some [.ident name]
  | .word letters => (keywords.lookup (letters.map Char.toUpper)).map fun k => [.keyword k]
  | .sign chars => (comparisons.lookup chars).map fun c => [.compare c]
  | .number digits => if digits = [] then none else some [.slot (some (Decimal.value digits))]

def started (lexicon : Lexicon) (c : Char) : Option (List (Token (Option Nat)) × Mode) :=
  if c = ' ' then some ([], .gap)
  else if c = '(' then some ([.opening], .gap)
  else if c = ')' then some ([.closing], .gap)
  else if c = ',' then some ([.comma], .gap)
  else if c = lexicon.quote then some ([], .quoted [])
  else if c = '?' ∧ ¬lexicon.numbered then some ([.slot none], .gap)
  else if c = '$' ∧ lexicon.numbered then some ([], .number [])
  else if c.isAlpha then some ([], .word [c])
  else if isSign c then some ([], .sign [c])
  else none

def lexFrom (lexicon : Lexicon) : Mode → List Char → Option (List (Token (Option Nat)))
  | mode, [] => ended mode
  | mode, c :: rest =>
    match continues lexicon mode c with
    | some mode => lexFrom lexicon mode rest
    | none => do
      let before ← ended mode
      let (here, mode) ← started lexicon c
      let after ← lexFrom lexicon mode rest
      return before ++ here ++ after

def lex (lexicon : Lexicon) (text : String) : Option (List (Token (Option Nat))) :=
  lexFrom lexicon .gap text.toList

def bindFrom (args : List α) : Nat → List (Token (Option Nat)) → Option (List (Token α))
  | _, [] => some []
  | next, .symbol s :: rest => (.symbol s :: ·) <$> bindFrom args next rest
  | next, .slot number :: rest => do
    let value ← args[number.getD next - 1]?
    let rest ← bindFrom args (next + 1) rest
    return .slot value :: rest

def bind (args : List α) (tokens : List (Token (Option Nat))) : Option (List (Token α)) :=
  bindFrom args 1 tokens

def slots (tokens : List (Token α)) : List α :=
  tokens.filterMap fun
    | .slot bound => some bound
    | .symbol _ => none

def unbound (lexicon : Lexicon) : Nat → List (Token α) → List (Token (Option Nat))
  | _, [] => []
  | next, .symbol s :: rest => .symbol s :: unbound lexicon next rest
  | next, .slot _ :: rest =>
    .slot (if lexicon.numbered then some next else none) :: unbound lexicon (next + 1) rest

@[simp] theorem slots_nil : slots ([] : List (Token α)) = [] := rfl

@[simp] theorem slots_symbol (s : Symbol) (rest : List (Token α)) :
    slots (.symbol s :: rest) = slots rest := rfl

@[simp] theorem slots_slot (bound : α) (rest : List (Token α)) :
    slots (.slot bound :: rest) = bound :: slots rest := rfl

@[simp] theorem slots_append (first second : List (Token α)) :
    slots (first ++ second) = slots first ++ slots second :=
  List.filterMap_append

@[simp] theorem unbound_append (lexicon : Lexicon) (next : Nat) (first second : List (Token α)) :
    unbound lexicon next (first ++ second) =
      unbound lexicon next first ++ unbound lexicon (next + (slots first).length) second := by
  induction first generalizing next with
  | nil => rfl
  | cons token rest ih =>
    cases token with
    | symbol s => simp [unbound, ih]
    | slot bound => simp [unbound, ih, Nat.add_assoc, Nat.add_comm 1]

theorem slots_unbound (lexicon : Lexicon) (next : Nat) (tokens : List (Token α)) :
    slots (unbound lexicon next tokens) =
      if lexicon.numbered then (List.range' next (slots tokens).length).map some
      else List.replicate (slots tokens).length none := by
  induction tokens generalizing next with
  | nil => simp [unbound]
  | cons token rest ih =>
    cases token with
    | symbol s => exact ih next
    | slot bound =>
      cases lexicon with
      | mk quote numbered arrays emptyLists apart =>
        cases numbered <;> simp_all [unbound, List.range'_succ, List.replicate_succ]

theorem bindFrom_unbound (lexicon : Lexicon) (before : List α) (tokens : List (Token α)) :
    bindFrom (before ++ slots tokens) (before.length + 1)
      (unbound lexicon (before.length + 1) tokens) = some tokens := by
  induction tokens generalizing before with
  | nil => rfl
  | cons token rest ih =>
    cases token with
    | symbol s => simp [unbound, bindFrom, ih]
    | slot bound =>
      have later := ih (before ++ [bound])
      simp only [List.append_assoc, List.singleton_append, List.length_append,
        List.length_singleton] at later
      have number : (if lexicon.numbered then some (before.length + 1) else none).getD
          (before.length + 1) = before.length + 1 := by
        split <;> rfl
      simp [unbound, bindFrom, number, later]

theorem bind_unbound (lexicon : Lexicon) (tokens : List (Token α)) :
    bind (slots tokens) (unbound lexicon 1 tokens) = some tokens :=
  bindFrom_unbound lexicon [] tokens

def Breaks (rest : List Char) : Prop :=
  ∀ c ∈ rest.head?, c = ' ' ∨ c = '(' ∨ c = ')' ∨ c = ','

def Spells (lexicon : Lexicon) (chars : List Char) (tokens : List (Token (Option Nat))) : Prop :=
  ∀ rest, Breaks rest →
    lexFrom lexicon .gap (chars ++ rest) = (tokens ++ ·) <$> lexFrom lexicon .gap rest

section Spells

variable {lexicon : Lexicon} {chars : List Char} {tokens : List (Token (Option Nat))}

theorem breaks_nil : Breaks [] := by
  intro c member
  simp at member

theorem breaks_cons {c : Char} (separates : c ∈ [' ', '(', ')', ',']) (rest : List Char) :
    Breaks (c :: rest) := by
  intro head member
  obtain rfl : c = head := by simpa using member
  simpa using separates

theorem Breaks.append {rest : List Char} (here : Breaks chars) (later : Breaks rest) :
    Breaks (chars ++ rest) := by
  cases chars with
  | nil => exact later
  | cons c chars => exact here

theorem Spells.lex {text : String} (spells : Spells lexicon text.toList tokens) :
    lex lexicon text = some tokens := by
  have whole := spells [] breaks_nil
  simpa [SqlText.lex, lexFrom, ended] using whole

theorem spells_nil : Spells lexicon [] [] := by
  intro rest breaks
  simp

theorem Spells.append {chars' : List Char} {tokens' : List (Token (Option Nat))}
    (first : Spells lexicon chars tokens) (second : Spells lexicon chars' tokens')
    (breaks : Breaks chars') : Spells lexicon (chars ++ chars') (tokens ++ tokens') := by
  intro rest later
  rw [List.append_assoc, first _ (breaks.append later), second rest later]
  simp [Function.comp_def]

theorem spells_separator {c : Char} {here : List (Token (Option Nat))}
    (separates : started lexicon c = some (here, .gap)) (spells : Spells lexicon chars tokens) :
    Spells lexicon (c :: chars) (here ++ tokens) := by
  intro rest breaks
  have read : lexFrom lexicon .gap (c :: (chars ++ rest)) =
      (here ++ ·) <$> lexFrom lexicon .gap (chars ++ rest) := by
    rw [lexFrom]
    simp only [continues, ended, separates, Option.bind_eq_bind, Option.bind_some]
    cases lexFrom lexicon .gap (chars ++ rest) <;> rfl
  rw [List.cons_append, read, spells rest breaks]
  simp [Function.comp_def]

theorem Spells.space (spells : Spells lexicon chars tokens) :
    Spells lexicon (' ' :: chars) tokens := by
  have separates : started lexicon ' ' = some ([], .gap) := rfl
  exact spells_separator separates spells

theorem Spells.opening (spells : Spells lexicon chars tokens) :
    Spells lexicon ('(' :: chars) (.opening :: tokens) := by
  have separates : started lexicon '(' = some ([.opening], .gap) := rfl
  exact spells_separator separates spells

theorem Spells.closing (spells : Spells lexicon chars tokens) :
    Spells lexicon (')' :: chars) (.closing :: tokens) := by
  have separates : started lexicon ')' = some ([.closing], .gap) := rfl
  exact spells_separator separates spells

theorem Spells.comma (spells : Spells lexicon chars tokens) :
    Spells lexicon (',' :: chars) (.comma :: tokens) := by
  have separates : started lexicon ',' = some ([.comma], .gap) := rfl
  exact spells_separator separates spells

-- A token ends where the text breaks.
theorem lexFrom_breaks {mode : Mode} {before : List (Token (Option Nat))} {rest : List Char}
    (ends : ended mode = some before) (breaks : Breaks rest) :
    lexFrom lexicon mode rest = (before ++ ·) <$> lexFrom lexicon .gap rest := by
  cases rest with
  | nil =>
    rw [lexFrom, lexFrom, ends]
    simp [ended]
  | cons c rest =>
    have stops : continues lexicon mode c = none := by
      have separator : c = ' ' ∨ c = '(' ∨ c = ')' ∨ c = ',' := breaks c (by simp)
      have notQuote : c ≠ lexicon.quote := by
        rintro rfl
        apply lexicon.apart.2
        rcases separator with same | same | same | same <;> simp [same]
      cases mode with
      | gap => rfl
      | quoted name => simp [ended] at ends
      | quote name => simp [continues, notQuote]
      | word letters => rcases separator with rfl | rfl | rfl | rfl <;> rfl
      | sign chars => rcases separator with rfl | rfl | rfl | rfl <;> rfl
      | number digits => rcases separator with rfl | rfl | rfl | rfl <;> rfl
    have gap : continues lexicon .gap c = none := rfl
    have nothing : ended .gap = some [] := rfl
    rw [lexFrom, lexFrom, stops, ends, gap, nothing]
    cases started lexicon c with
    | none => rfl
    | some here => cases read : lexFrom lexicon here.2 rest <;> simp [read]

theorem lexFrom_continues (mode : List Char → Mode) (acc more rest : List Char)
    (takes : ∀ acc, ∀ c ∈ more, continues lexicon (mode acc) c = some (mode (acc ++ [c]))) :
    lexFrom lexicon (mode acc) (more ++ rest) = lexFrom lexicon (mode (acc ++ more)) rest := by
  induction more generalizing acc with
  | nil => simp
  | cons c more ih =>
    rw [List.cons_append, lexFrom, takes acc c (by simp)]
    simp only
    rw [ih (acc ++ [c]) fun acc c member => takes acc c (by simp [member]), List.append_assoc,
      List.singleton_append]

theorem started_quote : started lexicon lexicon.quote = some ([], .quoted []) := by
  have apart := lexicon.apart.2
  simp only [String.reduceToList, List.mem_cons, List.not_mem_nil, or_false, not_or] at apart
  simp [started, apart]

theorem started_alpha {c : Char} (alphabetic : c.isAlpha) :
    started lexicon c = some ([], .word [c]) := by
  have notQuote : c ≠ lexicon.quote := by
    rintro rfl
    exact lexicon.apart.1 alphabetic
  have others : c ≠ ' ' ∧ c ≠ '(' ∧ c ≠ ')' ∧ c ≠ ',' ∧ c ≠ '?' ∧ c ≠ '$' := by
    refine ⟨?_, ?_, ?_, ?_, ?_, ?_⟩ <;> rintro rfl <;> exact absurd alphabetic (by decide)
  simp [started, notQuote, others, alphabetic]

theorem started_sign {c : Char} (sign : isSign c) :
    started lexicon c = some ([], .sign [c]) := by
  have cases : c = '<' ∨ c = '=' ∨ c = '>' := by simpa [isSign] using sign
  have notQuote : c ≠ lexicon.quote := by
    rintro rfl
    apply lexicon.apart.2
    rcases cases with same | same | same <;> simp [same]
  rcases cases with rfl | rfl | rfl <;> simp [started, notQuote] <;> decide

-- After the first character of a token the rest of it is read in its mode.
theorem lexFrom_started {c : Char} {mode : Mode} (starts : started lexicon c = some ([], mode))
    (rest : List Char) : lexFrom lexicon .gap (c :: rest) = lexFrom lexicon mode rest := by
  rw [lexFrom]
  simp only [continues, ended, starts, Option.bind_eq_bind, Option.bind_some]
  cases lexFrom lexicon mode rest <;> rfl

theorem lexFrom_quoted (acc name rest : List Char) :
    lexFrom lexicon (.quoted acc)
        (name.flatMap (fun c => if c = lexicon.quote then [lexicon.quote, lexicon.quote] else [c]) ++
          lexicon.quote :: rest) =
      lexFrom lexicon (.quote (acc ++ name)) rest := by
  induction name generalizing acc with
  | nil => simp [lexFrom, continues]
  | cons c name ih =>
    have later := ih (acc ++ [c])
    rw [List.append_assoc, List.singleton_append] at later
    by_cases same : c = lexicon.quote
    · subst same
      simpa [lexFrom, continues] using later
    · simpa [lexFrom, continues, same] using later

theorem spells_quoted (name : List Char) :
    Spells lexicon
      (lexicon.quote :: name.flatMap
        (fun c => if c = lexicon.quote then [lexicon.quote, lexicon.quote] else [c]) ++
        [lexicon.quote]) [.ident name] := by
  intro rest breaks
  rw [List.cons_append, List.cons_append, List.append_assoc, List.singleton_append,
    lexFrom_started started_quote, lexFrom_quoted]
  exact lexFrom_breaks rfl breaks

theorem spells_keyword {c : Char} {letters : List Char} {k : Keyword}
    (alphabetic : (c :: letters).all Char.isAlpha)
    (found : keywords.lookup ((c :: letters).map Char.toUpper) = some k) :
    Spells lexicon (c :: letters) [.keyword k] := by
  rw [List.all_eq_true] at alphabetic
  intro rest breaks
  rw [List.cons_append, lexFrom_started (started_alpha (alphabetic c (by simp))),
    lexFrom_continues .word [c] letters rest fun acc letter member => by
      simp [continues, alphabetic letter (by simp [member])]]
  apply lexFrom_breaks _ breaks
  rw [List.singleton_append, ended, found]
  rfl

theorem spells_comparison {c : Char} {more : List Char} {sign : Comparison}
    (signs : (c :: more).all isSign) (found : comparisons.lookup (c :: more) = some sign) :
    Spells lexicon (c :: more) [.compare sign] := by
  rw [List.all_eq_true] at signs
  intro rest breaks
  rw [List.cons_append, lexFrom_started (started_sign (signs c (by simp))),
    lexFrom_continues .sign [c] more rest fun acc char member => by
      simp [continues, signs char (by simp [member])]]
  apply lexFrom_breaks _ breaks
  rw [List.singleton_append, ended, found]
  rfl

theorem spells_question (question : lexicon.numbered = false) :
    Spells lexicon ['?'] [.slot none] := by
  have separates : started lexicon '?' = some ([.slot none], .gap) := by
    have notQuote : '?' ≠ lexicon.quote := by
      intro same
      exact lexicon.apart.2 (by simp [← same])
    simp [started, notQuote, question]
  exact spells_separator separates spells_nil

theorem spells_number (numbered : lexicon.numbered = true) (n : Nat) :
    Spells lexicon ('$' :: Decimal.digits n) [.slot (some n)] := by
  intro rest breaks
  have starts : started lexicon '$' = some ([], .number []) := by
    have notQuote : '$' ≠ lexicon.quote := by
      intro same
      exact lexicon.apart.2 (by simp [← same])
    simp [started, notQuote, numbered]
  rw [List.cons_append, lexFrom_started starts,
    lexFrom_continues .number [] (Decimal.digits n) rest fun acc c member => by
      simp [continues, Decimal.isDigit_of_mem_digits member]]
  apply lexFrom_breaks _ breaks
  have nonempty : Decimal.digits n ≠ [] := Nat.toDigits_ne_nil
  rw [List.nil_append, ended, if_neg nonempty, Decimal.value_digits]

end Spells

end Firefly.SqlText
