import Firefly.Shared.Formula
import Firefly.Shared.SqlLexing

set_option autoImplicit false

/-!
# Parsing a boolean SQL expression

NOT binds closer than AND, and AND closer than OR. The parser keeps what it has read of each open
parenthesis on a stack.
-/

namespace Firefly.SqlText

open Formulas

variable {α : Type}

inductive Operator where
  | compare (c : Comparison)
  | like
  | iLike
  -- `LOWER(column) LIKE LOWER(value)`.
  | lowerLike
  | any
  | isIn
  | isNull
deriving DecidableEq, Repr

structure Test (α : Type) where
  column : List Char
  operator : Operator
  values : List α
deriving DecidableEq, Repr

def listed : List (Token α) → Option (List α)
  | [.slot value, .closing] => some [value]
  | .slot value :: .comma :: rest => (value :: ·) <$> listed rest
  | _ => none

def test (lexicon : Lexicon) : List (Token α) → Option (Test α)
  | [.ident name, .compare c, .slot value] => some ⟨name, .compare c, [value]⟩
  | [.ident name, .keyword .like, .slot value] => some ⟨name, .like, [value]⟩
  | [.ident name, .keyword .iLike, .slot value] =>
    if lexicon.arrays then some ⟨name, .iLike, [value]⟩ else none
  | [.keyword .lower, .opening, .ident name, .closing, .keyword .like, .keyword .lower, .opening,
      .slot value, .closing] => some ⟨name, .lowerLike, [value]⟩
  | [.ident name, .compare .eq, .keyword .any, .opening, .slot value, .closing] =>
    if lexicon.arrays then some ⟨name, .any, [value]⟩ else none
  | [.ident name, .keyword .isIn, .opening, .closing] =>
    if lexicon.emptyLists then some ⟨name, .isIn, []⟩ else none
  | .ident name :: .keyword .isIn :: .opening :: rest =>
    (listed rest).map fun values => ⟨name, .isIn, values⟩
  | [.ident name, .keyword .is, .keyword .null] => some ⟨name, .isNull, []⟩
  | _ => none

def startsTest : Token α → Bool
  | .ident _ | .keyword .lower => true
  | _ => false

structure Level (α : Type) where
  disjuncts : List (Formula (Test α)) := []
  conjuncts : List (Formula (Test α)) := []
  negations : Nat := 0

structure Reader (α : Type) where
  -- The tokens of a test that is not whole yet.
  pending : List (Token α) := []
  -- An operand ends here.
  complete : Bool := false
  level : Level α := {}
  outer : List (Level α) := []

def chain (node : List (Formula (Test α)) → Formula (Test α)) :
    List (Formula (Test α)) → Formula (Test α)
  | [part] => part
  | parts => node parts

namespace Level

def operand (level : Level α) (part : Formula (Test α)) : Level α :=
  { level with
    conjuncts := level.conjuncts ++ [Nat.iterate Formula.not level.negations part]
    negations := 0 }

def disjoin (level : Level α) : Level α :=
  { disjuncts := level.disjuncts ++ [chain .all level.conjuncts] }

def close (level : Level α) : Formula (Test α) := chain .any level.disjoin.disjuncts

end Level

namespace Reader

def operand (reader : Reader α) (part : Formula (Test α)) : Reader α :=
  { reader with pending := [], complete := true, level := reader.level.operand part }

def read (lexicon : Lexicon) (reader : Reader α) (token : Token α) : Option (Reader α) :=
  if reader.pending ≠ [] ∨ ¬reader.complete ∧ startsTest token then
    let pending := reader.pending ++ [token]
    some <| match test lexicon pending with
      | some t => reader.operand (.test t)
      | none => { reader with pending := pending }
  else match reader.complete, token with
    | false, .keyword .not =>
      some { reader with level.negations := reader.level.negations + 1 }
    | false, .opening => some { reader with level := {}, outer := reader.level :: reader.outer }
    | true, .keyword .and => some { reader with complete := false }
    | true, .keyword .or =>
      some { reader with complete := false, level := reader.level.disjoin }
    | true, .closing =>
      match reader.outer with
      | [] => none
      | level :: outer =>
        some { reader with level := level.operand reader.level.close, outer := outer }
    | _, _ => none

def finish (reader : Reader α) : Option (Formula (Test α)) :=
  if reader.pending = [] ∧ reader.complete ∧ reader.outer = [] then some reader.level.close
  else none

end Reader

def parse (lexicon : Lexicon) (tokens : List (Token α)) : Option (Formula (Test α)) :=
  (tokens.foldlM (Reader.read lexicon) {}).bind Reader.finish

def expression (lexicon : Lexicon) (text : String) (args : List α) : Option (Formula (Test α)) := do
  let tokens ← lex lexicon text
  let tokens ← bind args tokens
  parse lexicon tokens

theorem intercalate_cons {β : Type} (separator first : List β) (rest : List (List β)) :
    separator.intercalate (first :: rest) = first ++ rest.flatMap (separator ++ ·) := by
  induction rest generalizing first with
  | nil => simp [List.intercalate]
  | cons second rest ih =>
    have later := ih second
    simp only [List.intercalate] at later ⊢
    simp [later]

namespace Test

def tokens (t : Test α) : List (Token α) :=
  match t.operator with
  | .compare c => .ident t.column :: .compare c :: t.values.map .slot
  | .like => .ident t.column :: .keyword .like :: t.values.map .slot
  | .iLike => .ident t.column :: .keyword .iLike :: t.values.map .slot
  | .lowerLike =>
    [.keyword .lower, .opening, .ident t.column, .closing, .keyword .like, .keyword .lower,
      .opening] ++ t.values.map .slot ++ [.closing]
  | .any =>
    [.ident t.column, .compare .eq, .keyword .any, .opening] ++ t.values.map .slot ++ [.closing]
  | .isIn =>
    [.ident t.column, .keyword .isIn, .opening] ++
      [Token.comma].intercalate (t.values.map fun value => [.slot value]) ++ [.closing]
  | .isNull => [.ident t.column, .keyword .is, .keyword .null]

theorem slots_map (values : List α) : slots (values.map Token.slot) = values := by
  induction values with
  | nil => rfl
  | cons value values ih => simp [ih]

theorem slots_tokens (t : Test α) (plain : t.operator = .isNull → t.values = []) :
    slots t.tokens = t.values := by
  obtain ⟨column, operator, values⟩ := t
  cases operator with
  | isNull => simp [tokens, show values = [] from plain rfl]
  | isIn =>
    cases values with
    | nil => rfl
    | cons value values =>
      have rest : slots (values.flatMap fun value => [Token.comma, .slot value]) = values := by
        induction values with
        | nil => rfl
        | cons value values ih => simp [ih]
      simp [tokens, intercalate_cons, List.flatMap_map, rest]
  | _ => simp [tokens, slots_map]

def Allowed (lexicon : Lexicon) (t : Test α) : Prop :=
  match t.operator with
  | .compare _ | .like | .lowerLike => t.values.length = 1
  | .iLike | .any => t.values.length = 1 ∧ lexicon.arrays
  | .isIn => t.values = [] → lexicon.emptyLists
  | .isNull => t.values = []

end Test

section Writing

variable {τ : Type}

mutual

def written (tokens : τ → List (Token α)) : Formula τ → List (Token α)
  | .test t => tokens t
  | .all parts =>
    .opening :: [Token.keyword .and].intercalate (writtenParts tokens parts) ++ [.closing]
  | .any parts =>
    .opening :: [Token.keyword .or].intercalate (writtenParts tokens parts) ++ [.closing]
  | .not part => .keyword .not :: written tokens part

def writtenParts (tokens : τ → List (Token α)) : List (Formula τ) → List (List (Token α))
  | [] => []
  | part :: parts => written tokens part :: writtenParts tokens parts

end

@[simp] theorem writtenParts_eq (tokens : τ → List (Token α)) (parts : List (Formula τ)) :
    writtenParts tokens parts = parts.map (written tokens) := by
  induction parts with
  | nil => rfl
  | cons part parts ih => simp [writtenParts, ih]

end Writing

def Reader.Awaits (reader : Reader α) : Prop := reader.pending = [] ∧ reader.complete = false

def Reads (lexicon : Lexicon) (tokens : List (Token α)) (part : Formula (Test α)) : Prop :=
  ∀ reader : Reader α, reader.Awaits →
    tokens.foldlM (Reader.read lexicon) reader = some (reader.operand part)

section Reads

variable {lexicon : Lexicon} {tokens : List (Token α)} {part : Formula (Test α)}

theorem Reads.parse (reads : Reads lexicon tokens part) : parse lexicon tokens = some part := by
  rw [SqlText.parse, reads {} ⟨rfl, rfl⟩]
  rfl

theorem Reads.not (reads : Reads lexicon tokens part) :
    Reads lexicon (.keyword .not :: tokens) (.not part) := by
  rintro ⟨pending, complete, level, outer⟩ ⟨rfl, rfl⟩
  have negated := reads { level := { level with negations := level.negations + 1 }, outer := outer }
    ⟨rfl, rfl⟩
  exact negated

theorem reads_test {first : Token α} {rest : List (Token α)} {t : Test α}
    (starts : startsTest first) (whole : test lexicon (first :: rest) = some t)
    (unfinished : ∀ n < (first :: rest).length, test lexicon ((first :: rest).take n) = none) :
    Reads lexicon (first :: rest) (.test t) := by
  rintro ⟨pending, complete, level, outer⟩ ⟨rfl, rfl⟩
  have continued : ∀ (done more : List (Token α)), done ≠ [] → more ≠ [] →
      done ++ more = first :: rest →
      more.foldlM (Reader.read lexicon) ⟨done, false, level, outer⟩ =
        some (Reader.operand ⟨[], false, level, outer⟩ (.test t)) := by
    intro done more
    induction more generalizing done with
    | nil => exact fun _ nonempty => absurd rfl nonempty
    | cons token more ih =>
      intro begun _ same
      rw [List.foldlM_cons]
      cases more with
      | nil => simp [Reader.read, begun, same, whole, Reader.operand]
      | cons next more =>
        have early : test lexicon (done ++ [token]) = none := by
          have split : done ++ [token] = (first :: rest).take (done.length + 1) := by
            rw [← same, List.take_append]
            simp
          rw [split]
          apply unfinished
          rw [← same]
          simp
        have later := ih (done ++ [token]) (by simp) (by simp) (by simpa using same)
        simpa [Reader.read, begun, early] using later
  cases rest with
  | nil =>
    rw [List.foldlM_cons]
    simp [Reader.read, starts, whole, Reader.operand]
  | cons second rest =>
    have early : test lexicon [first] = none := unfinished 1 (by simp)
    rw [List.foldlM_cons]
    simpa [Reader.read, starts, early] using continued [first] (second :: rest) (by simp) (by simp) rfl

theorem listed_list (value : α) (values : List α) :
    listed (.slot value :: values.flatMap (fun value => [Token.comma, .slot value]) ++ [.closing]) =
      some (value :: values) := by
  induction values generalizing value with
  | nil => rfl
  | cons next values ih =>
    have later := ih next
    simp only [List.cons_append] at later
    simp [listed, later]

theorem listed_unfinished (value : α) (values : List α) (n : Nat) :
    listed ((.slot value :: values.flatMap fun value => [Token.comma, .slot value]).take n) =
      none := by
  induction values generalizing value n with
  | nil =>
    match n with
    | 0 | 1 | _ + 2 => rfl
  | cons next values ih =>
    match n with
    | 0 | 1 | 2 => rfl
    | n + 3 =>
      have later := ih next (n + 1)
      simp only [List.take_succ_cons] at later
      simp [listed, later]

theorem test_isIn (name : List Char) {rest : List (Token α)} (nonempty : rest ≠ [.closing]) :
    test lexicon (.ident name :: .keyword .isIn :: .opening :: rest) =
      (listed rest).map fun values => ⟨name, .isIn, values⟩ := by
  unfold test
  split <;> simp_all

theorem reads_tokens {t : Test α} (allowed : t.Allowed lexicon) :
    Reads lexicon t.tokens (.test t) := by
  obtain ⟨column, operator, values⟩ := t
  cases operator with
  | compare c =>
    obtain ⟨value, rfl⟩ := List.length_eq_one_iff.mp allowed
    refine reads_test rfl rfl fun n early => ?_
    match n with
    | 0 | 1 | 2 => rfl
    | n + 3 => simp at early
  | like =>
    obtain ⟨value, rfl⟩ := List.length_eq_one_iff.mp allowed
    refine reads_test rfl rfl fun n early => ?_
    match n with
    | 0 | 1 | 2 => rfl
    | n + 3 => simp at early
  | iLike =>
    obtain ⟨value, rfl⟩ := List.length_eq_one_iff.mp allowed.1
    refine reads_test rfl (by simp [test, allowed.2]) fun n early => ?_
    match n with
    | 0 | 1 | 2 => rfl
    | n + 3 => simp at early
  | lowerLike =>
    obtain ⟨value, rfl⟩ := List.length_eq_one_iff.mp allowed
    refine reads_test rfl rfl fun n early => ?_
    match n with
    | 0 | 1 | 2 | 3 | 4 | 5 | 6 | 7 | 8 => rfl
    | n + 9 => simp at early
  | any =>
    obtain ⟨value, rfl⟩ := List.length_eq_one_iff.mp allowed.1
    refine reads_test rfl (by simp [test, allowed.2]) fun n early => ?_
    match n with
    | 0 | 1 | 2 | 3 | 4 | 5 => rfl
    | n + 6 => simp at early
  | isIn =>
    match values with
    | [] =>
      refine reads_test rfl ?_ fun n early => ?_
      · simp [test, show lexicon.emptyLists = true from allowed rfl]
      · match n with
        | 0 | 1 | 2 | 3 => rfl
        | n + 4 => simp at early
    | value :: values =>
      have list : Test.tokens ⟨column, .isIn, value :: values⟩ =
          .ident column :: .keyword .isIn :: .opening :: (.slot value ::
            values.flatMap (fun value => [Token.comma, .slot value]) ++ [.closing]) := by
        simp [Test.tokens, intercalate_cons, List.flatMap_map]
      rw [list]
      refine reads_test rfl ?_ fun n early => ?_
      · rw [test_isIn, listed_list]
        · rfl
        · simp
      · match n with
        | 0 | 1 | 2 => rfl
        | n + 3 =>
          rw [List.take_succ_cons, List.take_succ_cons, List.take_succ_cons,
            List.take_append_of_le_length (by simp at early ⊢; omega), test_isIn,
            listed_unfinished]
          · rfl
          · match n with
            | 0 | 1 | _ + 2 => simp
  | isNull =>
    obtain rfl : values = [] := allowed
    refine reads_test rfl rfl fun n early => ?_
    match n with
    | 0 | 1 | 2 => rfl
    | n + 3 => simp at early

theorem read_connective (lexicon : Lexicon) (level : Level α) (outer : List (Level α)) :
    Reader.read lexicon ⟨[], true, level, outer⟩ (.keyword .and) = some ⟨[], false, level, outer⟩ ∧
    Reader.read lexicon ⟨[], true, level, outer⟩ (.keyword .or) =
      some ⟨[], false, level.disjoin, outer⟩ :=
  ⟨rfl, rfl⟩

theorem read_parenthesis (lexicon : Lexicon) (level inner : Level α) (outer : List (Level α)) :
    Reader.read lexicon ⟨[], false, level, outer⟩ .opening =
      some ⟨[], false, {}, level :: outer⟩ ∧
    Reader.read lexicon ⟨[], true, inner, level :: outer⟩ .closing =
      some ⟨[], true, level.operand inner.close, outer⟩ :=
  ⟨rfl, rfl⟩

-- After the first operand of a chain each further one brings its connective along.
theorem foldlM_and {items : List (List (Token α) × Formula (Test α))}
    (reads : ∀ item ∈ items, Reads lexicon item.1 item.2) (conjuncts : List (Formula (Test α)))
    (outer : List (Level α)) :
    (items.flatMap fun item => [Token.keyword .and] ++ item.1).foldlM (Reader.read lexicon)
        ⟨[], true, ⟨[], conjuncts, 0⟩, outer⟩ =
      some ⟨[], true, ⟨[], conjuncts ++ items.map (·.2), 0⟩, outer⟩ := by
  induction items generalizing conjuncts with
  | nil => simp
  | cons item items ih =>
    have here := reads item (by simp) ⟨[], false, ⟨[], conjuncts, 0⟩, outer⟩ ⟨rfl, rfl⟩
    have later := ih (fun item member => reads item (by simp [member])) (conjuncts ++ [item.2])
    rw [List.flatMap_cons, List.append_assoc, List.singleton_append, List.foldlM_cons,
      (read_connective lexicon _ outer).1, Option.bind_eq_bind, Option.bind_some,
      List.foldlM_append, here, Option.bind_eq_bind, Option.bind_some]
    rw [show Reader.operand ⟨[], false, ⟨[], conjuncts, 0⟩, outer⟩ item.2 =
      ⟨[], true, ⟨[], conjuncts ++ [item.2], 0⟩, outer⟩ from rfl, later]
    simp

theorem foldlM_or {items : List (List (Token α) × Formula (Test α))}
    (reads : ∀ item ∈ items, Reads lexicon item.1 item.2) (disjuncts : List (Formula (Test α)))
    (last : Formula (Test α)) (outer : List (Level α)) :
    ∃ disjuncts' last', disjuncts' ++ [last'] = disjuncts ++ last :: items.map (·.2) ∧
      (items.flatMap fun item => [Token.keyword .or] ++ item.1).foldlM (Reader.read lexicon)
          ⟨[], true, ⟨disjuncts, [last], 0⟩, outer⟩ =
        some ⟨[], true, ⟨disjuncts', [last'], 0⟩, outer⟩ := by
  induction items generalizing disjuncts last with
  | nil => exact ⟨disjuncts, last, by simp, by simp⟩
  | cons item items ih =>
    obtain ⟨disjuncts', last', same, later⟩ := ih
      (fun item member => reads item (by simp [member])) (disjuncts ++ [last]) item.2
    refine ⟨disjuncts', last', by simpa using same, ?_⟩
    have here := reads item (by simp) ⟨[], false, ⟨disjuncts ++ [last], [], 0⟩, outer⟩ ⟨rfl, rfl⟩
    rw [List.flatMap_cons, List.append_assoc, List.singleton_append, List.foldlM_cons,
      (read_connective lexicon _ outer).2, Option.bind_eq_bind, Option.bind_some,
      List.foldlM_append]
    rw [show Level.disjoin ⟨disjuncts, [last], 0⟩ = ⟨disjuncts ++ [last], [], 0⟩ from rfl, here,
      Option.bind_eq_bind, Option.bind_some]
    exact later

theorem chain_several {node : List (Formula (Test α)) → Formula (Test α)}
    {parts : List (Formula (Test α))} (several : 2 ≤ parts.length) : chain node parts = node parts := by
  match parts with
  | [] | [_] => simp at several
  | _ :: _ :: _ => rfl

theorem reads_all (items : List (List (Token α) × Formula (Test α))) (several : 2 ≤ items.length)
    (reads : ∀ item ∈ items, Reads lexicon item.1 item.2) :
    Reads lexicon
      (.opening :: [Token.keyword .and].intercalate (items.map (·.1)) ++ [.closing])
      (.all (items.map (·.2))) := by
  rintro ⟨pending, complete, level, outer⟩ ⟨rfl, rfl⟩
  match items with
  | [] => simp at several
  | first :: rest =>
    have here := reads first (by simp) ⟨[], false, {}, level :: outer⟩ ⟨rfl, rfl⟩
    have later := foldlM_and (fun item member => reads item (List.mem_cons_of_mem _ member))
      [first.2] (level :: outer)
    have close : Level.close ⟨[], first.2 :: rest.map (·.2), 0⟩ =
        .all (first.2 :: rest.map (·.2)) := by
      have chained : chain Formula.all (first.2 :: rest.map (·.2)) =
          .all (first.2 :: rest.map (·.2)) := chain_several (by simpa using several)
      exact chained
    rw [List.map_cons, intercalate_cons, List.flatMap_map, List.cons_append, List.foldlM_cons,
      (read_parenthesis lexicon level {} outer).1, Option.bind_eq_bind, Option.bind_some,
      List.append_assoc, List.foldlM_append, here, Option.bind_eq_bind, Option.bind_some,
      List.foldlM_append]
    rw [show Reader.operand ⟨[], false, {}, level :: outer⟩ first.2 =
      ⟨[], true, ⟨[], [first.2], 0⟩, level :: outer⟩ from rfl, later, Option.bind_eq_bind,
      Option.bind_some, List.foldlM_cons, (read_parenthesis lexicon level _ outer).2,
      List.singleton_append, close]
    rfl

theorem reads_any (items : List (List (Token α) × Formula (Test α))) (several : 2 ≤ items.length)
    (reads : ∀ item ∈ items, Reads lexicon item.1 item.2) :
    Reads lexicon
      (.opening :: [Token.keyword .or].intercalate (items.map (·.1)) ++ [.closing])
      (.any (items.map (·.2))) := by
  rintro ⟨pending, complete, level, outer⟩ ⟨rfl, rfl⟩
  match items with
  | [] => simp at several
  | first :: rest =>
    have here := reads first (by simp) ⟨[], false, {}, level :: outer⟩ ⟨rfl, rfl⟩
    obtain ⟨disjuncts, last, same, later⟩ := foldlM_or
      (fun item member => reads item (List.mem_cons_of_mem _ member)) [] first.2 (level :: outer)
    have close : Level.close ⟨disjuncts, [last], 0⟩ = .any (first.2 :: rest.map (·.2)) := by
      rw [Level.close, Level.disjoin]
      simp only [chain, same, List.nil_append]
      exact chain_several (by simpa using several)
    rw [List.map_cons, intercalate_cons, List.flatMap_map, List.cons_append, List.foldlM_cons,
      (read_parenthesis lexicon level {} outer).1, Option.bind_eq_bind, Option.bind_some,
      List.append_assoc, List.foldlM_append, here, Option.bind_eq_bind, Option.bind_some,
      List.foldlM_append]
    rw [show Reader.operand ⟨[], false, {}, level :: outer⟩ first.2 =
      ⟨[], true, ⟨[], [first.2], 0⟩, level :: outer⟩ from rfl, later, Option.bind_eq_bind,
      Option.bind_some, List.foldlM_cons, (read_parenthesis lexicon level _ outer).2, close]
    rfl

theorem reads_written {τ : Type} {tokens : τ → List (Token α)} {read : τ → Test α}
    {formula : Formula τ} (proper : formula.Proper)
    (tests : ∀ t ∈ formula.tests, Reads lexicon (tokens t) (.test (read t))) :
    Reads lexicon (written tokens formula) (formula.map read) := by
  induction proper with
  | test t => exact tests t (by simp [Formula.tests])
  | @all parts several proper ih =>
    have each : ∀ item ∈ parts.map fun part => (written tokens part, part.map read),
        Reads lexicon item.1 item.2 := by
      intro item member
      obtain ⟨part, inside, rfl⟩ := List.mem_map.mp member
      exact ih part inside fun t found => tests t (Formula.mem_tests_all inside found)
    have joined := reads_all _ (by simpa using several) each
    simpa [written, Formula.map, Function.comp_def] using joined
  | @any parts several proper ih =>
    have each : ∀ item ∈ parts.map fun part => (written tokens part, part.map read),
        Reads lexicon item.1 item.2 := by
      intro item member
      obtain ⟨part, inside, rfl⟩ := List.mem_map.mp member
      exact ih part inside fun t found => tests t (Formula.mem_tests_any inside found)
    have joined := reads_any _ (by simpa using several) each
    simpa [written, Formula.map, Function.comp_def] using joined
  | @not part proper ih => exact (ih tests).not

end Reads

def Stuck (lexicon : Lexicon) (reader : Reader α) : Prop :=
  reader.pending ≠ [] ∧ ∀ more, test lexicon (reader.pending ++ more) = none

def Jams (lexicon : Lexicon) (tokens : List (Token α)) : Prop :=
  ∀ reader : Reader α, reader.Awaits →
    ∃ reader', tokens.foldlM (Reader.read lexicon) reader = some reader' ∧ Stuck lexicon reader'

section Jams

variable {lexicon : Lexicon} {tokens : List (Token α)}

theorem Stuck.foldlM {reader : Reader α} (stuck : Stuck lexicon reader)
    (tokens : List (Token α)) :
    ∃ reader', tokens.foldlM (Reader.read lexicon) reader = some reader' ∧
      Stuck lexicon reader' := by
  induction tokens generalizing reader with
  | nil => exact ⟨reader, rfl, stuck⟩
  | cons token rest ih =>
    have read : Reader.read lexicon reader token =
        some { reader with pending := reader.pending ++ [token] } := by
      simp [Reader.read, stuck.1, stuck.2 [token]]
    have still : Stuck lexicon { reader with pending := reader.pending ++ [token] } := by
      refine ⟨by simp, fun more => ?_⟩
      simpa using stuck.2 (token :: more)
    rw [List.foldlM_cons, read]
    exact ih still

theorem Jams.parse (jams : Jams lexicon tokens) : parse lexicon tokens = none := by
  obtain ⟨reader, read, stuck⟩ := jams {} ⟨rfl, rfl⟩
  rw [SqlText.parse, read]
  simp [Reader.finish, stuck.1]

theorem Jams.append (jams : Jams lexicon tokens) (rest : List (Token α)) :
    Jams lexicon (tokens ++ rest) := by
  intro reader awaits
  obtain ⟨reader', read, stuck⟩ := jams reader awaits
  obtain ⟨reader'', later, still⟩ := stuck.foldlM rest
  refine ⟨reader'', ?_, still⟩
  rw [List.foldlM_append, read]
  exact later

theorem Jams.not (jams : Jams lexicon tokens) : Jams lexicon (.keyword .not :: tokens) := by
  rintro ⟨pending, complete, level, outer⟩ ⟨rfl, rfl⟩
  exact jams { level := { level with negations := level.negations + 1 }, outer := outer } ⟨rfl, rfl⟩

theorem jams_rest {k : Keyword} (connective : k = .and ∨ k = .or) {parts : List (List (Token α))}
    (each : ∀ tokens ∈ parts, (∃ part, Reads lexicon tokens part) ∨ Jams lexicon tokens)
    (one : ∃ tokens ∈ parts, Jams lexicon tokens) (level : Level α) (outer : List (Level α)) :
    ∃ reader', (parts.flatMap ([Token.keyword k] ++ ·)).foldlM (Reader.read lexicon)
      ⟨[], true, level, outer⟩ = some reader' ∧ Stuck lexicon reader' := by
  induction parts generalizing level with
  | nil => simp at one
  | cons tokens parts ih =>
    obtain ⟨level', read⟩ : ∃ level', Reader.read lexicon ⟨[], true, level, outer⟩ (.keyword k) =
        some ⟨[], false, level', outer⟩ := by
      rcases connective with rfl | rfl
      · exact ⟨level, rfl⟩
      · exact ⟨level.disjoin, rfl⟩
    rw [List.flatMap_cons, List.append_assoc, List.singleton_append, List.foldlM_cons, read,
      Option.bind_eq_bind, Option.bind_some, List.foldlM_append]
    by_cases jams : Jams lexicon tokens
    · obtain ⟨reader', here, stuck⟩ := jams ⟨[], false, level', outer⟩ ⟨rfl, rfl⟩
      rw [here]
      exact stuck.foldlM _
    · obtain ⟨part, reads⟩ := (each tokens (by simp)).resolve_right jams
      rw [reads ⟨[], false, level', outer⟩ ⟨rfl, rfl⟩]
      refine ih (fun tokens member => each tokens (by simp [member])) ?_ _
      obtain ⟨other, member, jammed⟩ := one
      rcases List.mem_cons.mp member with rfl | later
      · exact absurd jammed jams
      · exact ⟨other, later, jammed⟩

theorem jams_node {k : Keyword} (connective : k = .and ∨ k = .or) {parts : List (List (Token α))}
    (each : ∀ tokens ∈ parts, (∃ part, Reads lexicon tokens part) ∨ Jams lexicon tokens)
    (one : ∃ tokens ∈ parts, Jams lexicon tokens) :
    Jams lexicon (.opening :: [Token.keyword k].intercalate parts ++ [.closing]) := by
  apply Jams.append
  rintro ⟨pending, complete, level, outer⟩ ⟨rfl, rfl⟩
  match parts with
  | [] => simp at one
  | first :: rest =>
    rw [intercalate_cons, List.foldlM_cons, (read_parenthesis lexicon level {} outer).1,
      Option.bind_eq_bind, Option.bind_some]
    by_cases jams : Jams lexicon first
    · exact jams.append _ ⟨[], false, {}, level :: outer⟩ ⟨rfl, rfl⟩
    · obtain ⟨part, reads⟩ := (each first (by simp)).resolve_right jams
      rw [List.foldlM_append, reads ⟨[], false, {}, level :: outer⟩ ⟨rfl, rfl⟩]
      refine jams_rest connective (fun tokens member => each tokens (by simp [member])) ?_ _ _
      obtain ⟨other, member, jammed⟩ := one
      rcases List.mem_cons.mp member with rfl | later
      · exact absurd jammed jams
      · exact ⟨other, later, jammed⟩

theorem jams_empty_list (strict : lexicon.emptyLists = false) (column : List Char) :
    Jams lexicon (Test.tokens (⟨column, .isIn, []⟩ : Test α)) := by
  rintro ⟨pending, complete, level, outer⟩ ⟨rfl, rfl⟩
  refine ⟨⟨[.ident column, .keyword .isIn, .opening, .closing], false, level, outer⟩, ?_, ?_⟩
  · simp [Test.tokens, List.intercalate, Reader.read, startsTest, test, listed, strict]
  · refine ⟨by simp, fun more => ?_⟩
    cases more with
    | nil => simp [test, strict]
    | cons token more =>
      simp only [List.cons_append, List.nil_append]
      rw [test_isIn column (by simp)]
      cases token <;> rfl

theorem jams_written {τ : Type} {tokens : τ → List (Token α)} {read : τ → Test α}
    {formula : Formula τ} (proper : formula.Proper)
    (tests : ∀ t, Reads lexicon (tokens t) (.test (read t)) ∨ Jams lexicon (tokens t))
    (one : ∃ t ∈ formula.tests, Jams lexicon (tokens t)) :
    Jams lexicon (written tokens formula) := by
  -- A part without such a test is read.
  have part_read : ∀ {part : Formula τ}, part.Proper → ¬(∃ t ∈ part.tests, Jams lexicon (tokens t)) →
      Reads lexicon (written tokens part) (part.map read) := by
    intro part proper none
    refine reads_written proper fun t found => (tests t).resolve_right fun jams => ?_
    exact none ⟨t, found, jams⟩
  have node : ∀ {k : Keyword} {parts : List (Formula τ)}, k = .and ∨ k = .or →
      (∀ part ∈ parts, part.Proper) → (∃ t ∈ parts.flatMap Formula.tests, Jams lexicon (tokens t)) →
      (∀ part ∈ parts, (∃ t ∈ part.tests, Jams lexicon (tokens t)) →
        Jams lexicon (written tokens part)) →
      Jams lexicon
        (.opening :: [Token.keyword k].intercalate (parts.map (written tokens)) ++ [.closing]) := by
    intro k parts connective proper one ih
    refine jams_node connective ?_ ?_
    · intro words member
      obtain ⟨part, inside, rfl⟩ := List.mem_map.mp member
      by_cases jams : ∃ t ∈ part.tests, Jams lexicon (tokens t)
      · exact .inr (ih part inside jams)
      · exact .inl ⟨_, part_read (proper part inside) jams⟩
    · obtain ⟨t, found, jams⟩ := one
      obtain ⟨part, inside, here⟩ := List.mem_flatMap.mp found
      exact ⟨written tokens part, List.mem_map_of_mem inside, ih part inside ⟨t, here, jams⟩⟩
  induction proper with
  | test t => simpa [Formula.tests, written] using one
  | @all parts several proper ih =>
    rw [written, writtenParts_eq]
    rw [Formula.tests, Formula.testsOf_eq] at one
    exact node (.inl rfl) proper one fun part inside => ih part inside
  | @any parts several proper ih =>
    rw [written, writtenParts_eq]
    rw [Formula.tests, Formula.testsOf_eq] at one
    exact node (.inr rfl) proper one fun part inside => ih part inside
  | @not part proper ih => exact (ih one).not

end Jams

end Firefly.SqlText
