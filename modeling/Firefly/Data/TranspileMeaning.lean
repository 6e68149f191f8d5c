import Firefly.Data.TranspileQuery

set_option autoImplicit false

namespace Firefly.Data.CustomQuery

open Lexemes

-- The case of the two keywords that the rewrites write anew does not count.
def canonical (l : Lexeme) : Lexeme :=
  if isWord "select".toList l then .word "SELECT".toList
  else if isWord "from".toList l then .word "FROM".toList else l

-- A select item that is just the alias becomes `*`. `start` tells that an item begins here, `depth`
-- counts the brackets that are open.
def starItems (aliasName : Text) : (start : Bool) → (depth : Nat) → List Lexeme → List Lexeme
  | _, _, [] => []
  | start, depth, l :: rest =>
    let bare := start && isWord aliasName l && (rest.head? = none || rest.head? = some (.mark ','))
    let next := depth = 0 && l = .mark ',' || start && isWord "distinct".toList l
    let depth := if l = .mark '(' then depth + 1 else if l = .mark ')' then depth - 1 else depth
    (if bare then .mark '*' else l) :: starItems aliasName next depth rest

inductive TableName : Text → Prop where
  | plain {w : Text} (word : Word isNameChar w) : TableName w
  | qualified {w t : Text} (word : Word isNameChar w) (rest : TableName t) : TableName (w ++ '.' :: t)

def literals (ts : List Lexeme) : List Lexeme :=
  replaceLiteral "false".toList "0".toList false (replaceLiteral "true".toList "1".toList false ts)

namespace Query

variable (q : Query)

def clauses (table : Text) (items : List Lexeme) : List Lexeme :=
  .word q.select :: (items ++ .word q.fromWord :: (sqlTokens table ++ sqlTokens q.rest))

def expected (table : Text) : List Lexeme :=
  literals <| match q.aliased with
    | none => q.clauses table (sqlTokens q.list)
    | some a => dropPrefixes a.name false
        (starCalls a.name none (q.clauses table (starItems a.name true 0 (sqlTokens q.list))))

def Transpiled (table : Text) : Prop :=
  (sqlTokens (transpileJpql q.text q.entity table)).map canonical = (q.expected table).map canonical

def placed (table : Text) : Text := q.select ++ q.list ++ "FROM ".toList ++ table ++ q.rest

end Query

theorem canonical_mark (c : Char) : canonical (.mark c) = .mark c := by
  simp [canonical, isWord]

theorem canonical_word (w : Text) : ∃ v, canonical (.word w) = .word v ∧ lower v = lower w := by
  unfold canonical
  split
  · rename_i same
    refine ⟨_, rfl, ?_⟩
    have upper : lower "SELECT".toList = lower "select".toList := by decide
    rw [upper]
    exact (of_decide_eq_true same).symm
  · split
    · rename_i same
      refine ⟨_, rfl, ?_⟩
      have upper : lower "FROM".toList = lower "from".toList := by decide
      rw [upper]
      exact (of_decide_eq_true same).symm
    · exact ⟨w, rfl, rfl⟩

@[simp] theorem isWord_canonical (w : Text) (l : Lexeme) : isWord w (canonical l) = isWord w l := by
  cases l with
  | mark c => rw [canonical_mark]
  | word v =>
    obtain ⟨u, same, lowered⟩ := canonical_word v
    rw [same, isWord, isWord, lowered]

@[simp] theorem canonical_eq_mark {l : Lexeme} {c : Char} : canonical l = .mark c ↔ l = .mark c := by
  cases l with
  | mark d => rw [canonical_mark]
  | word w =>
    obtain ⟨v, same, -⟩ := canonical_word w
    simp [same]

theorem startsCall_canonical {aliasName : Text} (ts : List Lexeme) :
    startsCall aliasName (ts.map canonical) = startsCall aliasName ts := by
  match ts with
  | [] | [_] | [_, _] | [_, _, _] => rfl
  | _ :: _ :: _ :: _ :: _ => simp [startsCall]

theorem starCalls_canonical {aliasName : Text} (ahead : Option Nat) (ts : List Lexeme) :
    starCalls aliasName ahead (ts.map canonical) = (starCalls aliasName ahead ts).map canonical := by
  induction ts generalizing ahead with
  | nil => cases ahead <;> rfl
  | cons l ts ih =>
    rcases ahead with _ | _ | n
    · rw [List.map_cons, starCalls, starCalls, ← List.map_cons, startsCall_canonical, ih]
      rfl
    · rw [List.map_cons, starCalls, starCalls, ih, List.map_cons, canonical_mark]
    · rw [List.map_cons, starCalls, starCalls, ih, List.map_cons]

theorem dropPrefixes_canonical {aliasName : Text} (dot : Bool) (ts : List Lexeme) :
    dropPrefixes aliasName dot (ts.map canonical) = (dropPrefixes aliasName dot ts).map canonical := by
  induction ts generalizing dot with
  | nil => cases dot <;> rfl
  | cons l ts ih =>
    cases dot with
    | true => rw [List.map_cons, dropPrefixes, dropPrefixes, ih]
    | false =>
      have next : (ts.map canonical).head? = some (.mark '.') ↔ ts.head? = some (.mark '.') := by
        cases ts <;> simp
      rw [List.map_cons, dropPrefixes, dropPrefixes]
      simp only [isWord_canonical, next]
      split
      · exact ih true
      · rw [ih, List.map_cons]

theorem replaceLiteral_canonical {literal repl : Text} (fixed : canonical (.word repl) = .word repl)
    (equals : Bool) (ts : List Lexeme) :
    replaceLiteral literal repl equals (ts.map canonical) =
      (replaceLiteral literal repl equals ts).map canonical := by
  induction ts generalizing equals with
  | nil => rfl
  | cons l ts ih =>
    rw [List.map_cons, replaceLiteral, replaceLiteral, ih, List.map_cons]
    simp only [isWord_canonical, canonical_eq_mark]
    congr 1
    split
    · exact fixed.symm
    · rfl

theorem literals_canonical (ts : List Lexeme) :
    literals (ts.map canonical) = (literals ts).map canonical := by
  rw [literals, replaceLiteral_canonical (by decide), replaceLiteral_canonical (by decide)]
  rfl

def TightDots (aliasName : Text) (ls : List Lexeme) : Prop :=
  ∀ v rest, .word v :: rest <:+ ls → lower v = lower aliasName →
    (visible isAsciiWhitespace rest).head? = some (.mark '.') → rest.head? = some (.mark '.')

section Dots

variable {aliasName : Text} {ls : List Lexeme}

theorem TightDots.of_suffix {behind : List Lexeme} (tight : TightDots aliasName ls)
    (within : behind <:+ ls) : TightDots aliasName behind :=
  fun v rest here => tight v rest (here.trans within)

theorem tightDots_mark {c : Char} (tight : TightDots aliasName ls) :
    TightDots aliasName (.mark c :: ls) := by
  intro v rest here same dotted
  rcases List.suffix_cons_iff.mp here with whole | within
  · cases whole
  · exact tight v rest within same dotted

theorem tightDots_word {w : Text} (tight : TightDots aliasName ls)
    (first : lower w = lower aliasName →
      (visible isAsciiWhitespace ls).head? = some (.mark '.') → ls.head? = some (.mark '.')) :
    TightDots aliasName (.word w :: ls) := by
  intro v rest here same dotted
  rcases List.suffix_cons_iff.mp here with whole | within
  · obtain ⟨hw, rfl⟩ := List.cons.inj whole
    obtain rfl := Lexeme.word.inj hw
    exact first same dotted
  · exact tight v rest within same dotted

instance decidableTightDots (aliasName : Text) : (ls : List Lexeme) → Decidable (TightDots aliasName ls)
  | [] => isTrue fun v rest here => by simp at here
  | .mark c :: ls =>
    have := decidableTightDots aliasName ls
    decidable_of_iff (TightDots aliasName ls)
      ⟨tightDots_mark, fun tight => tight.of_suffix (List.suffix_cons ..)⟩
  | .word w :: ls =>
    have := decidableTightDots aliasName ls
    decidable_of_iff (TightDots aliasName ls ∧ (lower w = lower aliasName →
        (visible isAsciiWhitespace ls).head? = some (.mark '.') → ls.head? = some (.mark '.')))
      ⟨fun both => tightDots_word both.1 both.2, fun tight =>
        ⟨tight.of_suffix (List.suffix_cons ..), tight w ls List.suffix_rfl⟩⟩

theorem head_starFirstCall (ls : List Lexeme) : (starFirstCall aliasName ls).head? = ls.head? := by
  cases ls with
  | nil => rfl
  | cons l ls =>
    cases l with
    | mark c => rfl
    | word w =>
      rw [starFirstCall]
      split <;> rfl

theorem head_visible_starFirstCall (ls : List Lexeme) :
    (visible isAsciiWhitespace (starFirstCall aliasName ls)).head? =
      (visible isAsciiWhitespace ls).head? := by
  induction ls with
  | nil => rfl
  | cons l ls ih =>
    cases l with
    | mark c =>
      rw [starFirstCall]
      by_cases blank : isAsciiWhitespace c
      · rw [visible_blank blank, visible_blank blank, ih]
      · rw [visible_mark (by simpa using blank), visible_mark (by simpa using blank)]
        rfl
    | word w =>
      rw [starFirstCall]
      split <;> rfl

theorem tightDots_starFirstCall (tight : TightDots aliasName ls) :
    TightDots aliasName (starFirstCall aliasName ls) := by
  induction ls with
  | nil => exact tight
  | cons l ls ih =>
    have behind := tight.of_suffix (List.suffix_cons l ls)
    cases l with
    | mark c => exact tightDots_mark (ih behind)
    | word w =>
      rw [starFirstCall]
      split
      · rename_i reads
        obtain ⟨inner, rfl, -⟩ := head_of_readsCall reads
        have closing := (List.dropWhile_suffix (· ≠ Lexeme.mark ')')).trans
          (List.suffix_cons (.mark '(') inner)
        exact tightDots_word (tightDots_mark (tightDots_mark (behind.of_suffix closing)))
          fun _ dotted => by rw [visible_mark (c := '(') rfl] at dotted; cases dotted
      · refine tightDots_word (ih behind) fun same dotted => ?_
        rw [head_visible_starFirstCall] at dotted
        rw [head_starFirstCall]
        exact tight w ls List.suffix_rfl same dotted

theorem visible_dropPrefixes (tight : TightDots aliasName ls) :
    visible isAsciiWhitespace (dropPrefixes aliasName false ls) =
      dropPrefixes aliasName false (visible isAsciiWhitespace ls) := by
  induction size : ls.length using Nat.strong_induction_on generalizing ls with
  | _ size ih =>
    cases ls with
    | nil => rfl
    | cons l ls =>
      have behind := tight.of_suffix (List.suffix_cons l ls)
      have later := ih ls.length (by simp [← size]) behind rfl
      cases l with
      | mark c =>
        rw [dropPrefixes, if_neg (by simp [isWord])]
        by_cases blank : isAsciiWhitespace c
        · rw [visible_blank blank, visible_blank blank, later]
        · have shown : isAsciiWhitespace c = false := by simpa using blank
          rw [visible_mark shown, visible_mark shown, later, dropPrefixes, if_neg (by simp [isWord])]
      | word w =>
        rw [dropPrefixes, visible_word, dropPrefixes]
        by_cases prefixed : isWord aliasName (.word w) = true ∧ ls.head? = some (.mark '.')
        · obtain ⟨after, rfl⟩ := List.head?_eq_some_iff.mp prefixed.2
          have shown : visible isAsciiWhitespace (.mark '.' :: after) =
              .mark '.' :: visible isAsciiWhitespace after := visible_mark rfl _
          rw [if_pos prefixed, shown, if_pos ⟨prefixed.1, rfl⟩, dropPrefixes, dropPrefixes]
          exact ih after.length (by simp [← size]) (behind.of_suffix (List.suffix_cons ..)) rfl
        · have plain : ¬ (isWord aliasName (.word w) = true ∧
              (visible isAsciiWhitespace ls).head? = some (.mark '.')) := by
            rintro ⟨same, dotted⟩
            exact prefixed ⟨same, tight w ls List.suffix_rfl (by simpa [isWord] using same) dotted⟩
          rw [if_neg prefixed, if_neg plain, visible_word, later]

end Dots

theorem oneWord : Word isNameChar "1".toList := ⟨by decide, List.all_eq_true.mp (by decide)⟩

theorem zeroWord : Word isNameChar "0".toList := ⟨by decide, List.all_eq_true.mp (by decide)⟩

theorem trueWord : Word isNameChar "true".toList := ⟨by decide, List.all_eq_true.mp (by decide)⟩

theorem falseWord : Word isNameChar "false".toList := ⟨by decide, List.all_eq_true.mp (by decide)⟩

theorem sqlTokens_literals (sql : Text) :
    sqlTokens (replaceBoolLiteral (replaceBoolLiteral sql "true".toList "1".toList)
      "false".toList "0".toList) = literals (sqlTokens sql) := by
  rw [replaceBoolLiteral, sqlTokens_replaceBool falseWord zeroWord, replaceBoolLiteral,
    sqlTokens_replaceBool trueWord oneWord]
  rfl

theorem sqlTokens_stripAlias {aliasName : Text} (word : Word isNameChar aliasName) (sql : Text) :
    sqlTokens (stripAliasPrefix (replaceCountAlias sql aliasName) aliasName) =
      visible isAsciiWhitespace
        (dropPrefixes aliasName false (starFirstCall aliasName (lexemes sql))) := by
  rw [sqlTokens, stripAliasPrefix, lexemes_stripFrom word _ none (fun _ => rfl), replaceCountAlias_eq,
    lexemes_countScan]

namespace Query

variable (q : Query)

theorem selectWord : Word isNameChar q.select :=
  word_of_lower (show lower q.select = lower "select".toList from q.selects)
    ⟨by decide, List.all_eq_true.mp (by decide)⟩

theorem lexemes_from {front : Text} (ends : ∀ c ∈ front.getLast?, isNameChar c = false)
    (table : Text) {after : Text} (begins : ∀ c ∈ after.head?, isNameChar c = false) :
    lexemes (front ++ "FROM ".toList ++ table ++ after) =
      lexemes front ++ .word "FROM".toList :: .mark ' ' :: (lexemes table ++ lexemes after) := by
  have split : front ++ "FROM ".toList ++ table ++ after =
      front ++ ("FROM".toList ++ ' ' :: (table ++ after)) := by simp
  rw [split, lexemes_append (apart_of_end ends),
    lexemes_word ⟨by decide, List.all_eq_true.mp (by decide)⟩ (by simp; decide),
    lexemes_mark (by decide), lexemes_append (apart_of_start begins)]

theorem selectNeedle_split (aliasName : Text) :
    selectNeedle aliasName = "select".toList ++ ' ' :: lower aliasName := by
  have letters : "select ".toList = "select".toList ++ [' '] := by simp
  exact (congrArg (· ++ lower aliasName) letters).trans (List.append_assoc ..)

def FirstItem (aliasName : Text) : Prop :=
  ∃ name more, q.list = ' ' :: (name ++ more) ∧ lower name = lower aliasName ∧
    goesOn more.head? = false ∧
      starItems aliasName true 0 (sqlTokens q.list) = .mark '*' :: sqlTokens more

def NoItem (table aliasName : Text) : Prop :=
  starItems aliasName true 0 (sqlTokens q.list) = sqlTokens q.list ∧
    ∀ pos, find (selectNeedle aliasName) (lower (q.placed table)) = some pos →
      goesOn ((q.placed table).drop (pos + (selectNeedle aliasName).length)).head? = true

theorem replaceSelect_noItem {table aliasName : Text} (none_ : q.NoItem table aliasName) :
    replaceSelectAlias (q.placed table) aliasName = q.placed table := by
  rw [replaceSelectAlias]
  split
  · rfl
  · rename_i pos found
    dsimp only
    rw [if_pos (none_.2 pos found)]

theorem replaceSelect_first {table aliasName name more : Text}
    (list : q.list = ' ' :: (name ++ more)) (same : lower name = lower aliasName)
    (stops : goesOn (more ++ "FROM ".toList ++ table ++ q.rest).head? = false) :
    replaceSelectAlias (q.placed table) aliasName =
      "SELECT *".toList ++ (more ++ "FROM ".toList ++ table ++ q.rest) := by
  have split : q.placed table =
      (q.select ++ ' ' :: name) ++ (more ++ "FROM ".toList ++ table ++ q.rest) := by
    simp [placed, list]
  have needle : lower (q.select ++ ' ' :: name) = selectNeedle aliasName := by
    have lowered : lower (' ' :: name) = ' ' :: lower aliasName := by rw [← same]; rfl
    rw [lower_append, q.selects, lowered, selectNeedle_split]
  have length : (selectNeedle aliasName).length = (q.select ++ ' ' :: name).length := by
    rw [← needle, length_lower]
  have here : find (selectNeedle aliasName) (lower (q.placed table)) = some 0 := by
    rw [split, lower_append, needle]
    exact find_prefix (List.prefix_append ..)
  rw [replaceSelectAlias, here]
  dsimp only
  rw [Nat.zero_add, length, split, List.drop_left, stops]
  simp

theorem canonical_select : canonical (.word q.select) = .word "SELECT".toList := by
  have same : isWord "select".toList (.word q.select) = true := by
    rw [isWord, q.selects]
    decide
  rw [canonical, if_pos same]

theorem canonical_from : canonical (.word q.fromWord) = .word "FROM".toList := by
  have same : isWord "from".toList (.word q.fromWord) = true := by
    rw [isWord, q.froms]
    decide
  have other : ¬ isWord "select".toList (.word q.fromWord) = true := by
    rw [isWord, q.froms]
    decide
  rw [canonical, if_neg other, if_pos same]

theorem clauses_canonical (table : Text) (items : List Lexeme) :
    (q.clauses table items).map canonical = .word "SELECT".toList ::
      ((items ++ .word "FROM".toList :: (sqlTokens table ++ sqlTokens q.rest)).map canonical) := by
  have fixed : canonical (.word "FROM".toList) = .word "FROM".toList := by decide
  simp only [clauses, List.map_cons, List.map_append, canonical_select, canonical_from, fixed]

theorem sqlTokens_from {front : Text} (ends : ∀ c ∈ front.getLast?, isNameChar c = false)
    (table : Text) {after : Text} (begins : ∀ c ∈ after.head?, isNameChar c = false) :
    sqlTokens (front ++ "FROM ".toList ++ table ++ after) =
      sqlTokens front ++ .word "FROM".toList :: (sqlTokens table ++ sqlTokens after) := by
  rw [sqlTokens, lexemes_from ends table begins, visible_append, visible_word, visible_blank rfl,
    visible_append]
  rfl

theorem lexemes_list (behind : Text) :
    lexemes (q.select ++ (q.list ++ behind)) = .word q.select :: lexemes (q.list ++ behind) := by
  obtain ⟨c, more, list⟩ := List.exists_cons_of_ne_nil q.filled
  rw [lexemes_word q.selectWord]
  intro d first
  refine q.before d ?_
  rw [list] at first ⊢
  exact first

theorem lexemes_placed (table : Text) : lexemes (q.placed table) =
    .word q.select :: lexemes (q.list ++ "FROM ".toList ++ table ++ q.rest) := by
  have split : q.placed table = q.select ++ (q.list ++ ("FROM ".toList ++ table ++ q.rest)) := by
    simp [placed]
  rw [split, q.lexemes_list]
  simp only [List.append_assoc]

theorem sqlTokens_placed (table : Text) :
    (sqlTokens (q.placed table)).map canonical = (q.clauses table (sqlTokens q.list)).map canonical := by
  rw [sqlTokens, q.lexemes_placed, visible_word, ← sqlTokens, sqlTokens_from q.behind table q.ends, q.clauses_canonical,
    List.map_cons, q.canonical_select]

end Query

theorem readsCall_other {aliasName w : Text} {behind : List Lexeme}
    (other : behind.head? ≠ some (.mark '(')) : readsCall aliasName w behind = false := by
  simp [readsCall, other]

theorem startsCall_other {aliasName : Text} {l : Lexeme} (other : isWord "count".toList l = false)
    (ts : List Lexeme) : startsCall aliasName (l :: ts) = false := by
  unfold startsCall
  split
  · rename_i same
    obtain ⟨rfl, -⟩ := List.cons.inj same
    rw [other]
    rfl
  · rfl

theorem callsRight_behind {aliasName w : Text} {behind : List Lexeme}
    (other : behind.head? ≠ some (.mark '(')) (right : CallsRight aliasName (.word w :: behind)) :
    CallsRight aliasName behind := by
  rw [CallsRight, if_neg (by simp [readsCall_other other])] at right
  exact right.2

theorem bare_of_starItems {aliasName : Text} {l : Lexeme} {rest behind : List Lexeme}
    (word : ∀ c, l ≠ .mark c)
    (starred : starItems aliasName true 0 (l :: rest) = .mark '*' :: behind) :
    rest.head? = none ∨ rest.head? = some (.mark ',') := by
  rw [starItems] at starred
  have first := (List.cons.inj starred).1
  split at first
  · rename_i bare
    simp only [Bool.and_eq_true, Bool.or_eq_true, decide_eq_true_eq] at bare
    exact bare.2
  · exact absurd first (word '*')

namespace Query

variable (q : Query)

theorem select_right {table aliasName : Text} (word : Word isNameChar aliasName)
    (select : q.FirstItem aliasName ∨ q.NoItem table aliasName)
    (calls : CallsRight aliasName (lexemes (q.placed table)))
    (tight : TightDots aliasName (lexemes (q.placed table))) :
    let ls := lexemes (replaceSelectAlias (q.placed table) aliasName)
    CallsRight aliasName ls ∧ TightDots aliasName ls ∧
      (visible isAsciiWhitespace ls).map canonical =
        (q.clauses table (starItems aliasName true 0 (sqlTokens q.list))).map canonical := by
  rcases select with ⟨name, more, list, same, stops, starred⟩ | none_
  · have isName := word_of_lower same word
    have filled : more ≠ [] := by
      rintro rfl
      have last := q.behind (name.getLast isName.some) (by
        rw [list, List.append_nil, List.getLast?_cons, List.getLast?_eq_some_getLast isName.some]
        rfl)
      rw [isName.all _ (List.getLast_mem _)] at last
      cases last
    obtain ⟨c, after, rfl⟩ := List.exists_cons_of_ne_nil filled
    have between : isNameChar c = false := by
      simp only [goesOn, List.head?_cons, Option.any_some, Bool.or_eq_false_iff] at stops
      exact stops.1
    have ends : ∀ d ∈ (c :: after).getLast?, isNameChar d = false := by
      intro d last
      refine q.behind d ?_
      rw [list, ← List.cons_append, List.getLast?_append_of_ne_nil _ filled]
      exact last
    have items : sqlTokens q.list = .word name :: sqlTokens (c :: after) := by
      rw [list, sqlTokens_blank rfl, sqlTokens_word isName (by simpa using between)]
    have closed : c ≠ '(' := by
      rintro rfl
      rw [items] at starred
      have bare := bare_of_starItems (by simp) starred
      rw [sqlTokens_mark between rfl] at bare
      simp at bare
    have stops' : goesOn (c :: after ++ "FROM ".toList ++ table ++ q.rest).head? = false := stops
    have placed : lexemes (q.placed table) = .word q.select :: .mark ' ' :: .word name ::
        lexemes (c :: after ++ "FROM ".toList ++ table ++ q.rest) := by
      rw [q.lexemes_placed, list]
      simp only [List.cons_append, List.append_assoc]
      rw [lexemes_mark rfl, lexemes_word isName (by simpa using between)]
    have starred' : lexemes ("SELECT *".toList ++ (c :: after ++ "FROM ".toList ++ table ++ q.rest)) =
        .word "SELECT".toList :: .mark ' ' :: .mark '*' ::
          lexemes (c :: after ++ "FROM ".toList ++ table ++ q.rest) := by
      have letters : "SELECT *".toList = "SELECT".toList ++ [' ', '*'] := by simp
      rw [letters, List.append_assoc, lexemes_word ⟨by decide, List.all_eq_true.mp (by decide)⟩
        (by simp; decide)]
      rfl
    have behind : (lexemes (c :: after ++ "FROM ".toList ++ table ++ q.rest)).head? ≠
        some (.mark '(') := by
      simp only [List.cons_append]
      rw [lexemes_mark between]
      simpa using closed
    rw [placed] at calls tight
    have spaced := callsRight_behind (by simp) calls
    have named : CallsRight aliasName (.word name ::
        lexemes (c :: after ++ "FROM ".toList ++ table ++ q.rest)) := spaced
    have calls' := callsRight_behind behind named
    have tight' := tight.of_suffix
      (List.suffix_append [Lexeme.word q.select, .mark ' ', .word name] _)
    rw [q.replaceSelect_first list same stops', starred']
    refine ⟨?_, ?_, ?_⟩
    · rw [CallsRight, if_neg (by rw [readsCall_other (by simp)]; simp)]
      exact ⟨startsCall_other (by decide) _, calls'⟩
    · exact tightDots_word (tightDots_mark (tightDots_mark tight')) fun _ dotted => by
        rw [visible_blank rfl, visible_mark (c := '*') rfl] at dotted
        cases dotted
    · rw [visible_word, visible_blank rfl, visible_mark rfl, ← sqlTokens, sqlTokens_from ends table q.ends,
        q.clauses_canonical, starred]
      have fixed : canonical (.word "SELECT".toList) = .word "SELECT".toList := by decide
      rw [List.map_cons, fixed]
      rfl
  · intro ls
    have same : ls = lexemes (q.placed table) := by rw [← q.replaceSelect_noItem none_]
    rw [same, none_.1]
    exact ⟨calls, tight, q.sqlTokens_placed table⟩

structure Plain (table : Text) (a : Alias) : Prop where
  gap : q.gap = [' ']
  spaced : a.gap = [' ']
  select : q.FirstItem a.name ∨ q.NoItem table a.name
  calls : CallsRight a.name (lexemes (q.placed table))
  dots : TightDots a.name (lexemes (q.placed table))

theorem word_run {w t : Text} (word : Word isNameChar w) (start : ∀ d ∈ t.head?, isNameChar d = false) :
    (w ++ t).takeWhile isNameChar = w ∧ (w ++ t).dropWhile isNameChar = t := by
  rw [List.takeWhile_append_of_pos word.all, List.dropWhile_append_of_pos word.all]
  cases t with
  | nil => simp
  | cons c t => simp [start c rfl]

theorem transpile_aliased {table : Text} {a : Alias} (aliased : q.aliased = some a)
    (gap : q.gap = [' ']) (spaced : a.gap = [' ']) :
    sqlTokens (transpileJpql q.text q.entity table) =
      literals (visible isAsciiWhitespace (dropPrefixes a.name false (starFirstCall a.name
        (lexemes (replaceSelectAlias (q.placed table) a.name))))) := by
  have following : q.following = ' ' :: (a.name ++ q.rest) := by
    simp [Parts.following, Parts.named, aliased, spaced]
  obtain ⟨name, rest⟩ := word_run a.word q.ends
  have found : findFromAlias q.text q.entity = some a.name := by
    rw [q.findFromAlias_recognised gap following, name, if_neg a.word.some]
  have replaced : replaceFromEntityAlias q.text q.entity table = q.placed table := by
    rw [q.replaceFrom_recognised gap following, rest, placed]
  rw [transpileJpql, found, replaced, sqlTokens_literals, sqlTokens_stripAlias a.word]

theorem transpiled_of_plain {table : Text} {a : Alias} (aliased : q.aliased = some a)
    (plain : q.Plain table a) : q.Transpiled table := by
  obtain ⟨calls, tight, items⟩ := q.select_right a.word plain.select plain.calls plain.dots
  rw [Transpiled, q.transpile_aliased aliased plain.gap plain.spaced,
    visible_dropPrefixes (tightDots_starFirstCall tight), visible_starFirstCall calls, expected,
    aliased]
  dsimp only
  rw [← literals_canonical, ← literals_canonical, ← dropPrefixes_canonical, ← dropPrefixes_canonical,
    ← starCalls_canonical, ← starCalls_canonical, items]

end Query

end Firefly.Data.CustomQuery
