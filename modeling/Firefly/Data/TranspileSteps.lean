import Firefly.Data.CustomQuery
import Firefly.Shared.Lexemes

set_option autoImplicit false

-- The rewrites of `transpile_jpql`. Positions count characters; lowering is ASCII only, so it moves
-- none.

namespace Firefly.Data.CustomQuery

def lower (s : Text) : Text := s.map Char.toLower

def find (needle : Text) : Text → Option Nat
  | [] => if needle = [] then some 0 else none
  | c :: rest =>
    if needle.isPrefixOf (c :: rest) then some 0 else (find needle rest).map (· + 1)

def fromNeedle (entityName : Text) : Text := "from ".toList ++ lower entityName ++ [' ']

def findFromAlias (jpql entityName : Text) : Option Text :=
  match find (fromNeedle entityName) (lower jpql) with
  | none => none
  | some pos =>
    let rest := jpql.drop (pos + (fromNeedle entityName).length)
    let aliasName := rest.takeWhile isNameChar
    if aliasName = [] then none else some aliasName

def replaceFromEntityAlias (jpql entityName table : Text) : Text :=
  match find (fromNeedle entityName) (lower jpql) with
  | none => jpql
  | some pos =>
    let after := pos + (fromNeedle entityName).length
    let aliasLen := ((jpql.drop after).takeWhile isNameChar).length
    jpql.take pos ++ "FROM ".toList ++ table ++ jpql.drop (after + aliasLen)

def selectNeedle (aliasName : Text) : Text := "select ".toList ++ lower aliasName

def goesOn (next : Option Char) : Bool := next.any fun c => isNameChar c || c = '.'

def replaceSelectAlias (sql aliasName : Text) : Text :=
  match find (selectNeedle aliasName) (lower sql) with
  | none => sql
  | some pos =>
    let stop := pos + (selectNeedle aliasName).length
    if goesOn (sql.drop stop).head? then sql
    else sql.take pos ++ "SELECT *".toList ++ sql.drop stop

def countNeedle : Text := "count(".toList

def holdsAlias (aliasName rest : Text) : Bool :=
  ')' ∈ rest && lower (Text.trim (rest.takeWhile (· ≠ ')'))) = lower aliasName

theorem find_le {needle text : Text} {pos : Nat} (found : find needle text = some pos) :
    pos + needle.length ≤ text.length := by
  induction text generalizing pos with
  | nil =>
    rw [find] at found
    split at found
    · rename_i empty
      obtain rfl := Option.some.inj found
      simp [empty]
    · cases found
  | cons c rest ih =>
    rw [find] at found
    split at found
    · rename_i starts
      obtain rfl := Option.some.inj found
      simpa using (List.isPrefixOf_iff_prefix.mp starts).length_le
    · obtain ⟨before, later, rfl⟩ := Option.map_eq_some_iff.mp found
      have inside := ih later
      rw [List.length_cons]
      omega

def replaceCountFrom (aliasName done rest : Text) : Text :=
  match _found : find countNeedle (lower rest) with
  | none => done ++ rest
  | some rel =>
    let opened := rel + countNeedle.length
    if holdsAlias aliasName (rest.drop opened) then
      done ++ rest.take opened ++ '*' :: (rest.drop opened).dropWhile (· ≠ ')')
    else replaceCountFrom aliasName (done ++ rest.take opened) (rest.drop opened)
termination_by rest.length
decreasing_by
  have inside := find_le _found
  simp only [lower, List.length_map, countNeedle, String.length_toList] at inside
  simp only [countNeedle, String.length_toList, List.length_drop]
  have six : "count(".length = 6 := rfl
  omega

def replaceCountAlias (sql aliasName : Text) : Text := replaceCountFrom aliasName [] sql

-- The loop of `strip_alias_prefix` behind the character `before`; `skip` characters of a prefix are
-- still to be passed over.
def stripFrom (aliasName : Text) : (skip : Nat) → (before : Option Char) → Text → Text
  | _, _, [] => []
  | skip + 1, _, c :: rest => stripFrom aliasName skip (some c) rest
  | 0, before, c :: rest =>
    if (lower aliasName ++ ['.']).isPrefixOf (lower (c :: rest)) && !before.any isNameChar then
      stripFrom aliasName aliasName.length (some c) rest
    else c :: stripFrom aliasName 0 (some c) rest

def stripAliasPrefix (sql aliasName : Text) : Text := stripFrom aliasName 0 none sql

def isAsciiWhitespace (c : Char) : Bool :=
  c = ' ' || c = '\t' || c = '\n' || c = '\r' || c = Char.ofNat 12

-- The loop of `replace_bool_literal`; `skip` characters of a match are still to be passed over.
def replaceBoolFrom (literal repl : Text) : (skip : Nat) → Text → Text
  | _, [] => []
  | skip + 1, _ :: rest => replaceBoolFrom literal repl skip rest
  | 0, c :: rest =>
    if c = '=' then
      let spaces := (rest.takeWhile isAsciiWhitespace).length
      let after := (rest.drop spaces).drop literal.length
      if (lower literal).isPrefixOf (lower (rest.drop spaces)) && !after.head?.any isNameChar then
        '=' :: ' ' :: repl ++ replaceBoolFrom literal repl (spaces + literal.length) rest
      else c :: replaceBoolFrom literal repl 0 rest
    else c :: replaceBoolFrom literal repl 0 rest

def replaceBoolLiteral (sql literal repl : Text) : Text := replaceBoolFrom literal repl 0 sql

def transpileJpql (jpql entityName table : Text) : Text :=
  let sql := replaceFromEntityAlias jpql entityName table
  let sql := match findFromAlias jpql entityName with
    | some aliasName =>
      stripAliasPrefix (replaceCountAlias (replaceSelectAlias sql aliasName) aliasName) aliasName
    | none => sql
  let sql := replaceBoolLiteral sql "true".toList "1".toList
  replaceBoolLiteral sql "false".toList "0".toList

end Firefly.Data.CustomQuery

namespace Firefly.Data.CustomQuery

open Lexemes

def lexemes (t : Text) : List Lexeme := lex isNameChar t

def sqlTokens (t : Text) : List Lexeme := visible isAsciiWhitespace (lexemes t)

def isWord (w : Text) : Lexeme → Bool
  | .word v => lower v = lower w
  | .mark _ => false

-- `alias.field` becomes `field`; `dot` when the alias has just been dropped.
def dropPrefixes (aliasName : Text) : (dot : Bool) → List Lexeme → List Lexeme
  | _, [] => []
  | true, _ :: rest => dropPrefixes aliasName false rest
  | false, l :: rest =>
    if isWord aliasName l ∧ rest.head? = some (.mark '.') then dropPrefixes aliasName true rest
    else l :: dropPrefixes aliasName false rest

-- `= literal` becomes `= repl`; `equals` when the last token was the equals sign.
def replaceLiteral (literal repl : Text) : (equals : Bool) → List Lexeme → List Lexeme
  | _, [] => []
  | equals, l :: rest =>
    (if equals ∧ isWord literal l then .word repl else l) ::
      replaceLiteral literal repl (l = .mark '=') rest

theorem lower_append (s t : Text) : lower (s ++ t) = lower s ++ lower t := List.map_append

@[simp] theorem length_lower (s : Text) : (lower s).length = s.length := List.length_map ..

theorem isNameChar_of_isUpper {c : Char} (upper : c.isUpper = true) : isNameChar c = true := by
  simp [isNameChar, Char.isAlphanum, Char.isAlpha, upper]

theorem isNameChar_toLower (c : Char) : isNameChar c.toLower = isNameChar c := by
  by_cases upper : c.isUpper
  · rw [isNameChar_of_isUpper upper]
    simp [isNameChar, Char.isAlphanum, Char.isAlpha, upper]
  · rw [Char.toLower_eq_of_not_isUpper upper]

theorem toLower_of_mark {c : Char} (between : isNameChar c = false) : c.toLower = c := by
  refine Char.toLower_eq_of_not_isUpper fun upper => ?_
  simp [isNameChar_of_isUpper upper] at between

theorem mark_of_toLower {c d : Char} (lowered : c.toLower = d) (between : isNameChar d = false) :
    c = d := by
  rw [← lowered, isNameChar_toLower] at between
  rw [← lowered, toLower_of_mark between]

def lowerLexeme : Lexeme → Lexeme
  | .word w => .word (lower w)
  | .mark c => .mark c

theorem lexemes_lower (t : Text) : lexemes (lower t) = (lexemes t).map lowerLexeme := by
  induction t with
  | nil => rfl
  | cons c t ih =>
    have tail : lex isNameChar (lower t) = (lex isNameChar t).map lowerLexeme := ih
    by_cases named : isNameChar c
    · have named' : isNameChar c.toLower = true := by rw [isNameChar_toLower, named]
      simp only [lexemes, lower, List.map_cons, lex, named, named', if_true]
      simp only [lower] at tail
      rw [tail]
      cases lex isNameChar t with
      | nil => rfl
      | cons l ls => cases l <;> rfl
    · have between : isNameChar c = false := by simpa using named
      have between' : isNameChar c.toLower = false := by rw [isNameChar_toLower, between]
      have rest : lexemes (lower (c :: t)) = .mark c.toLower :: lexemes (lower t) := lex_mark between'
      have whole : lexemes (c :: t) = .mark c :: lexemes t := lex_mark between
      rw [rest, ih, toLower_of_mark between, whole]
      rfl

theorem lexemes_mark {c : Char} (between : isNameChar c = false) (t : Text) :
    lexemes (c :: t) = .mark c :: lexemes t := lex_mark between

theorem lexemes_word {w t : Text} (word : Word isNameChar w)
    (start : ∀ d ∈ t.head?, isNameChar d = false) : lexemes (w ++ t) = .word w :: lexemes t :=
  lex_word_append word start

theorem lexemes_append {a b : Text} (apart : Apart isNameChar a b) :
    lexemes (a ++ b) = lexemes a ++ lexemes b := lex_append apart

theorem word_lower {w : Text} (word : Word isNameChar w) : Word isNameChar (lower w) := by
  refine ⟨by simpa [lower] using word.some, fun c member => ?_⟩
  obtain ⟨d, inside, rfl⟩ := List.mem_map.mp member
  rw [isNameChar_toLower]
  exact word.all d inside

theorem mark_head_lower {t : Text} (start : ∀ d ∈ t.head?, isNameChar d = false) :
    ∀ d ∈ (lower t).head?, isNameChar d = false := by
  cases t with
  | nil => simp [lower]
  | cons c t => simpa [lower, isNameChar_toLower] using start

theorem word_prefix {v w t : Text} {m : Char} (first : Word isNameChar v) (second : Word isNameChar w)
    (between : isNameChar m = false) (start : ∀ d ∈ t.head?, isNameChar d = false)
    (starts : v ++ [m] <+: w ++ t) : v = w ∧ t.head? = some m := by
  obtain ⟨more, same⟩ := starts
  rw [List.append_assoc, List.singleton_append] at same
  have words := congrArg (lex isNameChar) same
  rw [lex_word_append first (by simpa using between), lex_word_append second start,
    lex_mark between] at words
  obtain ⟨head, tail⟩ := List.cons.inj words
  obtain rfl := Lexeme.word.inj head
  refine ⟨rfl, ?_⟩
  rw [← List.append_cancel_left same]
  rfl

theorem word_of_lower {v w : Text} (same : lower v = lower w) (word : Word isNameChar w) :
    Word isNameChar v := by
  refine ⟨fun empty => word.some ?_, fun c inside => ?_⟩
  · simpa [empty, lower, eq_comm] using same
  · have lowered : c.toLower ∈ lower w := same ▸ List.mem_map_of_mem inside
    obtain ⟨d, member, equal⟩ := List.mem_map.mp lowered
    rw [← isNameChar_toLower, ← equal, isNameChar_toLower]
    exact word.all d member

theorem exists_of_lower_prefix {s t : Text} (starts : lower s <+: lower t) :
    ∃ v more, t = v ++ more ∧ lower v = lower s ∧ v.length = s.length := by
  refine ⟨t.take s.length, t.drop s.length, (List.take_append_drop ..).symm, ?_, ?_⟩
  · rw [lower, List.map_take]
    have taken := List.prefix_iff_eq_take.mp starts
    rw [length_lower] at taken
    exact taken.symm
  · have within := starts.length_le
    rw [length_lower, length_lower] at within
    exact List.length_take_of_le within

section Strip

variable {aliasName : Text}

theorem stripFrom_skip (passed : Text) (before : Option Char) (t : Text) :
    stripFrom aliasName passed.length before (passed ++ t) =
      stripFrom aliasName 0 (passed.getLast?.or before) t := by
  induction passed generalizing before with
  | nil => rfl
  | cons c passed ih =>
    rw [List.cons_append, List.length_cons, stripFrom, ih]
    cases passed with
    | nil => rfl
    | cons d passed => simp [List.getLast?_eq_some_getLast]

theorem stripFrom_inside (w t : Text) {c : Char} (inside : isNameChar c = true)
    (all : ∀ d ∈ w, isNameChar d = true) :
    stripFrom aliasName 0 (some c) (w ++ t) =
      w ++ stripFrom aliasName 0 (some (w.getLast?.getD c)) t := by
  induction w generalizing c with
  | nil => rfl
  | cons d w ih =>
    rw [List.cons_append, stripFrom, if_neg (by simp [inside]), ih (all d (by simp))
      fun e member => all e (by simp [member])]
    cases w with
    | nil => rfl
    | cons e w => simp [List.getLast?_eq_some_getLast]

theorem stripFrom_mark (word : Word isNameChar aliasName) {c : Char} (between : isNameChar c = false)
    (before : Option Char) (t : Text) :
    stripFrom aliasName 0 before (c :: t) = c :: stripFrom aliasName 0 (some c) t := by
  rw [stripFrom, if_neg]
  intro starts
  obtain ⟨first, more, rfl⟩ := List.exists_cons_of_ne_nil word.some
  have named := word.all first (by simp)
  have same : first.toLower = c.toLower := by
    simp [lower, List.isPrefixOf] at starts
    exact starts.1.1
  rw [← isNameChar_toLower, same, isNameChar_toLower, between] at named
  cases named

theorem head_stripFrom (word : Word isNameChar aliasName) {t : Text}
    (start : ∀ d ∈ t.head?, isNameChar d = false) (before : Option Char) :
    ∀ d ∈ (stripFrom aliasName 0 before t).head?, isNameChar d = false := by
  cases t with
  | nil => simp [stripFrom]
  | cons c t =>
    have between := start c rfl
    rw [stripFrom_mark word between]
    simpa using between

theorem lexemes_stripFrom (word : Word isNameChar aliasName) (t : Text) (before : Option Char)
    (fresh : (∃ c ∈ t.head?, isNameChar c = true) → before.any isNameChar = false) :
    lexemes (stripFrom aliasName 0 before t) = dropPrefixes aliasName false (lexemes t) := by
  induction size : t.length using Nat.strong_induction_on generalizing t before with
  | _ size ih =>
    rcases text_cases isNameChar t with rfl | ⟨c, rest, rfl, between⟩ | ⟨w, rest, rfl, isw, start⟩
    · rfl
    · rw [stripFrom_mark word between, lexemes_mark between, lexemes_mark between,
        ih rest.length (by simp [← size]) rest (some c) (by simp [between]) rfl, dropPrefixes,
        if_neg (by simp [isWord])]
    · have opens : before.any isNameChar = false := by
        obtain ⟨first, more, rfl⟩ := List.exists_cons_of_ne_nil isw.some
        exact fresh ⟨first, rfl, isw.all first (by simp)⟩
      rw [lexemes_word isw start]
      by_cases prefixed : lower w = lower aliasName ∧ rest.head? = some '.'
      · -- the alias and its dot are passed over
        obtain ⟨same, dotted⟩ := prefixed
        obtain ⟨dot, after, rfl⟩ := List.exists_cons_of_ne_nil (l := rest) (by rintro rfl; simp at dotted)
        obtain rfl : dot = '.' := by simpa using dotted
        obtain ⟨first, more, rfl⟩ := List.exists_cons_of_ne_nil isw.some
        have length : aliasName.length = (more ++ ['.']).length := by
          have lengths := congrArg List.length same
          simpa using lengths.symm
        have starts : (lower aliasName ++ ['.']).isPrefixOf (lower (first :: more ++ '.' :: after)) =
            true := by
          rw [List.isPrefixOf_iff_prefix, lower_append, same]
          exact ⟨lower after, by simp [lower]⟩
        have shape : first :: more ++ '.' :: after = first :: ((more ++ ['.']) ++ after) := by simp
        rw [shape] at starts ⊢
        rw [stripFrom, if_pos (by rw [starts, opens]; rfl), length, stripFrom_skip,
          ih after.length (by simp [← size]; omega) after _
            (fun _ => by rw [List.getLast?_concat]; rfl) rfl,
          lexemes_mark rfl, dropPrefixes, if_pos ⟨by simpa [isWord] using same, rfl⟩, dropPrefixes]
      · have kept : ¬ (lower aliasName ++ ['.']).isPrefixOf (lower (w ++ rest)) = true := by
          rw [List.isPrefixOf_iff_prefix, lower_append]
          intro starts
          obtain ⟨same, dotted⟩ := word_prefix (word_lower word) (word_lower isw) (by decide)
            (mark_head_lower start) starts
          refine prefixed ⟨same.symm, ?_⟩
          cases rest with
          | nil => simp [lower] at dotted
          | cons c rest =>
            have lowered : c.toLower = '.' := by simpa [lower] using dotted
            rw [mark_of_toLower lowered (by decide)]
            rfl
        have plain : ¬ (isWord aliasName (.word w) = true ∧
            (lexemes rest).head? = some (.mark '.')) := by
          rintro ⟨same, dotted⟩
          refine prefixed ⟨by simpa [isWord] using same, ?_⟩
          cases rest with
          | nil => cases dotted
          | cons c rest =>
            rw [lexemes_mark (start c rfl)] at dotted
            simpa using dotted
        obtain ⟨first, more, rfl⟩ := List.exists_cons_of_ne_nil isw.some
        rw [List.cons_append] at kept ⊢
        rw [stripFrom, if_neg (by simp [kept]), stripFrom_inside more rest (isw.all first (by simp))
          fun d member => isw.all d (by simp [member]), ← List.cons_append,
          lexemes_word isw (head_stripFrom word start _),
          ih rest.length (by simp [← size]) rest _ (fun named => ?_) rfl, dropPrefixes,
          if_neg plain]
        obtain ⟨c, among, named⟩ := named
        rw [start c among] at named
        cases named

end Strip

section Literals

variable {literal repl : Text}

@[simp] theorem sqlTokens_nil : sqlTokens [] = [] := rfl

theorem sqlTokens_word {w t : Text} (word : Word isNameChar w)
    (start : ∀ d ∈ t.head?, isNameChar d = false) : sqlTokens (w ++ t) = .word w :: sqlTokens t := by
  rw [sqlTokens, lexemes_word word start]
  rfl

theorem sqlTokens_mark {c : Char} (between : isNameChar c = false) (shown : isAsciiWhitespace c = false)
    (t : Text) : sqlTokens (c :: t) = .mark c :: sqlTokens t := by
  rw [sqlTokens, lexemes_mark between, visible_mark shown]
  rfl

theorem not_name_of_blank {c : Char} (blank : isAsciiWhitespace c = true) : isNameChar c = false := by
  simp only [isAsciiWhitespace, Bool.or_eq_true, decide_eq_true_eq] at blank
  rcases blank with (((rfl | rfl) | rfl) | rfl) | rfl <;> decide

theorem sqlTokens_blank {c : Char} (blank : isAsciiWhitespace c = true) (t : Text) :
    sqlTokens (c :: t) = sqlTokens t := by
  rw [sqlTokens, lexemes_mark (not_name_of_blank blank), visible_blank blank]
  rfl

theorem sqlTokens_blanks {blanks : Text} (all : ∀ c ∈ blanks, isAsciiWhitespace c = true) (t : Text) :
    sqlTokens (blanks ++ t) = sqlTokens t := by
  induction blanks with
  | nil => rfl
  | cons c blanks ih =>
    rw [List.cons_append, sqlTokens_blank (all c (by simp)), ih fun d member => all d (by simp [member])]

theorem sqlTokens_append {a b : Text} (apart : Apart isNameChar a b) :
    sqlTokens (a ++ b) = sqlTokens a ++ sqlTokens b := by
  rw [sqlTokens, lexemes, lex_append apart, visible_append]
  rfl

theorem replaceBoolFrom_skip (passed t : Text) :
    replaceBoolFrom literal repl passed.length (passed ++ t) = replaceBoolFrom literal repl 0 t := by
  induction passed with
  | nil => rfl
  | cons c passed ih => rw [List.cons_append, List.length_cons, replaceBoolFrom, ih]

theorem replaceBoolFrom_run {run : Text} (none : '=' ∉ run) (t : Text) :
    replaceBoolFrom literal repl 0 (run ++ t) = run ++ replaceBoolFrom literal repl 0 t := by
  induction run with
  | nil => rfl
  | cons c run ih =>
    simp only [List.mem_cons, not_or] at none
    rw [List.cons_append, replaceBoolFrom, if_neg (Ne.symm none.1), ih none.2]
    rfl

theorem head_replaceBool {t : Text} (start : ∀ d ∈ t.head?, isNameChar d = false) :
    ∀ d ∈ (replaceBoolFrom literal repl 0 t).head?, isNameChar d = false := by
  cases t with
  | nil => simp [replaceBoolFrom]
  | cons c t =>
    have between := start c rfl
    rw [replaceBoolFrom]
    split
    · rename_i equals
      subst equals
      dsimp only
      split <;> simpa using between
    · simpa using between

theorem exists_blanks (t : Text) : ∃ blanks spaced, t = blanks ++ spaced ∧
    (∀ c ∈ blanks, isAsciiWhitespace c = true) ∧ ∀ c ∈ spaced.head?, isAsciiWhitespace c = false := by
  refine ⟨t.takeWhile isAsciiWhitespace, t.dropWhile isAsciiWhitespace,
    List.takeWhile_append_dropWhile.symm, fun c => List.mem_takeWhile_imp, fun c first => ?_⟩
  have stops := List.head?_dropWhile_not isAsciiWhitespace t
  rw [Option.mem_def] at first
  rw [first] at stops
  simpa using stops

theorem replaceBoolFrom_equals {blanks spaced : Text}
    (all : ∀ c ∈ blanks, isAsciiWhitespace c = true)
    (fresh : ∀ c ∈ spaced.head?, isAsciiWhitespace c = false) :
    replaceBoolFrom literal repl 0 ('=' :: (blanks ++ spaced)) =
      if lower literal <+: lower spaced ∧
          ∀ c ∈ (spaced.drop literal.length).head?, isNameChar c = false then
        '=' :: ' ' :: (repl ++ replaceBoolFrom literal repl 0 (spaced.drop literal.length))
      else '=' :: replaceBoolFrom literal repl 0 (blanks ++ spaced) := by
  have spaces : (blanks ++ spaced).takeWhile isAsciiWhitespace = blanks := by
    rw [List.takeWhile_append_of_pos all]
    cases spaced with
    | nil => simp
    | cons c spaced => simp [fresh c rfl]
  rw [replaceBoolFrom, if_pos rfl, spaces]
  dsimp only
  rw [List.drop_left]
  by_cases matched : lower literal <+: lower spaced ∧
      ∀ c ∈ (spaced.drop literal.length).head?, isNameChar c = false
  · rw [if_pos matched, if_pos]
    · obtain ⟨v, more, rfl, -, length⟩ := exists_of_lower_prefix matched.1
      have passed : blanks.length + literal.length = (blanks ++ v).length := by simp [length]
      rw [passed, ← List.append_assoc, replaceBoolFrom_skip, ← length, List.drop_left]
      rfl
    · rw [List.isPrefixOf_iff_prefix.mpr matched.1]
      cases first : (spaced.drop literal.length).head? with
      | none => rfl
      | some c => simpa [first] using matched.2
  · rw [if_neg matched, if_neg]
    simp only [Bool.and_eq_true, List.isPrefixOf_iff_prefix, Bool.not_eq_true', not_and] at matched ⊢
    intro starts bounded
    refine matched starts fun c among => ?_
    rw [Option.mem_def] at among
    simpa [among] using bounded

theorem replaceLiteral_fresh {ts : List Lexeme} (other : ∀ l ∈ ts.head?, isWord literal l = false) :
    replaceLiteral literal repl true ts = replaceLiteral literal repl false ts := by
  cases ts with
  | nil => rfl
  | cons l ts => simp [replaceLiteral, other l rfl]

theorem sqlTokens_replaceBool (isLiteral : Word isNameChar literal) (isRepl : Word isNameChar repl)
    (t : Text) : sqlTokens (replaceBoolFrom literal repl 0 t) =
      replaceLiteral literal repl false (sqlTokens t) := by
  induction size : t.length using Nat.strong_induction_on generalizing t with
  | _ size ih =>
    rcases text_cases isNameChar t with rfl | ⟨c, rest, rfl, between⟩ | ⟨w, rest, rfl, isw, start⟩
    · rfl
    · have later := ih rest.length (by simp [← size]) rest rfl
      by_cases equals : c = '='
      · subst equals
        obtain ⟨blanks, spaced, rfl, all, fresh⟩ := exists_blanks rest
        rw [replaceBoolFrom_equals all fresh, sqlTokens_mark rfl rfl, sqlTokens_blanks all]
        split
        · rename_i matched
          obtain ⟨v, more, rfl, same, length⟩ := exists_of_lower_prefix matched.1
          have bounded := matched.2
          rw [← length, List.drop_left] at bounded ⊢
          have spaceless : sqlTokens ('=' :: ' ' :: (repl ++ replaceBoolFrom literal repl 0 more)) =
              .mark '=' :: .word repl :: replaceLiteral literal repl false (sqlTokens more) := by
            rw [sqlTokens_mark rfl rfl, sqlTokens_blank rfl, sqlTokens_word isRepl (head_replaceBool bounded),
              ih more.length (by simp [← size]; omega) more rfl]
          rw [spaceless, sqlTokens_word (word_of_lower same isLiteral) bounded, replaceLiteral,
            if_neg (by simp), replaceLiteral, if_pos ⟨by simp, by simpa [isWord] using same⟩]
          rfl
        · rename_i unmatched
          have other : ∀ l ∈ (sqlTokens spaced).head?, isWord literal l = false := by
            intro l first
            rcases text_cases isNameChar spaced with rfl | ⟨c, after, rfl, mark⟩ | ⟨v, after, rfl, isv, start⟩
            · cases first
            · rw [sqlTokens_mark mark (fresh c rfl)] at first
              obtain rfl := Option.some.inj first
              rfl
            · rw [sqlTokens_word isv start] at first
              obtain rfl := Option.some.inj first
              by_contra literally
              have same : lower v = lower literal := by simpa [isWord] using literally
              have length : v.length = literal.length := by
                simpa using congrArg List.length same
              refine unmatched ⟨⟨lower after, by rw [lower_append, same]⟩, ?_⟩
              rwa [← length, List.drop_left]
          rw [sqlTokens_mark rfl rfl, later, sqlTokens_blanks all, replaceLiteral, if_neg (by simp),
            decide_eq_true rfl, replaceLiteral_fresh other]
      · rw [replaceBoolFrom, if_neg equals]
        by_cases blank : isAsciiWhitespace c
        · rw [sqlTokens_blank blank, sqlTokens_blank blank, later]
        · have shown : isAsciiWhitespace c = false := by simpa using blank
          rw [sqlTokens_mark between shown, sqlTokens_mark between shown, later, replaceLiteral,
            if_neg (by simp), decide_eq_false (by simpa using equals)]
    · have none : '=' ∉ w := fun inside => absurd (isw.all '=' inside) (by decide)
      have later := ih rest.length (by
        have some := List.length_pos_iff.mpr isw.some
        simp [← size, some]) rest rfl
      rw [replaceBoolFrom_run none, sqlTokens_word isw (head_replaceBool start), sqlTokens_word isw start,
        later, replaceLiteral, if_neg (by simp)]
      rfl

end Literals

end Firefly.Data.CustomQuery
