import Firefly.Data.TranspileMeaning

set_option autoImplicit false

-- No rewrite adds a token, so a word that is taken for an alias is missing in the end.

namespace Firefly.Data.CustomQuery

open Lexemes

theorem replaceLiteral_after (literal repl : Text) {ts : List Lexeme} {equals : Bool} {n : Nat}
    (other : ts[n]? ≠ some (.mark '=')) :
    (replaceLiteral literal repl equals ts)[n + 1]? = ts[n + 1]? ∧
      (replaceLiteral literal repl equals ts)[n]? ≠ some (.mark '=') := by
  induction ts generalizing equals n with
  | nil => simp [replaceLiteral]
  | cons l ts ih =>
    rw [replaceLiteral]
    cases n with
    | zero =>
      have plain : l ≠ .mark '=' := by simpa using other
      rw [decide_eq_false plain]
      refine ⟨?_, ?_⟩
      · cases ts with
        | nil => rfl
        | cons m ts => simp [replaceLiteral]
      · rw [List.getElem?_cons_zero]
        split
        · simp
        · simpa using plain
    | succ n =>
      rw [List.getElem?_cons_succ] at other
      rw [List.getElem?_cons_succ, List.getElem?_cons_succ, List.getElem?_cons_succ]
      exact ih other

theorem literals_after {ts : List Lexeme} {n : Nat} (other : ts[n]? ≠ some (.mark '=')) :
    (literals ts)[n + 1]? = ts[n + 1]? := by
  have first := @replaceLiteral_after "true".toList "1".toList ts false n other
  rw [literals, (replaceLiteral_after _ _ first.2).1, first.1]

theorem length_replaceLiteral (literal repl : Text) (equals : Bool) (ts : List Lexeme) :
    (replaceLiteral literal repl equals ts).length = ts.length := by
  induction ts generalizing equals with
  | nil => rfl
  | cons l ts ih => rw [replaceLiteral, List.length_cons, List.length_cons, ih]

@[simp] theorem length_literals (ts : List Lexeme) : (literals ts).length = ts.length := by
  rw [literals, length_replaceLiteral, length_replaceLiteral]

theorem dropPrefixes_sublist (aliasName : Text) (dot : Bool) (ls : List Lexeme) :
    (dropPrefixes aliasName dot ls).Sublist ls := by
  induction ls generalizing dot with
  | nil => cases dot <;> exact List.Sublist.slnil
  | cons l ls ih =>
    cases dot with
    | true => exact (ih false).cons l
    | false =>
      rw [dropPrefixes]
      split
      · exact (ih true).cons l
      · exact (ih false).cons_cons l

theorem length_visible_dropPrefixes (aliasName : Text) (ls : List Lexeme) :
    (visible isAsciiWhitespace (dropPrefixes aliasName false ls)).length ≤
      (visible isAsciiWhitespace ls).length :=
  ((dropPrefixes_sublist aliasName false ls).filter _).length_le

theorem length_sqlTokens_lower (t : Text) : (sqlTokens (lower t)).length = (sqlTokens t).length := by
  rw [sqlTokens, sqlTokens, lexemes_lower]
  induction lexemes t with
  | nil => rfl
  | cons l ls ih =>
    cases l with
    | word w =>
      rw [List.map_cons, lowerLexeme, visible_word, visible_word, List.length_cons, List.length_cons, ih]
    | mark c =>
      rw [List.map_cons, lowerLexeme]
      by_cases blank : isAsciiWhitespace c
      · rw [visible_blank blank, visible_blank blank, ih]
      · have shown : isAsciiWhitespace c = false := by simpa using blank
        rw [visible_mark shown, visible_mark shown, List.length_cons, List.length_cons, ih]

section Losses

variable {aliasName : Text}

theorem first_of_holdsAlias (word : Word isNameChar aliasName) {inner : Text}
    (holds : holdsAlias aliasName inner = true) :
    ∃ l ts, sqlTokens inner = l :: ts ∧ l ≠ .mark ')' := by
  simp only [holdsAlias, Bool.and_eq_true, decide_eq_true_eq] at holds
  obtain ⟨first, others, name⟩ := List.exists_cons_of_ne_nil word.some
  have inside : ∃ c ∈ inner.takeWhile (· ≠ ')'), isNameChar c = true := by
    have lowered : first.toLower ∈ lower (Text.trim (inner.takeWhile (· ≠ ')'))) := by
      rw [holds.2, name]
      exact List.mem_cons_self ..
    obtain ⟨c, among, same⟩ := List.mem_map.mp lowered
    refine ⟨c, Text.mem_of_mem_trim among, ?_⟩
    rw [← isNameChar_toLower, same, isNameChar_toLower]
    exact word.all first (by simp [name])
  obtain ⟨c, among, named⟩ := inside
  obtain ⟨blanks, spaced, rfl, all, fresh⟩ := exists_blanks inner
  have passes : ∀ d ∈ blanks, decide (d ≠ ')') = true := by
    intro d member
    rw [decide_eq_true_eq]
    rintro rfl
    exact absurd (all _ member) (by decide)
  rw [List.takeWhile_append_of_pos passes, List.mem_append] at among
  have later : c ∈ spaced.takeWhile (· ≠ ')') := by
    rcases among with white | later
    · rw [not_name_of_blank (all c white)] at named
      cases named
    · exact later
  rw [sqlTokens_blanks all]
  rcases text_cases isNameChar spaced with rfl | ⟨d, rest, rfl, between⟩ | ⟨w, rest, rfl, isw, start⟩
  · simp at later
  · refine ⟨_, _, sqlTokens_mark between (fresh d rfl) rest, ?_⟩
    intro closing
    obtain rfl := Lexeme.mark.inj closing
    simp at later
  · exact ⟨_, _, sqlTokens_word isw start, by simp⟩

theorem length_sqlTokens_countScan (word : Word isNameChar aliasName) (t : Text) :
    (sqlTokens (countScan aliasName t)).length ≤ (sqlTokens t).length := by
  induction size : t.length using Nat.strong_induction_on generalizing t with
  | _ size ih =>
    rcases text_cases isNameChar t with rfl | ⟨c, rest, rfl, between⟩ | ⟨w, rest, rfl, isw, start⟩
    · exact Nat.le_refl _
    · have later := ih rest.length (by simp [← size]) rest rfl
      rw [countScan_mark between]
      by_cases blank : isAsciiWhitespace c
      · rwa [sqlTokens_blank blank, sqlTokens_blank blank]
      · have shown : isAsciiWhitespace c = false := by simpa using blank
        rw [sqlTokens_mark between shown, sqlTokens_mark between shown]
        exact Nat.succ_le_succ later
    · have some := List.length_pos_iff.mpr isw.some
      have later := ih rest.length (by simp [← size, some]) rest rfl
      rw [countScan_word isw.all start]
      split
      · rename_i reads
        obtain ⟨inner, rfl⟩ := List.head?_eq_some_iff.mp reads.2.1
        obtain ⟨l, ts, items, other⟩ := first_of_holdsAlias word reads.2.2
        rw [List.tail_cons] at items
        have dropped : sqlTokens (inner.dropWhile (· ≠ ')')) =
            (sqlTokens inner).dropWhile (· ≠ .mark ')') := by
          rw [sqlTokens, lexemes_dropWhile, visible_dropWhile not_closing_of_blank]
          rfl
        rw [sqlTokens_word isw (by simp; decide), sqlTokens_word isw start, sqlTokens_mark rfl rfl,
          sqlTokens_mark rfl rfl, sqlTokens_mark rfl rfl, List.tail_cons, dropped, items,
          List.dropWhile_cons_of_pos (by simpa using other)]
        have behind := (List.dropWhile_suffix (l := ts) (· ≠ Lexeme.mark ')')).length_le
        simp only [List.length_cons]
        omega
      · rw [sqlTokens_word isw (head_countScan start), sqlTokens_word isw start]
        exact Nat.succ_le_succ later

theorem length_sqlTokens_replaceSelect (word : Word isNameChar aliasName) (sql : Text) :
    (sqlTokens (replaceSelectAlias sql aliasName)).length ≤ (sqlTokens sql).length := by
  rw [replaceSelectAlias]
  split
  · exact Nat.le_refl _
  · rename_i pos found
    dsimp only
    split
    · exact Nat.le_refl _
    · rename_i stops
      -- the text is `front`, the two words with a blank between them, and `behind`
      obtain ⟨a, b, same, rfl⟩ := find_some found
      obtain ⟨upTo, z, rfl, hupTo, -⟩ := List.map_eq_append_iff.mp same
      obtain ⟨x, y, rfl, rfl, hy⟩ := List.map_eq_append_iff.mp hupTo
      rw [Query.selectNeedle_split] at hy
      obtain ⟨s, r, rfl, hs, hr⟩ := List.map_eq_append_iff.mp hy
      obtain ⟨blank, n, rfl, hblank, hn⟩ := List.map_eq_cons_iff.mp hr
      obtain rfl := mark_of_toLower hblank (by decide)
      have isName := word_of_lower hn word
      have length : (selectNeedle aliasName).length = (s ++ ' ' :: n).length := by
        rw [Query.selectNeedle_split, ← hy, List.length_map]
      have front : (List.map Char.toLower x).length = x.length := List.length_map ..
      have split : (List.map Char.toLower x).length + (selectNeedle aliasName).length =
          (x ++ (s ++ ' ' :: n)).length := by
        rw [front, length, ← List.length_append]
      rw [split, List.drop_left] at stops ⊢
      have start : ∀ d ∈ z.head?, isNameChar d = false := by
        intro d first
        rw [Option.mem_def] at first
        rw [first] at stops
        simp only [goesOn, Option.any_some, Bool.or_eq_true, not_or, Bool.not_eq_true] at stops
        exact stops.1
      have before : sqlTokens (x ++ (s ++ ' ' :: n) ++ z) =
      sqlTokens (x ++ s) ++ .word n :: sqlTokens z := by
        have regroup : x ++ (s ++ ' ' :: n) ++ z = (x ++ s) ++ ' ' :: (n ++ z) := by simp
        rw [regroup, sqlTokens_append (apart_of_start (by simp; decide)), sqlTokens_blank rfl,
          sqlTokens_word isName start]
      have after : sqlTokens (x ++ "SELECT *".toList ++ z) =
          sqlTokens (x ++ "SELECT".toList) ++ .mark '*' :: sqlTokens z := by
        have regroup : x ++ "SELECT *".toList ++ z = (x ++ "SELECT".toList) ++ ' ' :: '*' :: z := by simp
        rw [regroup, sqlTokens_append (apart_of_start (by simp; decide)), sqlTokens_blank rfl,
          sqlTokens_mark rfl rfl]
      have keyword : (sqlTokens (x ++ "SELECT".toList)).length = (sqlTokens (x ++ s)).length := by
        rw [← length_sqlTokens_lower, ← length_sqlTokens_lower (x ++ s), lower_append, lower_append,
          show lower s = "select".toList from hs]
        rfl
      rw [front, List.append_assoc x, List.take_left, ← List.append_assoc x, before, after,
        List.length_append, List.length_append, keyword]
      rfl

theorem length_sqlTokens_aliasRewrites (word : Word isNameChar aliasName) (sql : Text) :
    (sqlTokens (stripAliasPrefix (replaceCountAlias (replaceSelectAlias sql aliasName) aliasName)
      aliasName)).length ≤ (sqlTokens sql).length := by
  have counted := length_sqlTokens_countScan word (replaceSelectAlias sql aliasName)
  rw [sqlTokens, lexemes_countScan] at counted
  rw [sqlTokens_stripAlias word]
  exact (length_visible_dropPrefixes aliasName _).trans
    (counted.trans (length_sqlTokens_replaceSelect word sql))

end Losses

namespace Query

variable (q : Query)

def Swallows : Prop := q.gap = [' '] ∧ ∃ c more, q.rest = ' ' :: c :: more ∧ isNameChar c = true

theorem fromWord_word : Word isNameChar q.fromWord :=
  word_of_lower (show lower q.fromWord = lower "from".toList from q.froms)
    ⟨by decide, List.all_eq_true.mp (by decide)⟩

theorem sqlTokens_entity : sqlTokens q.entity = [.word q.entity] := by
  have single := sqlTokens_word q.word (t := []) (by simp)
  rwa [List.append_nil] at single

theorem sqlTokens_text (aliased : q.aliased = none) :
    sqlTokens q.text = q.clauses q.entity (sqlTokens q.list) := by
  have split : q.text = q.select ++ (q.list ++ (q.fromWord ++ (q.gap ++ (q.entity ++ q.rest)))) := by
    simp [Parts.text, Parts.opening, Parts.following, Parts.named, aliased]
  have start : ∀ c ∈ (q.gap ++ (q.entity ++ q.rest)).head?, isNameChar c = false := by
    intro c first
    rw [List.head?_append_of_ne_nil _ q.blanks.some] at first
    exact not_name_of_blank (q.blanks.all c (List.mem_of_head? first))
  rw [split, sqlTokens, q.lexemes_list, visible_word, ← sqlTokens, sqlTokens_append (apart_of_end q.behind),
    sqlTokens_word q.fromWord_word start, sqlTokens_blanks q.blanks.all, sqlTokens_word q.word q.ends,
    clauses, q.sqlTokens_entity]
  rfl

theorem sqlTokens_replaced {table after : Text} (begins : ∀ c ∈ after.head?, isNameChar c = false) :
    (sqlTokens (q.select ++ q.list ++ "FROM ".toList ++ table ++ after)).map canonical =
      (.word "SELECT".toList :: (sqlTokens q.list ++
        .word "FROM".toList :: (sqlTokens table ++ sqlTokens after))).map canonical := by
  have split : q.select ++ q.list ++ "FROM ".toList ++ table ++ after =
      q.select ++ (q.list ++ ("FROM ".toList ++ table ++ after)) := by simp
  have fixed : canonical (.word "SELECT".toList) = .word "SELECT".toList := by decide
  rw [split, sqlTokens, q.lexemes_list, visible_word, ← sqlTokens, ← List.append_assoc, ← List.append_assoc,
    sqlTokens_from q.behind table begins, List.map_cons, q.canonical_select, List.map_cons, fixed]

theorem transpile_unaliased {table sql : Text} (found : findFromAlias q.text q.entity = none)
    (replaced : replaceFromEntityAlias q.text q.entity table = sql) :
    sqlTokens (transpileJpql q.text q.entity table) = literals (sqlTokens sql) := by
  rw [transpileJpql, found, replaced, sqlTokens_literals]

theorem transpiled_of_recognised {table : Text} (aliased : q.aliased = none)
    (recognised : q.Recognised) (kept : ¬ q.Swallows) : q.Transpiled table := by
  obtain ⟨gap, begins⟩ := recognised
  obtain ⟨more, following⟩ := List.head?_eq_some_iff.mp begins
  have rest : q.rest = ' ' :: more := by
    simpa [Parts.following, Parts.named, aliased] using following
  have start : ∀ c ∈ more.head?, isNameChar c = false := by
    intro c first
    by_contra named
    obtain ⟨after, rfl⟩ := List.head?_eq_some_iff.mp first
    exact kept ⟨gap, c, after, rest, by simpa using named⟩
  have none_ : more.takeWhile isNameChar = [] := by
    cases more with
    | nil => rfl
    | cons c more => simp [start c rfl]
  have whole : more.dropWhile isNameChar = more := by
    cases more with
    | nil => rfl
    | cons c more => simp [start c rfl]
  have found : findFromAlias q.text q.entity = none := by
    rw [q.findFromAlias_recognised gap following, if_pos none_]
  have replaced : replaceFromEntityAlias q.text q.entity table =
      q.select ++ q.list ++ "FROM ".toList ++ table ++ more := by
    rw [q.replaceFrom_recognised gap following, whole]
  rw [Transpiled, q.transpile_unaliased found replaced, expected, aliased]
  dsimp only
  rw [← literals_canonical, ← literals_canonical, q.sqlTokens_replaced start, q.clauses_canonical, rest,
    sqlTokens_blank rfl]
  rfl

theorem not_transpiled_of_swallows {table : Text} (aliased : q.aliased = none)
    (swallows : q.Swallows) : ¬ q.Transpiled table := by
  obtain ⟨gap, c, more, rest, named⟩ := swallows
  have following : q.following = ' ' :: c :: more := by
    simp [Parts.following, Parts.named, aliased, rest]
  rcases text_cases isNameChar (c :: more) with empty | ⟨d, t, same, between⟩ | ⟨w, r, same, isw, start⟩
  · cases empty
  · obtain ⟨rfl, -⟩ := List.cons.inj same
    rw [named] at between
    cases between
  rw [same] at following rest
  obtain ⟨name, behind⟩ := word_run isw start
  have found : findFromAlias q.text q.entity = some w := by
    rw [q.findFromAlias_recognised gap following, name, if_neg isw.some]
  have replaced : replaceFromEntityAlias q.text q.entity table =
      q.select ++ q.list ++ "FROM ".toList ++ table ++ r := by
    rw [q.replaceFrom_recognised gap following, behind]
  have fewer := length_sqlTokens_aliasRewrites isw (q.select ++ q.list ++ "FROM ".toList ++ table ++ r)
  have placed := congrArg List.length (@sqlTokens_replaced q table r start)
  have tail : sqlTokens q.rest = .word w :: sqlTokens r := by
    rw [rest, sqlTokens_blank rfl, sqlTokens_word isw start]
  have asked : q.expected table = literals (q.clauses table (sqlTokens q.list)) := by
    rw [expected, aliased]
  intro transpiled
  have lengths := congrArg List.length transpiled
  rw [asked, transpileJpql, found, replaced, sqlTokens_literals] at lengths
  simp only [List.length_map, length_literals, clauses, tail, List.length_append, List.length_cons]
    at lengths placed
  omega

theorem lexemes_opening : lexemes q.opening =
    .word q.select :: (lexemes q.list ++ .word q.fromWord :: lexemes q.gap) := by
  have split : q.opening = q.select ++ (q.list ++ (q.fromWord ++ q.gap)) := by simp [Parts.opening]
  rw [split, q.lexemes_list, lexemes_append (apart_of_end q.behind), lexemes_word q.fromWord_word]
  intro c first
  exact not_name_of_blank (q.blanks.all c (List.mem_of_head? first))

theorem entity_apart : lower q.entity ≠ "select".toList ∧ lower q.entity ≠ "from".toList := by
  have select := q.once (.word q.select) (by simp [q.lexemes_opening])
  have from_ := q.once (.word q.fromWord) (by simp [q.lexemes_opening])
  simp only [isWord, q.selects, q.froms, decide_eq_false_iff_not] at select from_
  exact ⟨Ne.symm select, Ne.symm from_⟩

theorem canonical_eq_entity {l : Lexeme} : canonical l = .word q.entity ↔ l = .word q.entity := by
  obtain ⟨select, from_⟩ := q.entity_apart
  unfold canonical
  split
  · rename_i same
    constructor
    · intro equal
      rw [← Lexeme.word.inj equal] at select
      exact absurd (by decide) select
    · rintro rfl
      exact absurd (of_decide_eq_true same) select
  · split
    · rename_i same
      constructor
      · intro equal
        rw [← Lexeme.word.inj equal] at from_
        exact absurd (by decide) from_
      · rintro rfl
        exact absurd (of_decide_eq_true same) from_
    · exact Iff.rfl

theorem table_of_unrecognised {table : Text} (name : TableName table) (aliased : q.aliased = none)
    (other : ¬ q.Recognised) : q.Transpiled table ↔ table = q.entity := by
  obtain ⟨found, replaced⟩ := q.unrecognised other table
  have asked : q.expected table = literals (q.clauses table (sqlTokens q.list)) := by
    rw [expected, aliased]
  rw [Transpiled, asked, q.transpile_unaliased found replaced, q.sqlTokens_text aliased]
  constructor
  · intro same
    have place : ∀ t : Text, (literals (q.clauses t (sqlTokens q.list)))[(sqlTokens q.list).length + 1 + 1]? =
        (sqlTokens t ++ sqlTokens q.rest)[0]? := by
      intro t
      have front : (q.clauses t (sqlTokens q.list))[(sqlTokens q.list).length + 1]? =
          some (.word q.fromWord) := by
        simp [clauses]
      rw [literals_after (by simp [front]), clauses, List.getElem?_cons_succ,
        List.getElem?_append_right (Nat.le_add_right _ 1), Nat.add_sub_cancel_left, List.getElem?_cons_succ]
    have lengths := congrArg List.length same
    simp only [List.length_map, length_literals, clauses, List.length_append, List.length_cons,
      q.sqlTokens_entity, List.length_nil] at lengths
    cases name with
    | qualified word rest =>
      rw [sqlTokens_word word (by simp; decide), sqlTokens_mark rfl rfl] at lengths
      simp only [List.length_cons] at lengths
      omega
    | plain word =>
      have single := sqlTokens_word word (t := []) (by simp)
      rw [List.append_nil] at single
      have entity := congrArg (·[(sqlTokens q.list).length + 1 + 1]?) same
      simp only [List.getElem?_map, place, q.sqlTokens_entity, single] at entity
      have equal : canonical (.word q.entity) = canonical (.word table) := by simpa using entity
      rw [q.canonical_eq_entity.mpr rfl, eq_comm, q.canonical_eq_entity] at equal
      exact Lexeme.word.inj equal
  · rintro rfl
    rfl

theorem transpile_meaning {table : Text} (name : TableName table) :
    (q.aliased = none →
      (q.Transpiled table ↔ ¬ q.Swallows ∧ (q.Recognised ∨ table = q.entity))) ∧
    ∀ a, q.aliased = some a → q.Plain table a → q.Transpiled table := by
  refine ⟨fun aliased => ⟨fun transpiled => ⟨fun swallows => ?_, ?_⟩, ?_⟩,
    fun a aliased plain => q.transpiled_of_plain aliased plain⟩
  · exact q.not_transpiled_of_swallows aliased swallows transpiled
  · by_cases recognised : q.Recognised
    · exact .inl recognised
    · exact .inr ((q.table_of_unrecognised name aliased recognised).mp transpiled)
  · rintro ⟨kept, recognised⟩
    by_cases found : q.Recognised
    · exact q.transpiled_of_recognised aliased found kept
    · exact (q.table_of_unrecognised name aliased found).mpr (recognised.resolve_left found)

def adults : Query where
  select := "SELECT".toList
  list := " name ".toList
  fromWord := "FROM".toList
  gap := [' ']
  entity := "User".toList
  aliased := none
  rest := " WHERE age > 18".toList
  selects := by decide
  froms := by decide
  filled := by decide
  before := by simp; decide
  behind := by simp; decide
  blanks := ⟨by decide, by simp; decide⟩
  word := ⟨by decide, List.all_eq_true.mp (by decide)⟩
  ends := by simp; decide
  bare := by
    intro _ w first
    have here : (sqlTokens " WHERE age > 18".toList).head? = some (.word "WHERE".toList) := by decide
    obtain rfl := Lexeme.word.inj (Option.some.inj (here.symm.trans first))
    decide
  once := by decide
  plain := by decide

theorem where_lost : ¬ ∀ (q : Query) (table : Text), TableName table → q.Transpiled table := by
  intro all
  have asked := all adults "users".toList (.plain ⟨by decide, List.all_eq_true.mp (by decide)⟩)
  have written : transpileJpql adults.text adults.entity "users".toList =
      "SELECT name FROM users age > 18".toList := by
    have found : findFromAlias adults.text adults.entity = some "WHERE".toList := by decide
    have replaced : replaceFromEntityAlias adults.text adults.entity "users".toList =
        "SELECT name FROM users age > 18".toList := by decide
    rw [transpileJpql, found, replaced]
    dsimp only
    rw [replaceCountAlias_eq]
    decide
  rw [Transpiled, written] at asked
  exact absurd asked (by decide)

def grownUsers : Query where
  select := "SELECT".toList
  list := " u ".toList
  fromWord := "FROM".toList
  gap := [' ']
  entity := "User".toList
  aliased := some ⟨[' '], ['u'], ⟨by decide, by simp; decide⟩, ⟨by decide, by simp; decide⟩, by decide⟩
  rest := " WHERE u.age > 18".toList
  selects := by decide
  froms := by decide
  filled := by decide
  before := by simp; decide
  behind := by simp; decide
  blanks := ⟨by decide, by simp; decide⟩
  word := ⟨by decide, List.all_eq_true.mp (by decide)⟩
  ends := by simp; decide
  bare := by simp
  once := by decide
  plain := by decide

theorem adults_meaning :
    (¬ adults.Transpiled "users".toList) ∧ grownUsers.Transpiled "users".toList := by
  have name : TableName "users".toList := .plain ⟨by decide, List.all_eq_true.mp (by decide)⟩
  constructor
  · intro transpiled
    have kept := ((adults.transpile_meaning name).1 rfl).mp transpiled
    exact kept.1 ⟨rfl, 'W', "HERE age > 18".toList, by decide, by decide⟩
  · refine (grownUsers.transpile_meaning name).2 _ rfl ⟨rfl, rfl, .inl ⟨['u'], [' '], ?_⟩, ?_, ?_⟩
    · decide
    · decide
    · decide

end Query

end Firefly.Data.CustomQuery
