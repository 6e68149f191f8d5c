import Firefly.Data.TranspileCalls

set_option autoImplicit false

namespace Firefly.Data.CustomQuery

open Lexemes

def sqlKeywords : List Text :=
  ["select", "distinct", "from", "as", "join", "inner", "left", "right", "outer", "full", "cross",
    "on", "where", "and", "or", "not", "in", "is", "null", "true", "false", "like", "between",
    "exists", "case", "when", "then", "else", "group", "by", "having", "order", "asc", "desc",
    "limit", "offset", "fetch", "union", "intersect", "except", "all"].map String.toList

section

local instance : LawfulBEq Text := inferInstance

def isKeyword (w : Text) : Bool := lower w ∈ sqlKeywords

end

structure Blanks (t : Text) : Prop where
  some : t ≠ []
  all : ∀ c ∈ t, isAsciiWhitespace c = true

structure Alias where
  gap : Text
  name : Text
  blanks : Blanks gap
  word : Word isNameChar name
  free : isKeyword name = false

structure Parts where
  select : Text
  list : Text
  fromWord : Text
  gap : Text
  entity : Text
  aliased : Option Alias
  rest : Text

def Parts.opening (q : Parts) : Text := q.select ++ q.list ++ q.fromWord ++ q.gap

def Parts.named (q : Parts) : Text := (q.aliased.map fun a => a.gap ++ a.name).getD []

def Parts.following (q : Parts) : Text := q.named ++ q.rest

def Parts.text (q : Parts) : Text := q.opening ++ q.entity ++ q.following

def quote : Char := Char.ofNat 39

structure Query extends Parts where
  selects : lower select = "select".toList
  froms : lower fromWord = "from".toList
  filled : list ≠ []
  before : ∀ c ∈ list.head?, isNameChar c = false
  behind : ∀ c ∈ list.getLast?, isNameChar c = false
  blanks : Blanks gap
  word : Word isNameChar entity
  ends : ∀ c ∈ rest.head?, isNameChar c = false
  bare : aliased = none → ∀ w, (sqlTokens rest).head? = some (.word w) → isKeyword w = true
  once : ∀ l ∈ lexemes toParts.opening ++ lexemes toParts.following, isWord entity l = false
  plain : quote ∉ toParts.text

theorem find_some {needle text : Text} {pos : Nat} (found : find needle text = some pos) :
    ∃ a b, text = a ++ needle ++ b ∧ a.length = pos := by
  induction text generalizing pos with
  | nil =>
    rw [find] at found
    split at found
    · rename_i empty
      obtain rfl := Option.some.inj found
      exact ⟨[], [], by simp [empty], rfl⟩
    · cases found
  | cons c rest ih =>
    rw [find] at found
    split at found
    · rename_i starts
      obtain rfl := Option.some.inj found
      obtain ⟨more, same⟩ := List.isPrefixOf_iff_prefix.mp starts
      exact ⟨[], more, by simp [same], rfl⟩
    · obtain ⟨pos, later, rfl⟩ := Option.map_eq_some_iff.mp found
      obtain ⟨a, b, same, length⟩ := ih later
      exact ⟨c :: a, b, by simp [same], by simp [length]⟩

theorem find_none {needle text : Text} (missing : find needle text = none) (a b : Text) :
    text ≠ a ++ needle ++ b := by
  induction text generalizing a with
  | nil =>
    rw [find] at missing
    split at missing
    · cases missing
    · rename_i some
      intro same
      exact some (by simpa using (List.append_eq_nil_iff.mp (List.append_eq_nil_iff.mp same.symm).1).2)
  | cons c rest ih =>
    rw [find] at missing
    split at missing
    · cases missing
    · rename_i other
      intro same
      cases a with
      | nil => exact other (List.isPrefixOf_iff_prefix.mpr ⟨b, same.symm⟩)
      | cons d a => exact ih (Option.map_eq_none_iff.mp missing) a (List.cons.inj same).2

theorem find_prefix {needle text : Text} (starts : needle <+: text) : find needle text = some 0 := by
  cases text with
  | nil => rw [find, if_pos (List.prefix_nil.mp starts)]
  | cons c rest => rw [find, if_pos (List.isPrefixOf_iff_prefix.mpr starts)]

theorem find_of_only {needle text a b : Text} (here : text = a ++ needle ++ b)
    (only : ∀ a' b', text = a' ++ needle ++ b' → a' = a) : find needle text = some a.length := by
  cases found : find needle text with
  | none => exact absurd here (find_none found a b)
  | some pos =>
    obtain ⟨a', b', same, rfl⟩ := find_some found
    rw [only a' b' same]

namespace Query

variable (q : Query)

theorem opening_ends : ∀ c ∈ q.opening.getLast?, isNameChar c = false := by
  intro c last
  rw [Parts.opening, List.getLast?_append_of_ne_nil _ q.blanks.some] at last
  exact not_name_of_blank (q.blanks.all c (List.mem_of_getLast? last))

theorem following_begins : ∀ c ∈ q.following.head?, isNameChar c = false := by
  intro c first
  rw [Parts.following, Parts.named] at first
  cases named : q.aliased with
  | none =>
    rw [named] at first
    exact q.ends c first
  | some a =>
    rw [named] at first
    simp only [Option.map_some, Option.getD_some, List.append_assoc] at first
    rw [List.head?_append_of_ne_nil _ a.blanks.some] at first
    exact not_name_of_blank (a.blanks.all c (List.mem_of_head? first))

theorem lexemes_text : lexemes q.text = lexemes q.opening ++ .word q.entity :: lexemes q.following := by
  rw [Parts.text, List.append_assoc, lexemes, lex_append (apart_of_end q.opening_ends)]
  congr 1
  exact lexemes_word q.word q.following_begins

theorem occurs_once {a b : Text} (ends : ∀ c ∈ a.getLast?, isNameChar c = false)
    (begins : ∀ c ∈ b.head?, isNameChar c = false)
    (same : lower q.text = a ++ lower q.entity ++ b) : a = lower q.opening ∧ b = lower q.following := by
  have other : ∀ l ∈ lexemes q.opening ++ lexemes q.following,
      lowerLexeme l ≠ .word (lower q.entity) := by
    intro l among equal
    have apart := q.once l among
    cases l with
    | mark c => cases equal
    | word w => simp [isWord, Lexeme.word.inj equal] at apart
  have words := congrArg lexemes same
  rw [lexemes_lower, q.lexemes_text, List.map_append, List.map_cons, List.append_assoc,
    lexemes_append (apart_of_end ends), lexemes_word (word_lower q.word) begins] at words
  have absent : ∀ ls : List Lexeme, (∀ l ∈ ls, l ∈ lexemes q.opening ++ lexemes q.following) →
      Lexeme.word (lower q.entity) ∉ ls.map lowerLexeme := by
    intro ls within among
    obtain ⟨l, inside, equal⟩ := List.mem_map.mp among
    exact other l (within l inside) equal
  obtain ⟨left, -, right⟩ := (List.append_cons_inj_of_notMem
    (absent _ fun l => List.mem_append_left _) (absent _ fun l => List.mem_append_right _)).mp words
  rw [← lexemes_lower] at left right
  have flats := congrArg flat left
  have flats' := congrArg flat right
  rw [lexemes, lexemes, flat_lex, flat_lex] at flats flats'
  exact ⟨flats.symm, flats'.symm⟩

theorem lower_blanks {t : Text} (all : ∀ c ∈ t, isAsciiWhitespace c = true) : lower t = t := by
  induction t with
  | nil => rfl
  | cons c t ih =>
    have here : c.toLower = c := toLower_of_mark (not_name_of_blank (all c (by simp)))
    rw [lower, List.map_cons, here, ← lower.eq_def, ih fun d member => all d (by simp [member])]

theorem gap_of_needle {a b gap : Text} (blanks : Blanks gap)
    (same : a ++ "from ".toList = b ++ "from".toList ++ gap) : gap = [' '] ∧ a = b := by
  obtain rfl | ⟨inner, last, rfl⟩ := List.eq_nil_or_concat gap
  · exact absurd rfl blanks.some
  have needle : "from ".toList = ['f', 'r', 'o'] ++ ['m'] ++ [' '] := rfl
  have letters : "from".toList = ['f', 'r', 'o'] ++ ['m'] := rfl
  rw [needle, List.concat_eq_append] at same
  simp only [← List.append_assoc] at same
  obtain ⟨front, blank⟩ := List.append_inj' same rfl
  obtain rfl | ⟨inner, letter, rfl⟩ := List.eq_nil_or_concat inner
  · rw [letters, List.append_nil] at front
    simp only [← List.append_assoc] at front
    exact ⟨by simpa using blank.symm, List.append_cancel_right (List.append_cancel_right front)⟩
  · rw [List.concat_eq_append] at front
    simp only [← List.append_assoc] at front
    obtain ⟨-, equal⟩ := List.append_inj' front rfl
    have white := blanks.all 'm' (by simp [← List.cons.inj equal])
    exact absurd white (by decide)

theorem lower_opening :
    lower q.opening = lower (q.select ++ q.list) ++ "from".toList ++ q.gap := by
  rw [Parts.opening, lower_append, lower_append, q.froms, lower_blanks q.blanks.all]

def Recognised : Prop := q.gap = [' '] ∧ q.following.head? = some ' '

instance : Decidable q.Recognised := inferInstanceAs (Decidable (_ ∧ _))

theorem occurrence {a b : Text} (same : lower q.text = a ++ fromNeedle q.entity ++ b) :
    q.Recognised ∧ a = lower (q.select ++ q.list) := by
  have shape : a ++ fromNeedle q.entity ++ b =
      (a ++ "from ".toList) ++ lower q.entity ++ (' ' :: b) := by
    simp [fromNeedle]
  obtain ⟨left, right⟩ := q.occurs_once (by simp; decide) (by simp; decide) (same.trans shape)
  rw [q.lower_opening] at left
  obtain ⟨gap, rfl⟩ := gap_of_needle q.blanks left
  refine ⟨⟨gap, ?_⟩, rfl⟩
  cases begins : q.following with
  | nil => simp [begins, lower] at right
  | cons c more =>
    have lowered : c.toLower = ' ' := by
      rw [begins] at right
      exact (List.cons.inj right).1.symm
    rw [mark_of_toLower lowered (by decide)]
    rfl

theorem find_from : find (fromNeedle q.entity) (lower q.text) =
    if q.Recognised then some (q.select ++ q.list).length else none := by
  split
  · rename_i recognised
    obtain ⟨gap, begins⟩ := recognised
    obtain ⟨more, following⟩ := List.head?_eq_some_iff.mp begins
    have here : lower q.text = lower (q.select ++ q.list) ++ fromNeedle q.entity ++ lower more := by
      rw [Parts.text, lower_append, lower_append, q.lower_opening, gap, following]
      have lowered : lower (' ' :: more) = ' ' :: lower more := rfl
      have needle : "from ".toList = "from".toList ++ [' '] := rfl
      rw [lowered, fromNeedle, needle]
      simp
    rw [find_of_only here fun a b same => (q.occurrence same).2, length_lower]
  · rename_i unrecognised
    cases found : find (fromNeedle q.entity) (lower q.text) with
    | none => rfl
    | some pos =>
      obtain ⟨a, b, same, -⟩ := find_some found
      exact absurd (q.occurrence same).1 unrecognised

theorem behind_needle {more : Text} (gap : q.gap = [' ']) (following : q.following = ' ' :: more) :
    q.text.drop ((q.select ++ q.list).length + (fromNeedle q.entity).length) = more := by
  have four : q.fromWord.length = 4 := by
    have lengths := congrArg List.length q.froms
    rwa [length_lower] at lengths
  have split : q.text = q.select ++ q.list ++ (q.fromWord ++ [' '] ++ q.entity ++ [' ']) ++ more := by
    rw [Parts.text, Parts.opening, gap, following]
    simp
  have length : (q.select ++ q.list).length + (fromNeedle q.entity).length =
      (q.select ++ q.list ++ (q.fromWord ++ [' '] ++ q.entity ++ [' '])).length := by
    simp [fromNeedle, four]
    omega
  rw [length, split, List.drop_left]

theorem findFromAlias_recognised {more : Text} (gap : q.gap = [' '])
    (following : q.following = ' ' :: more) :
    findFromAlias q.text q.entity =
      if more.takeWhile isNameChar = [] then none else some (more.takeWhile isNameChar) := by
  rw [findFromAlias, q.find_from, if_pos ⟨gap, by rw [following]; rfl⟩]
  dsimp only
  rw [q.behind_needle gap following]

theorem replaceFrom_recognised {more : Text} (gap : q.gap = [' '])
    (following : q.following = ' ' :: more) (table : Text) :
    replaceFromEntityAlias q.text q.entity table =
      q.select ++ q.list ++ "FROM ".toList ++ table ++ more.dropWhile isNameChar := by
  have front : q.text.take (q.select ++ q.list).length = q.select ++ q.list := by
    rw [Parts.text, Parts.opening, List.append_assoc, List.append_assoc, List.append_assoc,
      List.take_left]
  have passed : more.drop (more.takeWhile isNameChar).length = more.dropWhile isNameChar := by
    have whole := List.takeWhile_append_dropWhile (p := isNameChar) (l := more)
    calc more.drop (more.takeWhile isNameChar).length
        = (more.takeWhile isNameChar ++ more.dropWhile isNameChar).drop
            (more.takeWhile isNameChar).length := by rw [whole]
      _ = more.dropWhile isNameChar := List.drop_left
  rw [replaceFromEntityAlias, q.find_from, if_pos ⟨gap, by rw [following]; rfl⟩]
  dsimp only
  rw [← List.drop_drop, q.behind_needle gap following, front, passed]

theorem unrecognised (other : ¬ q.Recognised) (table : Text) :
    findFromAlias q.text q.entity = none ∧ replaceFromEntityAlias q.text q.entity table = q.text := by
  rw [findFromAlias, replaceFromEntityAlias, q.find_from, if_neg other]
  exact ⟨rfl, rfl⟩

end Query

end Firefly.Data.CustomQuery
