import Firefly.Data.TranspileSteps

set_option autoImplicit false

namespace Firefly.Data.CustomQuery

open Lexemes

def startsCall (aliasName : Text) : List Lexeme → Bool
  | count :: opening :: argument :: closing :: _ =>
    isWord "count".toList count && opening = .mark '(' && isWord aliasName argument &&
      closing = .mark ')'
  | _ => false

def starCalls (aliasName : Text) : (ahead : Option Nat) → List Lexeme → List Lexeme
  | _, [] => []
  | none, l :: rest =>
    l :: starCalls aliasName (if startsCall aliasName (l :: rest) then some 1 else none) rest
  | some 0, _ :: rest => .mark '*' :: starCalls aliasName none rest
  | some (n + 1), l :: rest => l :: starCalls aliasName (some n) rest

def readsCall (aliasName w : Text) (behind : List Lexeme) : Bool :=
  "count".toList.isSuffixOf (lower w) && behind.head? = some (.mark '(') &&
    holdsAlias aliasName (flat behind.tail)

def starFirstCall (aliasName : Text) : List Lexeme → List Lexeme
  | [] => []
  | .mark c :: rest => .mark c :: starFirstCall aliasName rest
  | .word w :: rest =>
    if readsCall aliasName w rest then
      .word w :: .mark '(' :: .mark '*' :: rest.tail.dropWhile (· ≠ .mark ')')
    else .word w :: starFirstCall aliasName rest

def NoCall (aliasName : Text) (ts : List Lexeme) : Prop :=
  ∀ behind, behind <:+ ts → startsCall aliasName behind = false

def CallsRight (aliasName : Text) : List Lexeme → Prop
  | [] => True
  | .mark _ :: rest => CallsRight aliasName rest
  | .word w :: rest =>
    if readsCall aliasName w rest then
      startsCall aliasName (.word w :: visible isAsciiWhitespace rest) = true ∧
        NoCall aliasName (visible isAsciiWhitespace rest)
    else
      startsCall aliasName (.word w :: visible isAsciiWhitespace rest) = false ∧
        CallsRight aliasName rest

def countScan (aliasName : Text) : Text → Text
  | [] => []
  | c :: rest =>
    if countNeedle <+: lower (c :: rest) ∧ holdsAlias aliasName ((c :: rest).drop countNeedle.length)
    then (c :: rest).take countNeedle.length ++
      '*' :: ((c :: rest).drop countNeedle.length).dropWhile (· ≠ ')')
    else c :: countScan aliasName rest

theorem countNeedle_chars : countNeedle = ['c', 'o', 'u', 'n', 't', '('] := rfl

section Scan

variable {aliasName : Text}

theorem countScan_append {run : Text} (none : 'c' ∉ lower run) (t : Text) :
    countScan aliasName (run ++ t) = run ++ countScan aliasName t := by
  induction run with
  | nil => rfl
  | cons c run ih =>
    simp only [lower, List.map_cons, List.mem_cons, not_or] at none
    rw [List.cons_append, countScan, if_neg, ih none.2]
    · rfl
    · rintro ⟨⟨more, starts⟩, -⟩
      simp only [countNeedle, lower, List.map_cons] at starts
      exact none.1 (List.cons.inj starts).1

theorem countScan_find (t : Text) : match find countNeedle (lower t) with
    | none => countScan aliasName t = t
    | some pos => countNeedle <+: lower (t.drop pos) ∧
        countScan aliasName t = t.take pos ++ countScan aliasName (t.drop pos) := by
  induction t with
  | nil => simp [lower, find, countNeedle, countScan]
  | cons c t ih =>
    by_cases starts : countNeedle <+: lower (c :: t)
    · have here : find countNeedle (lower (c :: t)) = some 0 := by
        simpa [lower, find] using starts
      rw [here]
      exact ⟨starts, rfl⟩
    · have later : find countNeedle (lower (c :: t)) = (find countNeedle (lower t)).map (· + 1) := by
        simpa [lower, find] using starts
      have step : countScan aliasName (c :: t) = c :: countScan aliasName t := by
        rw [countScan, if_neg (fun both => starts both.1)]
      rw [later, step]
      cases found : find countNeedle (lower t) with
      | none =>
        rw [found] at ih
        simp only [Option.map_none]
        rw [ih]
      | some pos =>
        rw [found] at ih
        simp only [Option.map_some]
        exact ⟨ih.1, by rw [ih.2]; rfl⟩

theorem countScan_match {t : Text} (starts : countNeedle <+: lower t) :
    countScan aliasName t =
      if holdsAlias aliasName (t.drop countNeedle.length) then
        t.take countNeedle.length ++ '*' :: (t.drop countNeedle.length).dropWhile (· ≠ ')')
      else t.take countNeedle.length ++ countScan aliasName (t.drop countNeedle.length) := by
  cases t with
  | nil => simp [lower, countNeedle] at starts
  | cons c t =>
    rw [countScan]
    by_cases holds : holdsAlias aliasName ((c :: t).drop countNeedle.length) = true
    · rw [if_pos ⟨starts, holds⟩, if_pos holds]
    · rw [if_neg (fun both => holds both.2), if_neg holds]
      -- no match begins within the five characters behind the `c`
      have five : lower (t.take 5) = ['o', 'u', 'n', 't', '('] := by
        obtain ⟨more, same⟩ := starts
        rw [countNeedle_chars] at same
        have tail : 'o' :: 'u' :: 'n' :: 't' :: '(' :: more = lower t := (List.cons.inj same).2
        rw [lower, List.map_take, ← lower.eq_def, ← tail]
        rfl
      have split : c :: t = c :: (t.take 5 ++ t.drop 5) := by rw [List.take_append_drop]
      conv_lhs => rw [← List.take_append_drop 5 t]
      rw [countScan_append (by rw [five]; decide)]
      rfl

theorem replaceCountFrom_eq (done rest : Text) :
    replaceCountFrom aliasName done rest = done ++ countScan aliasName rest := by
  induction size : rest.length using Nat.strong_induction_on generalizing done rest with
  | _ size ih =>
    have scan := @countScan_find aliasName rest
    rw [replaceCountFrom]
    split
    · rename_i found
      rw [found] at scan
      rw [scan]
    · rename_i pos found
      rw [found] at scan
      have within := find_le found
      rw [length_lower] at within
      have some : 0 < countNeedle.length := by decide
      rw [scan.2, countScan_match scan.1, List.drop_drop]
      dsimp only
      split
      · rw [List.take_add]
        simp [List.append_assoc]
      · rw [ih _ (by rw [List.length_drop]; omega) _ _ rfl, List.take_add]
        simp [List.append_assoc]

theorem replaceCountAlias_eq (sql : Text) : replaceCountAlias sql aliasName = countScan aliasName sql :=
  replaceCountFrom_eq [] sql

theorem countWord : Word isNameChar "count".toList :=
  ⟨by decide, List.all_eq_true.mp (by decide)⟩

theorem countNeedle_split : countNeedle = "count".toList ++ ['('] := rfl

theorem countNeedle_prefix {w t : Text} (word : Word isNameChar w)
    (start : ∀ d ∈ t.head?, isNameChar d = false) :
    countNeedle <+: lower (w ++ t) ↔ lower w = "count".toList ∧ t.head? = some '(' := by
  rw [countNeedle_split, lower_append]
  constructor
  · intro starts
    obtain ⟨same, opens⟩ := word_prefix countWord (word_lower word) (by decide)
      (mark_head_lower start) starts
    refine ⟨same.symm, ?_⟩
    cases t with
    | nil => simp [lower] at opens
    | cons c t =>
      have lowered : c.toLower = '(' := by simpa [lower] using opens
      rw [mark_of_toLower lowered (by decide)]
      rfl
  · rintro ⟨same, opens⟩
    obtain ⟨more, rfl⟩ := List.head?_eq_some_iff.mp opens
    have lowered : lower ('(' :: more) = '(' :: lower more := rfl
    exact ⟨lower more, by rw [same, List.append_assoc, List.singleton_append, lowered]⟩

def ReadsCall (aliasName before behind : Text) : Prop :=
  "count".toList <:+ lower before ∧ behind.head? = some '(' ∧ holdsAlias aliasName behind.tail = true

instance (aliasName before behind : Text) : Decidable (ReadsCall aliasName before behind) :=
  inferInstanceAs (Decidable (_ ∧ _))

theorem countScan_word {w t : Text} (all : ∀ c ∈ w, isNameChar c = true)
    (start : ∀ d ∈ t.head?, isNameChar d = false) :
    countScan aliasName (w ++ t) =
      if ReadsCall aliasName w t then w ++ '(' :: '*' :: t.tail.dropWhile (· ≠ ')')
      else w ++ countScan aliasName t := by
  induction w with
  | nil =>
    rw [if_neg (fun reads => by simpa [lower] using reads.1)]
    rfl
  | cons c w ih =>
    have word : Word isNameChar (c :: w) := ⟨by simp, all⟩
    have needle := countNeedle_prefix word start
    have deeper := ih fun d member => all d (by simp [member])
    by_cases here : lower (c :: w) = "count".toList ∧ t.head? = some '('
    · have six : countNeedle.length = (c :: w ++ ['(']).length := by
        have lengths := congrArg List.length here.1
        rw [length_lower] at lengths
        rw [List.length_append, lengths]
        rfl
      obtain ⟨inner, rfl⟩ := List.head?_eq_some_iff.mp here.2
      rw [countScan_match (needle.mpr here), six,
        show c :: w ++ '(' :: inner = (c :: w ++ ['(']) ++ inner by simp,
        List.drop_left, List.take_left]
      have reads : ReadsCall aliasName (c :: w) ('(' :: inner) ↔ holdsAlias aliasName inner = true :=
        ⟨fun reads => reads.2.2, fun holds => ⟨by rw [here.1], rfl, holds⟩⟩
      by_cases holds : holdsAlias aliasName inner = true
      · rw [if_pos holds, if_pos (reads.mpr holds)]
        simp
      · have plain : countScan aliasName ('(' :: inner) = '(' :: countScan aliasName inner := by
          have passed := @countScan_append aliasName ['('] (by decide) inner
          simpa using passed
        rw [if_neg holds, if_neg (fun both => holds (reads.mp both)), plain]
        simp
    · have step : countScan aliasName (c :: w ++ t) = c :: countScan aliasName (w ++ t) := by
        rw [List.cons_append, countScan, if_neg]
        exact fun both => here (needle.mp both.1)
      have same : ReadsCall aliasName (c :: w) t ↔ ReadsCall aliasName w t := by
        constructor
        · rintro ⟨ends, opens, holds⟩
          rcases List.suffix_cons_iff.mp ends with whole | ends
          · exact absurd ⟨whole.symm, opens⟩ here
          · exact ⟨ends, opens, holds⟩
        · rintro ⟨ends, opens, holds⟩
          exact ⟨ends.trans (List.suffix_cons ..), opens, holds⟩
      rw [step, deeper]
      split
      · rw [if_pos (same.mpr ‹_›)]
        rfl
      · rw [if_neg (fun reads => ‹¬ _› (same.mp reads))]
        rfl

theorem countScan_mark {c : Char} (between : isNameChar c = false) (t : Text) :
    countScan aliasName (c :: t) = c :: countScan aliasName t := by
  refine @countScan_append _ [c] ?_ t
  simp only [lower, List.map_cons, List.map_nil, List.mem_singleton]
  intro letter
  rw [← isNameChar_toLower, ← letter] at between
  exact absurd between (by decide)

theorem lexemes_dropWhile (t : Text) :
    lexemes (t.dropWhile (· ≠ ')')) = (lexemes t).dropWhile (· ≠ .mark ')') := by
  induction size : t.length using Nat.strong_induction_on generalizing t with
  | _ size ih =>
    rcases text_cases isNameChar t with rfl | ⟨c, rest, rfl, between⟩ | ⟨w, rest, rfl, isw, start⟩
    · rfl
    · have later := ih rest.length (by simp [← size]) rest rfl
      by_cases closes : c = ')'
      · subst closes
        rfl
      · rw [lexemes_mark between, List.dropWhile_cons_of_pos (by simpa using closes),
          List.dropWhile_cons_of_pos (by simpa using closes), later]
    · have some := List.length_pos_iff.mpr isw.some
      have later := ih rest.length (by simp [← size, some]) rest rfl
      have open_ : ∀ c ∈ w, decide (c ≠ ')') = true := by
        intro c member
        have named := isw.all c member
        simp only [decide_eq_true_eq]
        rintro rfl
        exact absurd named (by decide)
      rw [lexemes_word isw start, List.dropWhile_append_of_pos open_,
        List.dropWhile_cons_of_pos (by simp), later]

theorem readsCall_lexemes {w t : Text} (start : ∀ d ∈ t.head?, isNameChar d = false) :
    readsCall aliasName w (lexemes t) = true ↔ ReadsCall aliasName w t := by
  rw [readsCall, ReadsCall, Bool.and_eq_true, Bool.and_eq_true, List.isSuffixOf_iff_suffix,
    decide_eq_true_eq, and_assoc]
  refine and_congr_right fun _ => ?_
  cases t with
  | nil => simp [lexemes]
  | cons c t =>
    rw [lexemes_mark (start c rfl)]
    simp [lexemes]

theorem head_countScan {t : Text} (start : ∀ d ∈ t.head?, isNameChar d = false) :
    ∀ d ∈ (countScan aliasName t).head?, isNameChar d = false := by
  cases t with
  | nil => simp [countScan]
  | cons c t =>
    rw [countScan_mark (start c rfl)]
    simpa using start

theorem lexemes_countScan (t : Text) :
    lexemes (countScan aliasName t) = starFirstCall aliasName (lexemes t) := by
  induction size : t.length using Nat.strong_induction_on generalizing t with
  | _ size ih =>
    rcases text_cases isNameChar t with rfl | ⟨c, rest, rfl, between⟩ | ⟨w, rest, rfl, isw, start⟩
    · rfl
    · rw [countScan_mark between, lexemes_mark between, lexemes_mark between, starFirstCall,
        ih rest.length (by simp [← size]) rest rfl]
    · have some := List.length_pos_iff.mpr isw.some
      rw [countScan_word isw.all start, lexemes_word isw start, starFirstCall]
      by_cases reads : ReadsCall aliasName w rest
      · rw [if_pos reads, if_pos ((readsCall_lexemes start).mpr reads), lexemes_word isw (by simp; decide),
          lexemes_mark (by decide), lexemes_mark (by decide), lexemes_dropWhile]
        obtain ⟨inner, rfl⟩ := List.head?_eq_some_iff.mp reads.2.1
        rfl
      · rw [if_neg reads, if_neg (fun both => reads ((readsCall_lexemes start).mp both)),
          lexemes_word isw (head_countScan start), ih rest.length (by simp [← size, some]) rest rfl]

end Scan

section Calls

variable {aliasName : Text}

theorem startsCall_mark (c : Char) (ts : List Lexeme) :
    startsCall aliasName (.mark c :: ts) = false := by
  unfold startsCall
  split
  · rename_i same
    obtain ⟨rfl, -⟩ := List.cons.inj same
    rfl
  · rfl

theorem exists_of_startsCall {ts : List Lexeme} (starts : startsCall aliasName ts = true) :
    ∃ w v more, ts = .word w :: .mark '(' :: .word v :: .mark ')' :: more ∧
      lower w = lower "count".toList ∧ lower v = lower aliasName := by
  unfold startsCall at starts
  split at starts
  · rename_i count opening argument closing more
    simp only [Bool.and_eq_true, decide_eq_true_eq] at starts
    obtain ⟨⟨⟨isCount, rfl⟩, isAlias⟩, rfl⟩ := starts
    cases count with
    | mark c => cases isCount
    | word w =>
      cases argument with
      | mark c => cases isAlias
      | word v => exact ⟨w, v, more, rfl, by simpa [isWord] using isCount, by simpa [isWord] using isAlias⟩
  · cases starts

theorem starCalls_plain {l : Lexeme} {rest : List Lexeme}
    (plain : startsCall aliasName (l :: rest) = false) :
    starCalls aliasName none (l :: rest) = l :: starCalls aliasName none rest := by
  rw [starCalls, if_neg (by simp [plain])]

theorem starCalls_call {w v : Text} {more : List Lexeme}
    (starts : startsCall aliasName (.word w :: .mark '(' :: .word v :: .mark ')' :: more) = true) :
    starCalls aliasName none (.word w :: .mark '(' :: .word v :: .mark ')' :: more) =
      .word w :: .mark '(' :: .mark '*' :: .mark ')' :: starCalls aliasName none more := by
  rw [starCalls, if_pos starts, starCalls, starCalls, starCalls_plain (startsCall_mark ..)]

theorem noCall_cons {l : Lexeme} {ts : List Lexeme} : NoCall aliasName (l :: ts) ↔
    startsCall aliasName (l :: ts) = false ∧ NoCall aliasName ts := by
  constructor
  · intro none_
    exact ⟨none_ _ List.suffix_rfl, fun behind within => none_ behind (within.trans (List.suffix_cons ..))⟩
  · rintro ⟨here, later⟩ behind within
    rcases List.suffix_cons_iff.mp within with rfl | within
    · exact here
    · exact later behind within

instance decidableNoCall (aliasName : Text) : (ts : List Lexeme) → Decidable (NoCall aliasName ts)
  | [] => isTrue fun behind within => by rw [List.suffix_nil.mp within]; rfl
  | _ :: ts =>
    have := decidableNoCall aliasName ts
    decidable_of_iff _ noCall_cons.symm

instance decidableCallsRight (aliasName : Text) :
    (ls : List Lexeme) → Decidable (CallsRight aliasName ls)
  | [] => isTrue trivial
  | .mark _ :: rest => decidableCallsRight aliasName rest
  | .word w :: rest =>
    have := decidableCallsRight aliasName rest
    inferInstanceAs (Decidable (if readsCall aliasName w rest = true then _ else _))

theorem starCalls_of_noCall {ts : List Lexeme} (none_ : NoCall aliasName ts) :
    starCalls aliasName none ts = ts := by
  induction ts with
  | nil => rfl
  | cons l ts ih =>
    obtain ⟨here, later⟩ := noCall_cons.mp none_
    rw [starCalls_plain here, ih later]

theorem head_of_readsCall {w : Text} {behind : List Lexeme}
    (reads : readsCall aliasName w behind = true) :
    ∃ inner, behind = .mark '(' :: inner ∧ holdsAlias aliasName (flat inner) = true := by
  simp only [readsCall, Bool.and_eq_true, decide_eq_true_eq] at reads
  obtain ⟨inner, rfl⟩ := List.head?_eq_some_iff.mp reads.1.2
  exact ⟨inner, rfl, reads.2⟩

theorem not_closing_of_blank (l : Lexeme) (hidden : l.isBlank isAsciiWhitespace = true) :
    decide (l ≠ .mark ')') = true := by
  rw [decide_eq_true_eq]
  rintro rfl
  cases hidden

theorem visible_starFirstCall {ls : List Lexeme} (right : CallsRight aliasName ls) :
    visible isAsciiWhitespace (starFirstCall aliasName ls) =
      starCalls aliasName none (visible isAsciiWhitespace ls) := by
  induction ls with
  | nil => rfl
  | cons l ls ih =>
    cases l with
    | mark c =>
      rw [starFirstCall]
      by_cases blank : isAsciiWhitespace c
      · rw [visible_blank blank, visible_blank blank, ih right]
      · have shown : isAsciiWhitespace c = false := by simpa using blank
        rw [visible_mark shown, visible_mark shown, starCalls_plain (startsCall_mark ..), ih right]
    | word w =>
      rw [CallsRight] at right
      rw [starFirstCall, visible_word]
      split at right
      · rename_i reads
        obtain ⟨starts, after⟩ := right
        obtain ⟨inner, rfl, -⟩ := head_of_readsCall reads
        obtain ⟨u, v, more, same, -, -⟩ := exists_of_startsCall starts
        rw [visible_mark rfl] at same starts after ⊢
        obtain ⟨hw, rest⟩ := List.cons.inj same
        obtain rfl := Lexeme.word.inj hw
        have argument : visible isAsciiWhitespace inner = .word v :: .mark ')' :: more :=
          (List.cons.inj rest).2
        rw [argument] at starts after ⊢
        have behind : NoCall aliasName more :=
          fun ts within => after ts (within.trans ⟨[_, _, _], rfl⟩)
        rw [if_pos reads, visible_word, visible_mark rfl, visible_mark rfl, List.tail_cons,
          visible_dropWhile not_closing_of_blank, argument, starCalls_call starts, starCalls_of_noCall behind]
        rfl
      · rename_i unread
        rw [if_neg unread, visible_word, starCalls_plain right.1, ih right.2]

end Calls

end Firefly.Data.CustomQuery
