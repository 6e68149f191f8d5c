import Mathlib

set_option autoImplicit false

/-!
# Words and marks

A text as its longest runs of word characters and the single characters between them.
-/

namespace Firefly.Lexemes

inductive Lexeme where
  | word (w : List Char)
  | mark (c : Char)
deriving DecidableEq, Repr

def Lexeme.text : Lexeme → List Char
  | .word w => w
  | .mark c => [c]

def flat (ls : List Lexeme) : List Char := ls.flatMap Lexeme.text

section Lex

variable (name : Char → Bool)

def lex : List Char → List Lexeme
  | [] => []
  | c :: rest =>
    if name c then
      match lex rest with
      | .word w :: ls => .word (c :: w) :: ls
      | ls => .word [c] :: ls
    else .mark c :: lex rest

structure Word (w : List Char) : Prop where
  some : w ≠ []
  all : ∀ c ∈ w, name c = true

def Apart (a b : List Char) : Prop :=
  (∀ c ∈ a.getLast?, name c = false) ∨ ∀ d ∈ b.head?, name d = false

variable {name} {a b w t : List Char} {c : Char}

@[simp] theorem lex_nil : lex name [] = [] := rfl

theorem lex_mark (between : name c = false) : lex name (c :: t) = .mark c :: lex name t := by
  simp [lex, between]

@[simp] theorem flat_nil : flat [] = [] := rfl

@[simp] theorem flat_cons (l : Lexeme) (ls : List Lexeme) : flat (l :: ls) = l.text ++ flat ls := rfl

@[simp] theorem flat_append (first second : List Lexeme) :
    flat (first ++ second) = flat first ++ flat second := by
  simp [flat]

@[simp] theorem flat_lex (t : List Char) : flat (lex name t) = t := by
  induction t with
  | nil => rfl
  | cons c t ih =>
    rw [lex]
    split
    · split
      next w ls same =>
        rw [same] at ih
        simpa [Lexeme.text] using ih
      next => simp [Lexeme.text, ih]
    · simp [Lexeme.text, ih]

theorem lex_eq_nil : lex name t = [] ↔ t = [] := by
  constructor
  · intro empty
    rw [← @flat_lex name t, empty, flat_nil]
  · rintro rfl
    rfl

theorem lex_head (start : ∀ d ∈ t.head?, name d = false) (v : List Char) (ls : List Lexeme) :
    lex name t ≠ .word v :: ls := by
  cases t with
  | nil => simp
  | cons d t => simp [lex_mark (start d rfl)]

theorem lex_append (apart : Apart name a b) : lex name (a ++ b) = lex name a ++ lex name b := by
  induction a with
  | nil => rfl
  | cons c a ih =>
    by_cases named : name c
    · cases a with
      | nil =>
        have start : ∀ d ∈ b.head?, name d = false := by
          rcases apart with ends | start
          · simp [named] at ends
          · exact start
        have plain := lex_head start
        simp only [List.cons_append, List.nil_append, lex, named, if_true]
      | cons d a =>
        have whole := ih (by simpa [Apart] using apart)
        rw [List.cons_append, lex, lex, if_pos named, if_pos named, whole]
        cases first : lex name (d :: a) with
        | nil => simp [lex_eq_nil] at first
        | cons l ls => cases l <;> rfl
    · have between : name c = false := by simpa using named
      have whole : lex name (a ++ b) = lex name a ++ lex name b := by
        cases a with
        | nil => rfl
        | cons d a => exact ih (by simpa [Apart] using apart)
      rw [List.cons_append, lex_mark between, lex_mark between, whole, List.cons_append]

theorem apart_of_start (start : ∀ d ∈ b.head?, name d = false) : Apart name a b := .inr start

theorem apart_of_end (ends : ∀ c ∈ a.getLast?, name c = false) : Apart name a b := .inl ends

theorem lex_word (word : Word name w) : lex name w = [.word w] := by
  obtain ⟨some, all⟩ := word
  induction w with
  | nil => exact absurd rfl some
  | cons c w ih =>
    cases w with
    | nil => simp [lex, all c (by simp)]
    | cons d w =>
      rw [lex, if_pos (all c (by simp)), ih (by simp) fun e member => all e (by simp [member])]

theorem lex_word_append (word : Word name w) (start : ∀ d ∈ t.head?, name d = false) :
    lex name (w ++ t) = .word w :: lex name t := by
  rw [lex_append (apart_of_start start), lex_word word]
  rfl

theorem text_cases (name : Char → Bool) (t : List Char) :
    t = [] ∨ (∃ c rest, t = c :: rest ∧ name c = false) ∨
      ∃ w rest, t = w ++ rest ∧ Word name w ∧ ∀ d ∈ rest.head?, name d = false := by
  cases t with
  | nil => exact .inl rfl
  | cons c t =>
    by_cases named : name c
    · refine .inr (.inr ⟨(c :: t).takeWhile name, (c :: t).dropWhile name,
        List.takeWhile_append_dropWhile.symm, ⟨by simp [named], fun d => List.mem_takeWhile_imp⟩, ?_⟩)
      intro d first
      have stops := List.head?_dropWhile_not name (c :: t)
      rw [Option.mem_def] at first
      rw [first] at stops
      simpa using stops
    · exact .inr (.inl ⟨c, t, rfl, by simpa using named⟩)

end Lex

def Lexeme.isBlank (blank : Char → Bool) : Lexeme → Bool
  | .word _ => false
  | .mark c => blank c

def visible (blank : Char → Bool) (ls : List Lexeme) : List Lexeme :=
  ls.filter fun l => !l.isBlank blank

section Visible

variable {blank : Char → Bool}

@[simp] theorem visible_nil : visible blank [] = [] := rfl

@[simp] theorem visible_append (first second : List Lexeme) :
    visible blank (first ++ second) = visible blank first ++ visible blank second :=
  List.filter_append ..

@[simp] theorem visible_word (w : List Char) (ls : List Lexeme) :
    visible blank (.word w :: ls) = .word w :: visible blank ls := rfl

theorem visible_mark {c : Char} (shown : blank c = false) (ls : List Lexeme) :
    visible blank (.mark c :: ls) = .mark c :: visible blank ls := by
  simp [visible, Lexeme.isBlank, shown]

theorem visible_blank {c : Char} (hidden : blank c = true) (ls : List Lexeme) :
    visible blank (.mark c :: ls) = visible blank ls := by
  simp [visible, Lexeme.isBlank, hidden]

theorem visible_dropWhile {p : Lexeme → Bool} (passes : ∀ l, l.isBlank blank = true → p l = true)
    (ls : List Lexeme) : visible blank (ls.dropWhile p) = (visible blank ls).dropWhile p := by
  induction ls with
  | nil => rfl
  | cons l ls ih =>
    by_cases hidden : l.isBlank blank
    · have skipped : visible blank (l :: ls) = visible blank ls := by simp [visible, hidden]
      rw [List.dropWhile_cons_of_pos (passes l hidden), skipped, ih]
    · have kept : ∀ ls, visible blank (l :: ls) = l :: visible blank ls := by simp [visible, hidden]
      rw [kept, List.dropWhile_cons, List.dropWhile_cons]
      split
      · exact ih
      · exact kept ls

end Visible

end Firefly.Lexemes
