import Firefly.Shared.Text

set_option autoImplicit false

/-!
# Texts with holes

A hole is a character in braces. Holes are filled by replacing their text, one kind after the other;
what fills a hole of one kind can bring about a hole of the next.
-/

namespace Firefly.Holes

inductive Symbol where
  | char (c : Char)
  | hole (index : Char)
deriving DecidableEq, Repr

def literal (index : Char) : List Char := ['\x7b', index, '\x7d']

def symbols (p : Char → Bool) : List Char → List Symbol
  | '\x7b' :: index :: '\x7d' :: rest =>
    if p index then .hole index :: symbols p rest
    else .char '\x7b' :: symbols p (index :: '\x7d' :: rest)
  | c :: rest => .char c :: symbols p rest
  | [] => []

def chars (text : List Char) : List Symbol := text.map .char

def spell (value : Char → List Char) (parts : List Symbol) : List Char :=
  parts.flatMap fun
    | .char c => [c]
    | .hole index => value index

def put (value : Char → List Symbol) (parts : List Symbol) : List Symbol :=
  parts.flatMap fun
    | .char c => [.char c]
    | .hole index => value index

def holeCount (parts : List Symbol) : Nat :=
  parts.countP fun
    | .char _ => false
    | .hole _ => true

def fillHole (index : Char) (value text : List Char) : List Char :=
  Text.replace '\x7b' [index, '\x7d'] value text

def Braceless (p : Char → Bool) : Prop := ∀ index, p index = true → index ≠ '\x7b' ∧ index ≠ '\x7d'

section Spelling

variable {p q : Char → Bool} {value : Char → List Char} {parts : List Symbol}

@[simp] theorem spell_nil : spell value [] = [] := rfl

@[simp] theorem spell_char (c : Char) : spell value (.char c :: parts) = c :: spell value parts := rfl

@[simp] theorem spell_hole (index : Char) :
    spell value (.hole index :: parts) = value index ++ spell value parts := rfl

@[simp] theorem spell_append (first second : List Symbol) :
    spell value (first ++ second) = spell value first ++ spell value second := by
  simp [spell]

@[simp] theorem spell_chars (text : List Char) : spell value (chars text) = text := by
  induction text with
  | nil => rfl
  | cons c rest ih => exact congrArg (c :: ·) ih

@[simp] theorem put_nil (fill : Char → List Symbol) : put fill [] = [] := rfl

@[simp] theorem put_char (fill : Char → List Symbol) (c : Char) :
    put fill (.char c :: parts) = .char c :: put fill parts := rfl

@[simp] theorem put_hole (fill : Char → List Symbol) (index : Char) :
    put fill (.hole index :: parts) = fill index ++ put fill parts := rfl

theorem put_congr {first second : Char → List Symbol}
    (same : ∀ index, .hole index ∈ parts → first index = second index) : put first parts = put second parts := by
  induction parts with
  | nil => rfl
  | cons part parts ih =>
    have rest := ih fun index inside => same index (List.mem_cons_of_mem _ inside)
    cases part with
    | char c => rw [put_char, put_char, rest]
    | hole index => rw [put_hole, put_hole, rest, same index (by simp)]

theorem spell_put (fill : Char → List Symbol) :
    spell value (put fill parts) = spell (fun index => spell value (fill index)) parts := by
  induction parts with
  | nil => rfl
  | cons part parts ih => cases part <;> simp [ih]

theorem symbols_hole {index : Char} (admitted : p index = true) (rest : List Char) :
    symbols p (literal index ++ rest) = .hole index :: symbols p rest := by
  simp [literal, symbols, admitted]

theorem symbols_char {c : Char} {rest : List Char}
    (apart : ∀ index after, c = '\x7b' → rest = index :: '\x7d' :: after → p index = false) :
    symbols p (c :: rest) = .char c :: symbols p rest := by
  conv_lhs => unfold symbols
  split
  next index after same =>
    obtain ⟨rfl, rfl⟩ := List.cons.inj same
    simp [apart index after rfl rfl]
  next head tail _ same =>
    obtain ⟨rfl, rfl⟩ := List.cons.inj same
    rfl
  next same => simp at same

theorem symbols_of_ne {c : Char} (plain : c ≠ '\x7b') (rest : List Char) :
    symbols p (c :: rest) = .char c :: symbols p rest :=
  symbols_char fun _ _ same => absurd same plain

theorem symbols_cases (p : Char → Bool) (c : Char) (rest : List Char) :
    (∃ index after, p index = true ∧ c :: rest = literal index ++ after ∧
        symbols p (c :: rest) = .hole index :: symbols p after) ∨
      ((∀ index after, c = '\x7b' → rest = index :: '\x7d' :: after → p index = false) ∧
        symbols p (c :: rest) = .char c :: symbols p rest) := by
  by_cases hole : ∃ index after, c = '\x7b' ∧ rest = index :: '\x7d' :: after ∧ p index = true
  · obtain ⟨index, after, rfl, rfl, admitted⟩ := hole
    exact .inl ⟨index, after, admitted, rfl, symbols_hole admitted after⟩
  · have apart : ∀ index after, c = '\x7b' → rest = index :: '\x7d' :: after → p index = false := by
      intro index after brace shape
      by_contra admitted
      exact hole ⟨index, after, brace, shape, by simpa using admitted⟩
    exact .inr ⟨apart, symbols_char apart⟩

theorem symbols_induction (p : Char → Bool) {P : List Char → Prop} (nil : P [])
    (hole : ∀ index rest, p index = true → P rest → P (literal index ++ rest))
    (char : ∀ c rest, (∀ index after, c = '\x7b' → rest = index :: '\x7d' :: after → p index = false) →
      P rest → P (c :: rest)) (text : List Char) : P text := by
  induction size : text.length using Nat.strong_induction_on generalizing text with
  | _ size ih =>
    subst size
    cases text with
    | nil => exact nil
    | cons c rest =>
      rcases symbols_cases p c rest with ⟨index, after, admitted, split, -⟩ | ⟨apart, -⟩
      · rw [split]
        exact hole index after admitted (ih _ (by simp [split, literal]; omega) after rfl)
      · exact char c rest apart (ih _ (by simp) rest rfl)

theorem symbols_append {before : List Char} (plain : '\x7b' ∉ before) (after : List Char) :
    symbols p (before ++ after) = chars before ++ symbols p after := by
  induction before with
  | nil => rfl
  | cons c before ih =>
    have outside : c ≠ '\x7b' := by
      rintro rfl
      exact plain (by simp)
    rw [List.cons_append, symbols_of_ne outside, ih fun inside => plain (List.mem_cons_of_mem _ inside)]
    rfl

def Separates (p : Char → Bool) (c : Char) : Prop := c ≠ '\x7b' ∧ c ≠ '\x7d' ∧ p c = false

theorem symbols_separated {c : Char} (separates : Separates p c) (before after : List Char) :
    symbols p (before ++ c :: after) = symbols p before ++ .char c :: symbols p after := by
  induction before using symbols_induction p with
  | nil => exact symbols_of_ne separates.1 after
  | hole index rest admitted ih =>
    rw [List.append_assoc, symbols_hole admitted, symbols_hole admitted, ih, List.cons_append]
  | char head rest apart ih =>
    rw [List.cons_append, symbols_char apart, symbols_char, ih, List.cons_append]
    rintro index later rfl shape
    match rest with
    | [] =>
      obtain ⟨rfl, -⟩ := List.cons.inj shape
      exact separates.2.2
    | [_] =>
      have brace : c = '\x7d' := by
        simp at shape
        exact shape.2.1
      exact absurd brace separates.2.1
    | first :: second :: rest =>
      obtain ⟨rfl, rest_shape⟩ := List.cons.inj shape
      obtain ⟨rfl, -⟩ := List.cons.inj rest_shape
      exact apart first rest rfl rfl

theorem symbols_literal {index : Char} (refused : p index = false) (sound : index ≠ '\x7b')
    (rest : List Char) : symbols p (literal index ++ rest) = chars (literal index) ++ symbols p rest := by
  have brace : ('\x7d' : Char) ≠ '\x7b' := by decide
  have head : symbols p (literal index ++ rest) = .char '\x7b' :: symbols p (index :: '\x7d' :: rest) := by
    apply symbols_char
    rintro other after - shape
    obtain ⟨rfl, -⟩ := List.cons.inj shape
    exact refused
  rw [head, symbols_of_ne sound, symbols_of_ne brace]
  rfl

-- With fewer holes the others are read as text.
theorem spell_symbols (sound : Braceless q) (fewer : ∀ index, p index = true → q index = true)
    (text : List Char) :
    spell value (symbols p text) =
      spell (fun index => if p index then value index else literal index) (symbols q text) := by
  induction text using symbols_induction q with
  | nil => simp [symbols]
  | hole index rest admitted ih =>
    rw [symbols_hole admitted, spell_hole, ← ih]
    cases refused : p index with
    | true => simp [symbols_hole refused]
    | false => simp [symbols_literal refused (sound index admitted).1]
  | char c rest apart ih =>
    rw [symbols_char apart, symbols_char, spell_char, spell_char, ih]
    intro index after brace shape
    by_contra admitted
    simpa [apart index after brace shape] using fewer index (by simpa using admitted)

theorem fillHole_eq {index : Char} (value : List Char) (text : List Char) :
    fillHole index value text = spell (fun _ => value) (symbols (fun c => c = index) text) := by
  unfold fillHole
  induction text using symbols_induction (fun c => c = index) with
  | nil => simp [Text.replace, symbols]
  | hole found rest admitted ih =>
    obtain rfl : found = index := by simpa using admitted
    rw [symbols_hole admitted, spell_hole, ← ih]
    exact Text.replace_match
  | char c rest apart ih =>
    rw [symbols_char apart, spell_char, ← ih, Text.replace]
    rw [if_neg]
    intro starts
    obtain ⟨after, shape⟩ := List.isPrefixOf_iff_prefix.mp starts
    obtain ⟨rfl, rest_shape⟩ := List.cons.inj shape
    simpa using apart index after rfl rest_shape.symm

inductive Finer : Nat → List Symbol → List Symbol → Prop where
  | nil : Finer 0 [] []
  | same (part : Symbol) {extra : Nat} {first second : List Symbol} (rest : Finer extra first second) :
    Finer extra (part :: first) (part :: second)
  | extra (index : Char) {extra : Nat} {first second : List Symbol} (rest : Finer extra first second) :
    Finer (extra + 1) (.hole index :: first) (chars (literal index) ++ second)

theorem Finer.holeCount {extra : Nat} {first second : List Symbol} (finer : Finer extra first second) :
    holeCount first = holeCount second + extra := by
  induction finer with
  | nil => rfl
  | same part rest ih =>
    cases part <;> simp [Holes.holeCount] at ih ⊢ <;> omega
  | extra index rest ih =>
    simp [Holes.holeCount, chars, literal] at ih ⊢
    omega

theorem Finer.of_nil {extra : Nat} {first : List Symbol} (finer : Finer extra first []) :
    extra = 0 ∧ first = [] := by
  generalize whole : ([] : List Symbol) = second at finer
  cases finer with
  | nil => exact ⟨rfl, rfl⟩
  | same => simp at whole
  | extra => simp [chars, literal] at whole

theorem Finer.of_cons {extra : Nat} {part : Symbol} {first rest : List Symbol}
    (finer : Finer extra first (part :: rest)) :
    (∃ tail, first = part :: tail ∧ Finer extra tail rest) ∨
      ∃ index fewer tail after, part = .char '\x7b' ∧ rest = .char index :: .char '\x7d' :: after ∧
        extra = fewer + 1 ∧ first = .hole index :: tail ∧ Finer fewer tail after := by
  generalize whole : part :: rest = second at finer
  cases finer with
  | nil => simp at whole
  | same own inner =>
    obtain ⟨rfl, rfl⟩ := List.cons.inj whole
    exact .inl ⟨_, rfl, inner⟩
  | extra index inner =>
    obtain ⟨rfl, rfl⟩ := List.cons.inj whole
    exact .inr ⟨index, _, _, _, rfl, rfl, rfl, rfl, inner⟩

-- A text that was read before is read again with the same holes and perhaps with more.
theorem symbols_finer (sound : Braceless p) (parts : List Symbol)
    (admitted : ∀ index, .hole index ∈ parts → p index = true) :
    ∃ extra, Finer extra (symbols p (spell literal parts)) parts := by
  induction size : parts.length using Nat.strong_induction_on generalizing parts with
  | _ size ih =>
    subst size
    have later {part : Symbol} {rest : List Symbol} (shape : parts = part :: rest) :
        ∃ extra, Finer extra (symbols p (spell literal rest)) rest :=
      ih rest.length (by simp [shape]) rest (fun index inside => admitted index (by simp [shape, inside])) rfl
    cases parts with
    | nil => exact ⟨0, by simpa [symbols] using Finer.nil⟩
    | cons part rest =>
      obtain ⟨extra, finer⟩ := later rfl
      cases part with
      | hole index =>
        rw [spell_hole, symbols_hole (admitted index (by simp))]
        exact ⟨extra, .same _ finer⟩
      | char c =>
        rw [spell_char]
        rcases symbols_cases p c (spell literal rest) with ⟨index, after, hole, split, read⟩ | ⟨-, read⟩
        · obtain ⟨rfl, inner⟩ := List.cons.inj split
          -- The index and the closing brace begin no hole, so they are characters.
          match rest with
          | [] => simp at inner
          | .hole other :: tail =>
            obtain ⟨brace, -⟩ := List.cons.inj inner
            exact absurd brace.symm (sound index hole).1
          | [.char other] => simp at inner
          | .char other :: .hole second :: tail =>
            simp [literal] at inner
          | .char other :: .char second :: tail =>
            obtain ⟨same, closing⟩ := List.cons.inj inner
            obtain ⟨brace, tails⟩ := List.cons.inj closing
            subst same brace tails
            obtain ⟨more, finer⟩ := ih tail.length (by simp; omega) tail
              (fun index inside => admitted index (by simp [inside])) rfl
            rw [read]
            exact ⟨more + 1, .extra other finer⟩
        · rw [read]
          exact ⟨extra, .same _ finer⟩

theorem hole_of_symbols {text : List Char} {index : Char} (inside : .hole index ∈ symbols p text) :
    p index = true := by
  induction text using symbols_induction p with
  | nil => simp [symbols] at inside
  | hole found rest admitted ih =>
    rw [symbols_hole admitted] at inside
    rcases List.mem_cons.mp inside with same | later
    · obtain rfl := Symbol.hole.inj same
      exact admitted
    · exact ih later
  | char c rest apart ih =>
    rw [symbols_char apart] at inside
    exact ih (by simpa using inside)

@[simp] theorem holeCount_nil : holeCount [] = 0 := rfl

@[simp] theorem holeCount_char (c : Char) : holeCount (.char c :: parts) = holeCount parts := by
  simp [holeCount]

@[simp] theorem holeCount_hole (index : Char) : holeCount (.hole index :: parts) = holeCount parts + 1 := by
  simp [holeCount]

@[simp] theorem holeCount_append (first second : List Symbol) :
    holeCount (first ++ second) = holeCount first + holeCount second := by
  simp [holeCount]

@[simp] theorem holeCount_chars (text : List Char) : holeCount (chars text) = 0 := by
  induction text with
  | nil => rfl
  | cons c rest ih => exact (holeCount_char c).trans ih

theorem holeCount_put (sound : Braceless q) (fewer : ∀ index, p index = true → q index = true)
    (text : List Char) :
    holeCount (put (fun index => if p index then [.hole index] else chars (value index)) (symbols q text)) =
      holeCount (symbols p text) := by
  induction text using symbols_induction q with
  | nil => simp [symbols]
  | hole index rest admitted ih =>
    rw [symbols_hole admitted, put_hole, holeCount_append, ih]
    cases kept : p index with
    | true => simp [symbols_hole kept, Nat.add_comm]
    | false => simp [symbols_literal kept (sound index admitted).1]
  | char c rest apart ih =>
    rw [symbols_char apart, symbols_char, put_char, holeCount_char, holeCount_char, ih]
    intro index after brace shape
    by_contra admitted
    simpa [apart index after brace shape] using fewer index (by simpa using admitted)

inductive Strayed {α : Type} (filling stray : List α) : Nat → List α → List α → Prop where
  | nil : Strayed filling stray 0 [] []
  | same (part : List α) {extra : Nat} {first second : List α} (rest : Strayed filling stray extra first second) :
    Strayed filling stray extra (part ++ first) (part ++ second)
  | stray {extra : Nat} {first second : List α} (rest : Strayed filling stray extra first second) :
    Strayed filling stray (extra + 1) (filling ++ first) (stray ++ second)

section Strays

variable {α : Type} {filling stray first second : List α} {extra : Nat}

theorem Strayed.length (strayed : Strayed filling stray extra first second) :
    first.length + extra * stray.length = second.length + extra * filling.length := by
  induction strayed with
  | nil => simp
  | same part rest ih =>
    simp only [List.length_append]
    omega
  | stray rest ih =>
    simp only [List.length_append, Nat.add_mul, Nat.one_mul]
    omega

theorem Strayed.eq_iff (strayed : Strayed filling stray extra first second) :
    first = second ↔ extra = 0 ∨ filling = stray := by
  constructor
  · intro same
    by_cases sizes : filling.length = stray.length
    · induction strayed with
      | nil => exact .inl rfl
      | same part rest ih => exact ih (List.append_cancel_left same)
      | stray rest ih => exact .inr (List.append_inj same sizes).1
    · have lengths := strayed.length
      rw [same] at lengths
      have equal : extra * stray.length = extra * filling.length := by omega
      rcases Nat.eq_zero_or_pos extra with none | some
      · exact .inl none
      · exact absurd (Nat.eq_of_mul_eq_mul_left some equal).symm sizes
  · rintro (none | rfl)
    · induction strayed with
      | nil => rfl
      | same part rest ih => rw [ih none]
      | stray rest ih => simp at none
    · induction strayed with
      | nil => rfl
      | same part rest ih => rw [ih]
      | stray rest ih => rw [ih]

end Strays

end Spelling

end Firefly.Holes
