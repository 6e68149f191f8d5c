import Mathlib

set_option autoImplicit false

/-!
# Texts

What `{:?}` prints, whitespace, and `split_once`, `rsplit_once`, `strip_prefix` and `replace` of `str`, over
lists of characters.
-/

namespace Firefly.Text

/-- Rust's `{:?}` on a string: quoted, with the named escapes and `\u` escapes for the other
ASCII control characters. Unicode characters past ASCII are taken as printable. -/
def escapeChar (c : Char) : List Char :=
  match c with
  | '"' => ['\\', '"']
  | '\\' => ['\\', '\\']
  | '\n' => ['\\', 'n']
  | '\r' => ['\\', 'r']
  | '\t' => ['\\', 't']
  | _ =>
    if c.toNat = 0 then ['\\', '0']
    else if c.toNat < 32 ∨ c.toNat = 127 then
      ['\\', 'u', Char.ofNat 123] ++ Nat.toDigits 16 c.toNat ++ [Char.ofNat 125]
    else [c]

def debugStr (s : String) : String :=
  String.ofList ('"' :: s.toList.flatMap escapeChar ++ ['"'])

example : debugStr "ship" = "\"ship\"" := by decide

def asciiLower (text : List Char) : List Char := text.map Char.toLower

def isWhitespace (c : Char) : Bool :=
  let n := c.toNat
  9 ≤ n ∧ n ≤ 13 ∨ n = 32 ∨ n = 133 ∨ n = 160 ∨ n = 5760 ∨ 8192 ≤ n ∧ n ≤ 8202 ∨
    n = 8232 ∨ n = 8233 ∨ n = 8239 ∨ n = 8287 ∨ n = 12288

def trim (chars : List Char) : List Char :=
  (chars.dropWhile isWhitespace).rdropWhile isWhitespace

theorem trim_split (chars : List Char) : ∃ before after, chars = before ++ trim chars ++ after ∧
    (∀ c ∈ before, isWhitespace c = true) ∧ ∀ c ∈ after, isWhitespace c = true := by
  have right : ∀ l : List Char, l.rdropWhile isWhitespace ++ l.rtakeWhile isWhitespace = l := by
    intro l
    rw [List.rdropWhile, List.rtakeWhile, ← List.reverse_append, List.takeWhile_append_dropWhile,
      List.reverse_reverse]
  refine ⟨chars.takeWhile isWhitespace, (chars.dropWhile isWhitespace).rtakeWhile isWhitespace,
    ?_, fun c among => List.mem_takeWhile_imp among, ?_⟩
  · rw [trim, List.append_assoc, right, List.takeWhile_append_dropWhile]
  · intro c among
    exact List.mem_takeWhile_imp (List.mem_reverse.mp among)

theorem mem_trim {chars : List Char} {c : Char} (among : c ∈ chars) (dark : isWhitespace c = false) :
    c ∈ trim chars := by
  obtain ⟨before, after, split, white, white'⟩ := trim_split chars
  rw [split, List.mem_append, List.mem_append] at among
  rcases among with (left | inside) | right
  · simp [white c left] at dark
  · exact inside
  · simp [white' c right] at dark

theorem mem_of_mem_trim {chars : List Char} {c : Char} (among : c ∈ trim chars) : c ∈ chars := by
  obtain ⟨before, after, split, -, -⟩ := trim_split chars
  rw [split]
  simp [among]

theorem trim_head {chars rest : List Char} {c : Char} (first : trim chars = c :: rest) :
    isWhitespace c = false := by
  obtain ⟨later, whole⟩ := List.rdropWhile_prefix isWhitespace (l := chars.dropWhile isWhitespace)
  rw [show (chars.dropWhile isWhitespace).rdropWhile isWhitespace = c :: rest from first] at whole
  have dark := List.head?_dropWhile_not isWhitespace chars
  rw [← whole] at dark
  simpa using dark

theorem trim_last {chars : List Char} (present : trim chars ≠ []) :
    isWhitespace ((trim chars).getLast present) = false :=
  Bool.not_eq_true _ ▸ List.rdropWhile_last_not isWhitespace (chars.dropWhile isWhitespace) present

@[simp] theorem trim_trim (chars : List Char) : trim (trim chars) = trim chars := by
  have left : (trim chars).dropWhile isWhitespace = trim chars := by
    cases kept : trim chars with
    | nil => rfl
    | cons c rest => simp [trim_head kept]
  rw [trim, left]
  exact List.rdropWhile_idempotent isWhitespace _

theorem trim_of_dark {chars : List Char} (dark : ∀ c ∈ chars, isWhitespace c = false) :
    trim chars = chars := by
  have left : chars.dropWhile isWhitespace = chars := by
    cases chars with
    | nil => rfl
    | cons c rest => simp [dark c (by simp)]
  rw [trim, left, List.rdropWhile_eq_self_iff]
  intro present
  simp [dark _ (List.getLast_mem present)]

def splitWhitespace (chars : List Char) : List (List Char) :=
  (chars.splitOnP isWhitespace).filter (· ≠ [])

example : splitWhitespace " a  b ".toList = ["a".toList, "b".toList] := by decide

def splitOnce (separator : List Char) : List Char → Option (List Char × List Char)
  | [] => none
  | c :: rest =>
    if separator.isPrefixOf (c :: rest) then some ([], (c :: rest).drop separator.length)
    else (splitOnce separator rest).map fun parts => (c :: parts.1, parts.2)

def rsplitOnce (separator : Char) (text : List Char) : Option (List Char × List Char) :=
  (splitOnce [separator] text.reverse).map fun parts => (parts.2.reverse, parts.1.reverse)

def stripPrefix (pattern text : List Char) : Option (List Char) :=
  if pattern.isPrefixOf text then some (text.drop pattern.length) else none

/-- `str::replace` of the pattern `first :: more`: its matches from the left, none of them
overlapping. -/
def replace (first : Char) (more replacement : List Char) : List Char → List Char
  | [] => []
  | c :: rest =>
    if (first :: more).isPrefixOf (c :: rest) then
      replacement ++ replace first more replacement (rest.drop more.length)
    else c :: replace first more replacement rest
termination_by text => text.length
decreasing_by
  all_goals simp only [List.length_cons, List.length_drop]
  all_goals omega

section Replace

variable {first : Char} {more replacement run rest text : List Char}

theorem replace_match :
    replace first more replacement (first :: more ++ rest) =
      replacement ++ replace first more replacement rest := by
  have starts : (first :: more).isPrefixOf (first :: more ++ rest) = true := by simp
  rw [List.cons_append] at starts ⊢
  rw [replace, if_pos starts]
  simp

theorem replace_run (free : ∀ n < run.length, ¬ first :: more <+: (run ++ rest).drop n) :
    replace first more replacement (run ++ rest) = run ++ replace first more replacement rest := by
  induction run with
  | nil => rfl
  | cons c run ih =>
    have here : ¬ (first :: more).isPrefixOf (c :: (run ++ rest)) = true := by
      simpa using free 0 (by simp)
    rw [List.cons_append, replace, if_neg here, ih]
    · rfl
    · intro n within
      simpa using free (n + 1) (by simpa using within)

theorem replace_absent (absent : ¬ first :: more <:+: text) :
    replace first more replacement text = text := by
  have free : ∀ n < text.length, ¬ first :: more <+: (text ++ []).drop n := by
    intro n _ starts
    rw [List.append_nil] at starts
    exact absent (starts.isInfix.trans (List.drop_suffix n text).isInfix)
  have whole : replace first more replacement (text ++ []) =
      text ++ replace first more replacement [] := replace_run free
  simpa [replace] using whole

end Replace

section Slices

variable {separator text before after : List Char} {c : Char}

theorem splitOnce_append (fresh : ∀ d ∈ before, separator.head? ≠ some d) (present : separator ≠ []) :
    splitOnce separator (before ++ separator ++ after) = some (before, after) := by
  obtain ⟨first, more, rfl⟩ := List.exists_cons_of_ne_nil present
  induction before with
  | nil =>
    have starts : (first :: more).isPrefixOf (first :: (more ++ after)) = true := by
      simp [List.isPrefixOf]
    simp [splitOnce, starts]
  | cons d before ih =>
    have differs : first ≠ d := by simpa using fresh d (by simp)
    have later := ih fun e among => fresh e (by simp [among])
    simp only [List.cons_append, List.append_assoc] at later
    simp [splitOnce, List.isPrefixOf, differs, later]

theorem splitOnce_none (absent : c ∉ text) : splitOnce [c] text = none := by
  induction text with
  | nil => rfl
  | cons d rest ih =>
    have differs : c ≠ d := fun same => absent (by simp [same])
    simp [splitOnce, differs, ih fun among => absent (by simp [among])]

theorem rsplitOnce_append (fresh : c ∉ after) :
    rsplitOnce c (before ++ c :: after) = some (before, after) := by
  have reversed : (before ++ c :: after).reverse = after.reverse ++ [c] ++ before.reverse := by simp
  rw [rsplitOnce, reversed, splitOnce_append (by
    intro d among same
    obtain rfl : c = d := by simpa using same
    exact fresh (List.mem_reverse.mp among)) (by simp)]
  simp

theorem append_cons_cases {a b : Char} {front back : List Char} (apart : a ≠ b)
    (same : before ++ a :: after = front ++ b :: back) :
    (∃ between, front = before ++ a :: between ∧ after = between ++ b :: back) ∨
      ∃ between, before = front ++ b :: between ∧ back = between ++ a :: after := by
  rcases List.append_eq_append_iff.mp same with ⟨between, rfl, rest⟩ | ⟨between, rfl, rest⟩
  · cases between with
    | nil => exact absurd (List.cons.inj rest).1 apart
    | cons c between =>
      obtain ⟨rfl, rfl⟩ := List.cons.inj rest
      exact .inl ⟨between, rfl, rfl⟩
  · cases between with
    | nil => exact absurd (List.cons.inj rest).1.symm apart
    | cons c between =>
      obtain ⟨rfl, rfl⟩ := List.cons.inj rest
      exact .inr ⟨between, rfl, rfl⟩

theorem first_unique {front back : List Char} (fresh : c ∉ before) (fresh' : c ∉ front)
    (same : before ++ c :: after = front ++ c :: back) : before = front ∧ after = back := by
  have first : ∀ part rest : List Char, c ∉ part → splitOnce [c] (part ++ c :: rest) = some (part, rest) := by
    intro part rest absent
    have joined : part ++ [c] ++ rest = part ++ c :: rest := by simp
    rw [← joined]
    exact splitOnce_append (fun d among head => absent (Option.some.inj head ▸ among)) (by simp)
  have left := first before after fresh
  rw [same, first front back fresh'] at left
  exact (Prod.mk.inj (Option.some.inj left)).imp Eq.symm Eq.symm

theorem exists_last (present : c ∈ text) : ∃ before after, text = before ++ c :: after ∧ c ∉ after := by
  obtain ⟨after, before, split, fresh⟩ := List.eq_append_cons_of_mem (List.mem_reverse.mpr present)
  refine ⟨before.reverse, after.reverse, ?_, fun among => fresh (List.mem_reverse.mp among)⟩
  rw [← List.reverse_reverse text, split]
  simp

theorem rsplitOnce_joins (split : rsplitOnce c text = some (before, after)) :
    text = before ++ c :: after ∧ c ∉ after := by
  by_cases present : c ∈ text
  · obtain ⟨front, back, rfl, fresh⟩ := exists_last present
    rw [rsplitOnce_append fresh] at split
    obtain ⟨rfl, rfl⟩ := Prod.mk.inj (Option.some.inj split)
    exact ⟨rfl, fresh⟩
  · rw [rsplitOnce, splitOnce_none (by simpa using present)] at split
    cases split

theorem rsplitOnce_none (absent : c ∉ text) : rsplitOnce c text = none := by
  rw [rsplitOnce, splitOnce_none (by simpa using absent)]
  rfl

end Slices

end Firefly.Text
