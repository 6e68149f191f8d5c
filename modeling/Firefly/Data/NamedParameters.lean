import Firefly.Data.CustomQuery

set_option autoImplicit false

namespace Firefly.Data.CustomQuery

open Json (Value)
open Encoding

inductive Piece where
  | text (c : Char)
  | parameter (name : Text)
deriving DecidableEq, Repr

def pieces : Text → List Piece
  | [] => []
  | [c] => [.text c]
  | c :: next :: after =>
    if c = ':' then
      if next = ':' then .text ':' :: .text ':' :: pieces after
      else if isNameStart next then
        .parameter ((next :: after).takeWhile isNameChar) ::
          pieces ((next :: after).dropWhile isNameChar)
      else .text ':' :: pieces (next :: after)
    else .text c :: pieces (next :: after)
termination_by text => text.length
decreasing_by
  all_goals simp only [List.length_cons]
  all_goals first
    | omega
    | exact Nat.lt_succ_of_le (List.dropWhile_sublist _).length_le

def names : List Piece → List Text
  | [] => []
  | .text _ :: rest => names rest
  | .parameter name :: rest => name :: names rest

def placeholders (template : Text) : List Text := names (pieces template)

def written (placeholder : Nat → Text) : Nat → List Piece → Text
  | _, [] => []
  | count, .text c :: rest => c :: written placeholder count rest
  | count, .parameter _ :: rest => placeholder (count + 1) ++ written placeholder (count + 1) rest

def documented (placeholder : Nat → Text) (params : Params) (template : Text) :
    Except CustomQueryError (Text × List Value) :=
  match (placeholders template).find? fun name => (params.get name).isNone with
  | some name => .error (.missingParameter name)
  | none => .ok (written placeholder 0 (pieces template), (placeholders template).filterMap params.get)

def bound (placeholder : Nat → Text) (params : Params) (rest : List Piece) (out : Text)
    (args : List Value) : Except CustomQueryError (Text × List Value) :=
  match (names rest).find? fun name => (params.get name).isNone with
  | some name => .error (.missingParameter name)
  | none => .ok (out ++ written placeholder args.length rest, args ++ (names rest).filterMap params.get)

section Bound

variable {placeholder : Nat → Text} {params : Params} {rest : List Piece} {out : Text}
  {args : List Value} {name : Text} {value : Value}

@[simp] theorem bound_nil : bound placeholder params [] out args = .ok (out, args) := by
  simp [bound, written, names]

@[simp] theorem bound_text (c : Char) :
    bound placeholder params (.text c :: rest) out args =
      bound placeholder params rest (out ++ [c]) args := by
  simp [bound, written, names]

theorem bound_missing (missing : params.get name = none) :
    bound placeholder params (.parameter name :: rest) out args =
      .error (.missingParameter name) := by
  simp [bound, names, missing]

theorem bound_parameter (found : params.get name = some value) :
    bound placeholder params (.parameter name :: rest) out args =
      bound placeholder params rest (out ++ placeholder (args.length + 1)) (args ++ [value]) := by
  simp [bound, written, names, found]

theorem documented_eq (template : Text) :
    documented placeholder params template = bound placeholder params (pieces template) [] [] := by
  simp [documented, bound, placeholders]

theorem takeWhile_bytes (bytes : List UInt8) :
    (bytes.map asChar).takeWhile isNameChar =
      (bytes.takeWhile fun b => isNameChar (asChar b)).map asChar := by
  rw [List.takeWhile_map]
  rfl

theorem dropWhile_bytes (bytes : List UInt8) :
    (bytes.map asChar).dropWhile isNameChar =
      (bytes.dropWhile fun b => isNameChar (asChar b)).map asChar := by
  rw [List.dropWhile_map]
  rfl

theorem bindFrom_eq (bytes : List UInt8) (out : Text) (args : List Value) :
    bindFrom placeholder params bytes out args =
      bound placeholder params (pieces (bytes.map asChar)) out args := by
  fun_induction bindFrom placeholder params bytes out args with
  | case1 out args => simp [pieces]
  | case2 out args c colon ih => simpa [pieces, colon] using ih
  | case3 out args c colon next after cast ih => simpa [pieces, colon, cast] using ih
  | case4 out args c colon next after plain starts name missing =>
    simp only [List.map_cons, pieces, colon, plain, starts, if_true, if_false]
    rw [← List.map_cons, takeWhile_bytes, bound_missing missing]
  | case5 out args c colon next after plain starts name value found ih =>
    simp only [List.map_cons, pieces, colon, plain, starts, if_true, if_false]
    rw [← List.map_cons, takeWhile_bytes, dropWhile_bytes, bound_parameter found, ih]
  | case6 out args c colon next after plain starts ih =>
    simp only [List.map_cons] at ih
    simp [pieces, colon, plain, starts, ih]
  | case7 c rest out args plain ih =>
    cases rest with
    | nil => simpa [pieces, plain] using ih
    | cons next after =>
      simp only [List.map_cons] at ih
      simp [pieces, plain, ih]

end Bound

def latin (text : Text) : Text := (utf8 text).map asChar

section Latin

variable {c : Char} {text : Text}

theorem nameChar_ascii (among : isNameChar c = true) : c.toNat < 128 := by
  simp only [isNameChar, Char.isAlphanum, Char.isAlpha, Char.isUpper, Char.isLower, Char.isDigit,
    Bool.or_eq_true, Bool.and_eq_true, decide_eq_true_eq, UInt32.le_iff_toNat_le, ge_iff_le] at among
  have value : c.toNat = c.val.toNat := rfl
  have last : 'Z'.val.toNat = 90 ∧ 'z'.val.toNat = 122 ∧ '9'.val.toNat = 57 := by decide
  rcases among with named | rfl
  · omega
  · decide

theorem nameStart_char (starts : isNameStart c = true) : isNameChar c = true := by
  simp only [isNameStart, Bool.or_eq_true] at starts
  rcases starts with letter | underscore
  · simp [isNameChar, Char.isAlphanum, letter]
  · simp [isNameChar, underscore]

theorem latin_ascii (ascii : c.toNat < 128) : latin (c :: text) = c :: latin text := by
  rw [latin, utf8_cons, List.map_append, asChar_ascii ascii]
  rfl

theorem latin_wide (wide : 128 ≤ c.toNat) (text : Text) : ∃ first second more,
    latin (c :: text) = first :: second :: more ++ latin text ∧
      ∀ d ∈ first :: second :: more, 128 ≤ d.toNat := by
  obtain ⟨several, high⟩ := utf8_wide wide
  match bytes : String.utf8EncodeChar c with
  | [] | [_] => simp [bytes] at several
  | first :: second :: more =>
    refine ⟨asChar first, asChar second, more.map asChar, ?_, ?_⟩
    · simp [latin, utf8_cons, bytes]
    · intro d among
      rw [← List.map_cons, ← List.map_cons] at among
      obtain ⟨byte, there, rfl⟩ := List.mem_map.mp among
      rw [asChar_toNat]
      exact high byte (bytes ▸ there)

theorem not_nameChar_of_wide (wide : 128 ≤ c.toNat) : isNameChar c = false := by
  cases named : isNameChar c with
  | false => rfl
  | true => exact absurd (nameChar_ascii named) (by omega)

@[simp] theorem latin_nil : latin [] = [] := by
  simp [latin, utf8]

theorem takeWhile_latin (text : Text) :
    (latin text).takeWhile isNameChar = text.takeWhile isNameChar := by
  induction text with
  | nil => simp
  | cons c rest ih =>
    rcases Nat.lt_or_ge c.toNat 128 with ascii | wide
    · rw [latin_ascii ascii, List.takeWhile_cons, List.takeWhile_cons, ih]
    · obtain ⟨first, second, more, expands, high⟩ := latin_wide wide rest
      have stops := not_nameChar_of_wide (high first (by simp))
      simp [expands, stops, not_nameChar_of_wide wide]

theorem dropWhile_latin (text : Text) :
    (latin text).dropWhile isNameChar = latin (text.dropWhile isNameChar) := by
  induction text with
  | nil => simp
  | cons c rest ih =>
    rcases Nat.lt_or_ge c.toNat 128 with ascii | wide
    · rw [latin_ascii ascii, List.dropWhile_cons, List.dropWhile_cons, ih]
      split
      next => rfl
      next => rw [latin_ascii ascii]
    · obtain ⟨first, second, more, expands, high⟩ := latin_wide wide rest
      have stops := not_nameChar_of_wide (high first (by simp))
      simp [expands, stops, not_nameChar_of_wide wide]

theorem pieces_plain (plain : c ≠ ':') : pieces (c :: text) = .text c :: pieces text := by
  cases text <;> simp [pieces, plain]

theorem pieces_run {run : Text} (plain : ∀ d ∈ run, d ≠ ':') :
    pieces (run ++ text) = run.map .text ++ pieces text := by
  induction run with
  | nil => rfl
  | cons d run ih =>
    rw [List.cons_append, pieces_plain (plain d (by simp)), ih fun e among => plain e (by simp [among])]
    rfl

theorem not_colon_of_wide (wide : 128 ≤ c.toNat) : c ≠ ':' := by
  rintro rfl
  exact absurd wide (by decide)

def expand : Piece → List Piece
  | .text c => (latin [c]).map .text
  | .parameter name => [.parameter name]

theorem expand_ascii (ascii : c.toNat < 128) : expand (.text c) = [.text c] := by
  rw [expand, latin_ascii ascii, latin_nil]
  rfl

theorem pieces_latin_plain (plain : c ≠ ':') :
    pieces (latin (c :: text)) = expand (.text c) ++ pieces (latin text) := by
  rcases Nat.lt_or_ge c.toNat 128 with ascii | wide
  · rw [latin_ascii ascii, pieces_plain plain, expand_ascii ascii]
    rfl
  · obtain ⟨first, second, more, expands, high⟩ := latin_wide wide []
    have shifted : latin (c :: text) = latin [c] ++ latin text := by simp [latin, utf8]
    rw [shifted, expand, expands]
    simp only [latin_nil, List.append_nil]
    exact pieces_run fun d among => not_colon_of_wide (high d among)

theorem pieces_latin (text : Text) : pieces (latin text) = (pieces text).flatMap expand := by
  have colon_ascii : ':'.toNat < 128 := by decide
  fun_induction pieces text with
  | case1 => simp [pieces]
  | case2 c =>
    by_cases colon : c = ':'
    · subst colon
      rw [latin_ascii colon_ascii]
      simp [pieces, expand_ascii colon_ascii]
    · rw [pieces_latin_plain colon]
      simp [pieces]
  | case3 after ih =>
    rw [latin_ascii colon_ascii, latin_ascii colon_ascii]
    simp [pieces, expand_ascii colon_ascii, ih]
  | case4 next after plain starts ih =>
    have ascii := nameChar_ascii (nameStart_char starts)
    have taken := takeWhile_latin (next :: after)
    have dropped := dropWhile_latin (next :: after)
    rw [latin_ascii ascii] at taken dropped
    rw [latin_ascii colon_ascii, latin_ascii ascii]
    simp [pieces, plain, starts, taken, dropped, ih, expand]
  | case5 next after plain starts ih =>
    rw [latin_ascii colon_ascii, List.flatMap_cons, expand_ascii colon_ascii, ← ih]
    rcases Nat.lt_or_ge next.toNat 128 with ascii | wide
    · simp [latin_ascii ascii, pieces, plain, starts]
    · obtain ⟨first, second, more, expands, high⟩ := latin_wide wide after
      have apart := not_colon_of_wide (high first (by simp))
      have idle : isNameStart first = false := by
        cases named : isNameStart first with
        | false => rfl
        | true => exact absurd (nameChar_ascii (nameStart_char named)) (by have := high first (by simp); omega)
      simp [expands, pieces, apart, idle]
  | case6 c next after plain ih =>
    rw [pieces_latin_plain plain, ih, List.flatMap_cons]

theorem text_mem_pieces (text : Text) (wide : 128 ≤ c.toNat) :
    .text c ∈ pieces text ↔ c ∈ text := by
  have apart := not_colon_of_wide wide
  fun_induction pieces text with
  | case1 => simp
  | case2 d => simp
  | case3 after ih => simp [apart, ih]
  | case4 next after plain starts ih =>
    have outside : c ∉ (next :: after).takeWhile isNameChar := by
      intro among
      have named := List.mem_takeWhile_imp among
      simp [not_nameChar_of_wide wide] at named
    have split : c ∈ next :: after ↔ c ∈ (next :: after).dropWhile isNameChar := by
      conv_lhs => rw [← List.takeWhile_append_dropWhile (p := isNameChar) (l := next :: after)]
      simp only [List.mem_append, outside, false_or]
    rw [List.mem_cons, List.mem_cons, split]
    simpa [apart] using ih
  | case5 next after plain starts ih => simp [apart, ih]
  | case6 d next after plain ih => simp [ih]

theorem names_append (first second : List Piece) :
    names (first ++ second) = names first ++ names second := by
  induction first with
  | nil => rfl
  | cons piece first ih => cases piece <;> simp [names, ih]

theorem names_expand (rest : List Piece) : names (rest.flatMap expand) = names rest := by
  have textual : ∀ run : Text, names (run.map .text) = [] := by
    intro run
    induction run with
    | nil => rfl
    | cons c run ih => simpa [names] using ih
  induction rest with
  | nil => rfl
  | cons piece rest ih =>
    cases piece <;> simp [expand, names, names_append, textual, ih]

variable {placeholder : Nat → Text}

theorem written_run (count : Nat) (run : Text) (rest : List Piece) :
    written placeholder count (run.map .text ++ rest) = run ++ written placeholder count rest := by
  induction run with
  | nil => rfl
  | cons c run ih => simp [written, ih]

theorem latin_length (c : Char) :
    1 ≤ (latin [c]).length ∧ (128 ≤ c.toNat → 2 ≤ (latin [c]).length) := by
  rcases Nat.lt_or_ge c.toNat 128 with ascii | wide
  · simp [latin_ascii ascii]
    omega
  · obtain ⟨first, second, more, expands, -⟩ := latin_wide wide []
    simp [expands]

theorem written_expand_length (placeholder : Nat → Text) (count : Nat) (rest : List Piece) :
    (written placeholder count rest).length ≤
        (written placeholder count (rest.flatMap expand)).length ∧
      ((∃ c, 128 ≤ c.toNat ∧ .text c ∈ rest) → (written placeholder count rest).length <
        (written placeholder count (rest.flatMap expand)).length) := by
  induction rest generalizing count with
  | nil => simp
  | cons piece rest ih =>
    cases piece with
    | text c =>
      obtain ⟨longer, strictly⟩ := ih count
      obtain ⟨one, two⟩ := latin_length c
      simp only [List.flatMap_cons, expand, written_run, written, List.length_cons, List.length_append]
      refine ⟨by omega, ?_⟩
      rintro ⟨d, wide, among⟩
      rcases List.mem_cons.mp among with same | later
      · obtain rfl : d = c := by simpa using same
        have := two wide
        omega
      · have := strictly ⟨d, wide, later⟩
        omega
    | parameter name =>
      obtain ⟨longer, strictly⟩ := ih (count + 1)
      simp only [List.flatMap_cons, expand, List.singleton_append, written, List.length_append]
      refine ⟨by omega, ?_⟩
      rintro ⟨d, wide, among⟩
      have later : .text d ∈ rest := by simpa using among
      have := strictly ⟨d, wide, later⟩
      omega

theorem expand_all_ascii {rest : List Piece} (ascii : ∀ c, .text c ∈ rest → c.toNat < 128) :
    rest.flatMap expand = rest := by
  induction rest with
  | nil => rfl
  | cons piece rest ih =>
    rw [List.flatMap_cons, ih fun c among => ascii c (by simp [among])]
    cases piece with
    | text c => rw [expand_ascii (ascii c (by simp))]; rfl
    | parameter name => rfl

end Latin

theorem bindNamedParams_eq (placeholder : Nat → Text) (params : Params) (template : Text) :
    bindNamedParams placeholder params template =
      bound placeholder params ((pieces template).flatMap expand) [] [] := by
  rw [bindNamedParams, bindFrom_eq, ← pieces_latin]
  rfl

theorem bindNamedParams_documented_iff (placeholder : Nat → Text) (params : Params)
    (template : Text) :
    bindNamedParams placeholder params template = documented placeholder params template ↔
      (∃ name ∈ placeholders template, params.get name = none) ∨ ∀ c ∈ template, c.toNat < 128 := by
  rw [bindNamedParams_eq, documented_eq]
  cases missing : (names (pieces template)).find? fun name => (params.get name).isNone with
  | some name =>
    have absent : params.get name = none := by simpa using List.find?_some missing
    have there : ∃ name ∈ placeholders template, params.get name = none :=
      ⟨name, List.mem_of_find?_eq_some missing, absent⟩
    simp only [bound, names_expand, missing, there, true_or]
  | none =>
    have bound_all : ¬ ∃ name ∈ placeholders template, params.get name = none := by
      rintro ⟨name, among, absent⟩
      simpa [absent] using List.find?_eq_none.mp missing name among
    simp only [bound, names_expand, missing, bound_all, false_or]
    constructor
    · intro same c among
      by_contra wide
      obtain ⟨-, longer⟩ := written_expand_length placeholder 0 (pieces template)
      have later := longer ⟨c, by omega, (text_mem_pieces template (by omega)).mpr among⟩
      simp only [Except.ok.injEq, Prod.mk.injEq, List.nil_append, List.length_nil] at same
      rw [same.1] at later
      exact absurd later (by omega)
    · intro ascii
      rw [expand_all_ascii]
      intro c among
      by_contra wide
      exact wide (ascii c ((text_mem_pieces template (by omega)).mp among))

theorem bindNamedParams_accent :
    bindNamedParams (fun _ => ['?']) ⟨[], .nil⟩ "café".toList = .ok ("cafÃ©".toList, []) ∧
      documented (fun _ => ['?']) ⟨[], .nil⟩ "café".toList = .ok ("café".toList, []) := by
  constructor
  · have bytes : utf8 "café".toList = [99, 97, 102, 195, 169] := by decide
    rw [bindNamedParams, bytes]
    simp [bindFrom, asChar]
  · simp [documented, placeholders, pieces, names, written]

end Firefly.Data.CustomQuery
