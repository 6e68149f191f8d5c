import Mathlib

set_option autoImplicit false

/-!
# Patterns of texts
-/

namespace Firefly.Patterns

inductive Like (wild : Char → Prop) (same : Char → Char → Prop) : List Char → List Char → Prop where
  | nil : Like wild same [] []
  | run {pattern text : List Char} (skipped : List Char) (may : ∀ c ∈ skipped, wild c)
    (rest : Like wild same pattern text) : Like wild same ('%' :: pattern) (skipped ++ text)
  | one {pattern text : List Char} {c : Char} (may : wild c) (rest : Like wild same pattern text) :
    Like wild same ('_' :: pattern) (c :: text)
  | char {pattern text : List Char} {c d : Char} (plain : c ≠ '%' ∧ c ≠ '_') (stands : same c d)
    (rest : Like wild same pattern text) : Like wild same (c :: pattern) (d :: text)

abbrev Like.Plain : List Char → List Char → Prop := Like (fun _ => True) Eq

variable {same : Char → Char → Bool}

section Inversion

variable {wild : Char → Prop} {stands : Char → Char → Prop} {pattern text : List Char}

theorem like_nil : Like wild stands [] text ↔ text = [] := by
  constructor
  · rintro ⟨⟩
    rfl
  · rintro rfl
    exact .nil

theorem like_run : Like wild stands ('%' :: pattern) text ↔
    ∃ skipped rest, text = skipped ++ rest ∧ (∀ c ∈ skipped, wild c) ∧ Like wild stands pattern rest := by
  constructor
  · intro like
    cases like with
    | run skipped may rest => exact ⟨skipped, _, rfl, may, rest⟩
    | char plain => exact absurd rfl plain.1
  · rintro ⟨skipped, rest, rfl, may, like⟩
    exact .run skipped may like

theorem like_one : Like wild stands ('_' :: pattern) text ↔
    ∃ c rest, text = c :: rest ∧ wild c ∧ Like wild stands pattern rest := by
  constructor
  · intro like
    cases like with
    | one may rest => exact ⟨_, _, rfl, may, rest⟩
    | char plain => exact absurd rfl plain.2
  · rintro ⟨c, rest, rfl, may, like⟩
    exact .one may like

theorem like_char {c : Char} (plain : c ≠ '%' ∧ c ≠ '_') : Like wild stands (c :: pattern) text ↔
    ∃ d rest, text = d :: rest ∧ stands c d ∧ Like wild stands pattern rest := by
  constructor
  · intro like
    cases like with
    | run => exact absurd rfl plain.1
    | one => exact absurd rfl plain.2
    | char _ may rest => exact ⟨_, _, rfl, may, rest⟩
  · rintro ⟨d, rest, rfl, may, like⟩
    exact .char plain may like

theorem like_map {f : Char → Char} (wildcards : ∀ c, (f c = '%' ↔ c = '%') ∧ (f c = '_' ↔ c = '_')) :
    Like wild stands (pattern.map f) (text.map f) ↔
      Like (wild ∘ f) (fun c d => stands (f c) (f d)) pattern text := by
  induction pattern generalizing text with
  | nil => simp [like_nil]
  | cons c pattern ih =>
    rw [List.map_cons]
    by_cases percent : c = '%'
    · rw [(wildcards c).1.mpr percent, percent, like_run, like_run]
      constructor
      · rintro ⟨skipped, rest, split, may, like⟩
        obtain ⟨before, after, rfl, rfl, rfl⟩ := List.map_eq_append_iff.mp split
        exact ⟨before, after, rfl, fun c inside => may _ (List.mem_map_of_mem inside), ih.mp like⟩
      · rintro ⟨skipped, rest, rfl, may, like⟩
        exact ⟨skipped.map f, rest.map f, List.map_append, List.forall_mem_map.mpr may, ih.mpr like⟩
    · by_cases underscore : c = '_'
      · rw [(wildcards c).2.mpr underscore, underscore, like_one, like_one]
        cases text <;> simp [ih]
      · have plain : f c ≠ '%' ∧ f c ≠ '_' :=
          ⟨mt (wildcards c).1.mp percent, mt (wildcards c).2.mp underscore⟩
        rw [like_char plain, like_char ⟨percent, underscore⟩]
        cases text <;> simp [ih]

end Inversion

namespace Regex

def metas : List Char :=
  ['.', '^', '$', '*', '+', '?', '(', ')', '[', ']', '\x7b', '\x7d', '|', '\\']

inductive Symbol where
  | special (c : Char)
  | literal (c : Char)
deriving DecidableEq, Repr

def symbol (c : Char) : Symbol := if c ∈ metas then .special c else .literal c

/-- The flag tells that a backslash is in front of the text. -/
def scan : Bool → List Char → Option (List Symbol)
  | false, [] => some []
  | true, [] => none
  | false, c :: rest =>
    if c = '\\' then scan true rest else (scan false rest).map (symbol c :: ·)
  | true, c :: rest => if c.isAlphanum then none else (scan false rest).map (.literal c :: ·)

inductive Piece where
  | dot
  | char (c : Char)
deriving DecidableEq, Repr

inductive Item where
  | start
  | stop
  | one (piece : Piece)
  | star (piece : Piece)
deriving DecidableEq, Repr

def push (items : List Item) : Symbol → Option (List Item)
  | .literal c => some (.one (.char c) :: items)
  | .special '.' => some (.one .dot :: items)
  | .special '^' => some (.start :: items)
  | .special '$' => some (.stop :: items)
  | .special '*' =>
    match items with
    | .one piece :: items => some (.star piece :: items)
    | _ => none
  | .special _ => none

def parse (text : List Char) : Option (List Item) := do
  let symbols ← scan false text
  let items ← symbols.foldlM push []
  return items.reverse

def Piece.fits (same : Char → Char → Bool) : Piece → Char → Bool
  | .dot, c => c ≠ '\n'
  | .char c, d => same c d

def matchFrom (same : Char → Char → Bool) : List Item → Bool → List Char → Bool
  | [], _, _ => true
  | .start :: items, first, text => first && matchFrom same items first text
  | .stop :: items, first, text =>
    (text = [] || text = ['\n']) && matchFrom same items first text
  | .one piece :: items, _, text =>
    match text with
    | [] => false
    | c :: text => piece.fits same c && matchFrom same items false text
  | .star piece :: items, first, text =>
    (List.range (text.length + 1)).any fun n =>
      (text.take n).all (piece.fits same) && matchFrom same items (first && n = 0) (text.drop n)

def search (same : Char → Char → Bool) (items : List Item) (text : List Char) : Bool :=
  (List.range (text.length + 1)).any fun n => matchFrom same items (n = 0) (text.drop n)

def itemOf (c : Char) : Item :=
  if c = '%' then .star .dot else if c = '_' then .one .dot else .one (.char c)

def LineLike (same : Char → Char → Bool) (pattern text : List Char) : Prop :=
  Like (· ≠ '\n') (same · ·) pattern text ∨
    ∃ before, text = before ++ ['\n'] ∧ Like (· ≠ '\n') (same · ·) pattern before

theorem lineLike_run {pattern text : List Char} :
    LineLike same ('%' :: pattern) text ↔
      ∃ skipped rest, text = skipped ++ rest ∧ (∀ c ∈ skipped, c ≠ '\n') ∧ LineLike same pattern rest := by
  simp only [LineLike, like_run]
  constructor
  · rintro (⟨skipped, rest, rfl, may, like⟩ | ⟨before, rfl, skipped, rest, rfl, may, like⟩)
    · exact ⟨skipped, rest, rfl, may, .inl like⟩
    · exact ⟨skipped, rest ++ ['\n'], by simp, may, .inr ⟨rest, rfl, like⟩⟩
  · rintro ⟨skipped, rest, rfl, may, like | ⟨before, rfl, like⟩⟩
    · exact .inl ⟨skipped, rest, rfl, may, like⟩
    · exact .inr ⟨skipped ++ before, by simp, skipped, before, rfl, may, like⟩

theorem lineLike_one {pattern text : List Char} :
    LineLike same ('_' :: pattern) text ↔
      ∃ c rest, text = c :: rest ∧ c ≠ '\n' ∧ LineLike same pattern rest := by
  simp only [LineLike, like_one]
  constructor
  · rintro (⟨c, rest, rfl, may, like⟩ | ⟨before, rfl, c, rest, rfl, may, like⟩)
    · exact ⟨c, rest, rfl, may, .inl like⟩
    · exact ⟨c, rest ++ ['\n'], rfl, may, .inr ⟨rest, rfl, like⟩⟩
  · rintro ⟨c, rest, rfl, may, like | ⟨before, rfl, like⟩⟩
    · exact .inl ⟨c, rest, rfl, may, like⟩
    · exact .inr ⟨c :: before, rfl, c, before, rfl, may, like⟩

theorem lineLike_char {pattern text : List Char} {c : Char} (plain : c ≠ '%' ∧ c ≠ '_') :
    LineLike same (c :: pattern) text ↔
      ∃ d rest, text = d :: rest ∧ same c d = true ∧ LineLike same pattern rest := by
  simp only [LineLike, like_char plain]
  constructor
  · rintro (⟨d, rest, rfl, may, like⟩ | ⟨before, rfl, d, rest, rfl, may, like⟩)
    · exact ⟨d, rest, rfl, may, .inl like⟩
    · exact ⟨d, rest ++ ['\n'], rfl, may, .inr ⟨rest, rfl, like⟩⟩
  · rintro ⟨d, rest, rfl, may, like | ⟨before, rfl, like⟩⟩
    · exact .inl ⟨d, rest, rfl, may, like⟩
    · exact .inr ⟨d :: before, rfl, d, before, rfl, may, like⟩

theorem matchFrom_like {pattern : List Char} {first : Bool} {text : List Char} :
    matchFrom same (pattern.map itemOf ++ [.stop]) first text = true ↔ LineLike same pattern text := by
  induction pattern generalizing first text with
  | nil => simp [matchFrom, LineLike, like_nil]
  | cons c pattern ih =>
    rw [List.map_cons, List.cons_append, itemOf]
    split
    · rename_i percent
      rw [percent, lineLike_run, matchFrom, List.any_eq_true]
      constructor
      · rintro ⟨n, -, here⟩
        obtain ⟨may, here⟩ := Bool.and_eq_true_iff.mp here
        refine ⟨_, _, (List.take_append_drop n text).symm, fun c inside => ?_, ih.mp here⟩
        simpa [Piece.fits] using List.all_eq_true.mp may c inside
      · rintro ⟨skipped, rest, rfl, may, like⟩
        refine ⟨skipped.length, by simp, ?_⟩
        rw [List.take_left, List.drop_left, ih.mpr like, Bool.and_true, List.all_eq_true]
        exact fun c inside => by simpa [Piece.fits] using may c inside
    · rename_i percent
      split
      · rename_i underscore
        rw [underscore, lineLike_one]
        cases text with
        | nil => simp [matchFrom]
        | cons d text => simp [matchFrom, ih, Piece.fits]
      · rename_i underscore
        rw [lineLike_char ⟨percent, underscore⟩]
        cases text with
        | nil => simp [matchFrom]
        | cons d text => simp [matchFrom, ih, Piece.fits]

theorem search_like {pattern text : List Char} :
    search same (.start :: pattern.map itemOf ++ [.stop]) text = true ↔ LineLike same pattern text := by
  rw [search, List.any_eq_true, ← matchFrom_like]
  constructor
  · rintro ⟨n, -, here⟩
    obtain ⟨zero, here⟩ := Bool.and_eq_true_iff.mp here
    obtain rfl : n = 0 := of_decide_eq_true zero
    exact here
  · intro here
    exact ⟨0, by simp, here⟩

end Regex

end Firefly.Patterns
