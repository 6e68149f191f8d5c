import Mathlib

set_option autoImplicit false

/-!
# Words between separators

Where a run of words begins or ends in a text of separated words, it does so between two of its words.
-/

namespace Firefly.Words

variable {α : Type} [DecidableEq α] {sep : α}

structure Plain (sep : α) (words : List (List α)) : Prop where
  present : words ≠ []
  free : ∀ word ∈ words, sep ∉ word

def join (sep : α) (words : List (List α)) : List α := [sep].intercalate words

def token (sep : α) (words : List (List α)) : List α := sep :: join sep words ++ [sep]

section Splitting

variable {words before run after : List (List α)} {a b : List α}

theorem splitOn_join (plain : Plain sep words) : (join sep words).splitOn sep = words :=
  List.splitOn_intercalate sep plain.free plain.present

theorem join_splitOn (a : List α) : join sep (a.splitOn sep) = a := List.intercalate_splitOn sep

theorem plain_splitOn (a : List α) : Plain sep (a.splitOn sep) := by
  refine ⟨List.splitOn_ne_nil sep a, ?_⟩
  induction a with
  | nil => simp
  | cons x a ih =>
    rw [List.splitOn_cons_eq_if_modifyHead]
    split
    · simpa using ih
    · rename_i other
      obtain ⟨first, rest, split⟩ := List.exists_cons_of_ne_nil (List.splitOn_ne_nil sep a)
      rw [split, List.forall_mem_cons] at ih
      rw [split, List.modifyHead_cons, List.forall_mem_cons, List.mem_cons, not_or]
      exact ⟨⟨fun same => other (by simp [same]), ih.1⟩, ih.2⟩

omit [DecidableEq α] in
theorem plain_append (left : Plain sep before) (right : ∀ word ∈ after, sep ∉ word) :
    Plain sep (before ++ after) := by
  refine ⟨fun none_ => left.present (List.append_eq_nil_iff.mp none_).1, fun word member => ?_⟩
  rcases List.mem_append.mp member with member | member
  · exact left.free word member
  · exact right word member

omit [DecidableEq α] in
theorem join_append (left : before ≠ []) (right : after ≠ []) :
    join sep (before ++ after) = join sep before ++ sep :: join sep after := by
  obtain ⟨first, after, rfl⟩ := List.exists_cons_of_ne_nil right
  induction before with
  | nil => exact absurd rfl left
  | cons word before ih =>
    cases before with
    | nil => simp [join, List.intercalate_cons_cons]
    | cons next before =>
      have rest := ih (by simp)
      simp only [join, List.cons_append, List.intercalate_cons_cons] at rest ⊢
      rw [rest]
      simp

omit [DecidableEq α] in
theorem join_cons (word : List α) (right : after ≠ []) :
    join sep (word :: after) = word ++ sep :: join sep after := by
  simpa [join] using @join_append _ sep [word] after (by simp) right

omit [DecidableEq α] in
theorem join_flatten {runs : List (List (List α))} (present : ∀ words ∈ runs, words ≠ []) :
    join sep (runs.map (join sep)) = join sep runs.flatten := by
  induction runs with
  | nil => rfl
  | cons words runs ih =>
    obtain ⟨here, rest⟩ := List.forall_mem_cons.mp present
    cases runs with
    | nil => simp [join]
    | cons next runs =>
      have more : (next :: runs).flatten ≠ [] := fun none_ =>
        rest next (.head _) (List.append_eq_nil_iff.mp none_).1
      have whole : (words :: next :: runs).flatten = words ++ (next :: runs).flatten := List.flatten_cons
      rw [List.map_cons, join_cons _ (by simp), ih rest, whole, join_append here more]

omit [DecidableEq α] in
theorem join_token (left : before ≠ []) (plain : Plain sep run) (right : after ≠ []) :
    join sep (before ++ run ++ after) = join sep before ++ token sep run ++ join sep after := by
  rw [List.append_assoc, join_append left (by simp [right]), join_append plain.present right, token]
  simp

theorem token_iff (plain : Plain sep words) (own : Plain sep run) :
    join sep words = a ++ token sep run ++ b ↔ words = a.splitOn sep ++ run ++ b.splitOn sep := by
  constructor
  · intro same
    have split := congrArg (List.splitOn sep) same
    rw [splitOn_join plain, token, List.append_assoc, List.append_assoc, List.cons_append,
      List.splitOn_append_cons_self, List.singleton_append, List.splitOn_append_cons_self,
      splitOn_join own] at split
    rw [split, List.append_assoc]
  · rintro rfl
    rw [join_token (List.splitOn_ne_nil sep a) own (List.splitOn_ne_nil sep b), join_splitOn, join_splitOn]

theorem dropSuffix?_iff (plain : Plain sep words) (own : Plain sep run) :
    (join sep words).dropSuffix? (sep :: join sep run) = some a ↔ words = a.splitOn sep ++ run := by
  rw [List.dropSuffix?_eq_some_iff]
  constructor
  · rintro ⟨run', same, equal⟩
    obtain rfl := eq_of_beq equal
    have split := congrArg (List.splitOn sep) same
    rwa [splitOn_join plain, List.splitOn_append_cons_self, splitOn_join own] at split
  · rintro rfl
    refine ⟨_, ?_, beq_self_eq_true _⟩
    rw [join_append (List.splitOn_ne_nil sep a) own.present, join_splitOn]

end Splitting

section Finding

variable {before more after : List (List α)} {first : List α}

omit [DecidableEq α] in
theorem before_prefix {before' rest rest' : List (List α)} (fresh : first ∉ before)
    (same : before ++ rest = before' ++ first :: rest') : before <+: before' := by
  induction before generalizing before' with
  | nil => exact List.nil_prefix
  | cons word before ih =>
    rw [List.mem_cons, not_or] at fresh
    cases before' with
    | nil => exact absurd (List.cons.inj same).1.symm fresh.1
    | cons word' before' =>
      obtain ⟨rfl, rest⟩ := List.cons.inj same
      exact List.cons_prefix_cons.mpr ⟨rfl, ih fresh.2 rest⟩

omit [DecidableEq α] in
theorem length_join_le {before' : List (List α)} (starts : before <+: before') :
    (join sep before).length ≤ (join sep before').length := by
  obtain ⟨rest, rfl⟩ := starts
  by_cases none_ : before = []
  · subst none_
    exact Nat.zero_le _
  by_cases last : rest = []
  · rw [last, List.append_nil]
  · rw [join_append none_ last, List.length_append]
    omega

theorem dropInfix?_first (plain : Plain sep (before ++ first :: more ++ after)) (left : before ≠ [])
    (right : after ≠ []) (fresh : first ∉ before) :
    (join sep (before ++ first :: more ++ after)).dropInfix? (token sep (first :: more)) =
      some (join sep before, join sep after) := by
  have own : Plain sep (first :: more) := 
    ⟨by simp, fun word member => plain.free word (List.mem_append_left _ (List.mem_append_right _ member))⟩
  rw [List.dropInfix?_eq_some_iff]
  refine ⟨⟨_, join_token left own right, beq_self_eq_true _⟩, ?_⟩
  rintro a found b same equal
  obtain rfl := eq_of_beq equal
  have split := (token_iff plain own).mp same
  have starts : before <+: a.splitOn sep := by
    rw [List.append_assoc, List.append_assoc] at split
    exact before_prefix fresh split
  have shorter := @length_join_le _ sep _ _ starts
  rwa [join_splitOn] at shorter

theorem dropInfix?_absent {words : List (List α)} (plain : Plain sep words)
    (own : Plain sep (first :: more)) (absent : first ∉ words) :
    (join sep words).dropInfix? (token sep (first :: more)) = none := by
  rw [Option.eq_none_iff_forall_ne_some]
  rintro ⟨a, b⟩ found
  obtain ⟨⟨run, same, equal⟩, -⟩ := List.dropInfix?_eq_some_iff.mp found
  obtain rfl := eq_of_beq equal
  rw [(token_iff plain own).mp same] at absent
  simp at absent

theorem dropInfix?_behind {word a b : List α} (plain : Plain sep (before ++ word :: after))
    (own : Plain sep (first :: more)) (left : before ≠ []) (fresh : first ∉ before) (other : first ≠ word)
    (found : (join sep (before ++ word :: after)).dropInfix? (token sep (first :: more)) = some (a, b)) :
    (join sep before).length < a.length := by
  obtain ⟨⟨run, same, equal⟩, -⟩ := List.dropInfix?_eq_some_iff.mp found
  obtain rfl := eq_of_beq equal
  have split := (token_iff plain own).mp same
  have starts : before ++ [word] <+: a.splitOn sep := by
    have aside : first ∉ before ++ [word] := by simp [fresh, other]
    rw [List.append_cons, List.append_assoc (List.splitOn sep a)] at split
    exact before_prefix aside split
  have shorter := @length_join_le _ sep _ _ starts
  rw [join_splitOn, join_append left (by simp), List.length_append] at shorter
  simp only [List.length_cons] at shorter
  omega

end Finding

end Firefly.Words
