import Mathlib.Data.List.Basic
import Mathlib.Logic.Relation

set_option autoImplicit false

namespace Firefly.Expansion

structure Template (χ ι κ : Type) where
  pieces : List χ → List (χ ⊕ ι)
  spell : ι → List χ
  spelled : ∀ text, (pieces text).flatMap (Sum.elim (fun c => [c]) spell) = text
  marked : List χ → Bool
  unmarked : ∀ text hole, marked text = false → .inr hole ∉ pieces text
  given : ι → Option (List χ)
  key : ι → κ
  fallback : ι → Option (List χ)

namespace Template

variable {χ ι κ : Type}

section Meaning

variable (template : Template χ ι κ) (held : κ → List χ → Prop)

inductive WrittenOut : List (χ ⊕ ι) → List χ → Prop
  | nil : WrittenOut [] []
  | char {c : χ} {rest : List (χ ⊕ ι)} {text : List χ} :
      WrittenOut rest text → WrittenOut (.inl c :: rest) (c :: text)
  | given {hole : ι} {value text : List χ} {rest : List (χ ⊕ ι)} :
      template.given hole = some value → WrittenOut rest text →
        WrittenOut (.inr hole :: rest) (value ++ text)
  | reference {hole : ι} {value word text : List χ} {rest : List (χ ⊕ ι)} :
      template.given hole = none → held (template.key hole) value →
        WrittenOut (template.pieces value) word → WrittenOut rest text →
          WrittenOut (.inr hole :: rest) (word ++ text)
  | fallback {hole : ι} {value text : List χ} {rest : List (χ ⊕ ι)} :
      template.given hole = none → (∀ other, ¬ held (template.key hole) other) →
        template.fallback hole = some value → WrittenOut rest text →
          WrittenOut (.inr hole :: rest) (value ++ text)

/-- The held texts are put in as they stand. -/
inductive Replaced : List (χ ⊕ ι) → List χ → Prop
  | nil : Replaced [] []
  | char {c : χ} {rest : List (χ ⊕ ι)} {text : List χ} :
      Replaced rest text → Replaced (.inl c :: rest) (c :: text)
  | given {hole : ι} {value text : List χ} {rest : List (χ ⊕ ι)} :
      template.given hole = some value → Replaced rest text →
        Replaced (.inr hole :: rest) (value ++ text)
  | reference {hole : ι} {value text : List χ} {rest : List (χ ⊕ ι)} :
      template.given hole = none → held (template.key hole) value → Replaced rest text →
        Replaced (.inr hole :: rest) (value ++ text)
  | fallback {hole : ι} {value text : List χ} {rest : List (χ ⊕ ι)} :
      template.given hole = none → (∀ other, ¬ held (template.key hole) other) →
        template.fallback hole = some value → Replaced rest text →
          Replaced (.inr hole :: rest) (value ++ text)

def Refers (text value : List χ) : Prop :=
  ∃ hole, .inr hole ∈ template.pieces text ∧ template.given hole = none ∧
    held (template.key hole) value ∧ template.marked value = true

def Missing (text : List χ) : Prop :=
  ∃ hole, .inr hole ∈ template.pieces text ∧ template.given hole = none ∧
    (∀ value, ¬ held (template.key hole) value) ∧ template.fallback hole = none

def Contributes (pieces : List (χ ⊕ ι)) (c : χ) : Prop :=
  .inl c ∈ pieces ∨ ∃ hole value, .inr hole ∈ pieces ∧
    (template.given hole = some value ∨ template.fallback hole = some value) ∧ c ∈ value

inductive Chain : Nat → List χ → Prop
  | here (text : List χ) : Chain 0 text
  | on {n : Nat} {text value : List χ} :
      template.Refers held text value → Chain n value → Chain (n + 1) text

def Endless (depth : Nat) (text : List χ) : Prop :=
  template.Chain held depth text ∨
    ∃ other, Relation.ReflTransGen (template.Refers held) text other ∧ template.Missing held other

end Meaning

variable {template : Template χ ι κ} {held : κ → List χ → Prop}

def Functional (held : κ → List χ → Prop) : Prop :=
  ∀ key first second, held key first → held key second → first = second

theorem pieces_unmarked {text : List χ} (unmarked : template.marked text = false) :
    template.pieces text = text.map .inl := by
  have none_there := fun hole => template.unmarked text hole unmarked
  have spelled := template.spelled text
  generalize template.pieces text = pieces at none_there spelled ⊢
  clear unmarked
  subst spelled
  induction pieces with
  | nil => rfl
  | cons piece pieces ih =>
    cases piece with
    | inl c =>
      have rest := ih fun hole among => none_there hole (List.mem_cons_of_mem _ among)
      simpa using rest
    | inr hole => exact absurd List.mem_cons_self (none_there hole)

theorem writtenOut_char_iff {c : χ} {rest : List (χ ⊕ ι)} {text : List χ} :
    template.WrittenOut held (.inl c :: rest) text ↔
      ∃ tail, text = c :: tail ∧ template.WrittenOut held rest tail := by
  constructor
  · intro written
    cases written with
    | char later => exact ⟨_, rfl, later⟩
  · rintro ⟨tail, rfl, later⟩
    exact .char later

def Fills (template : Template χ ι κ) (held : κ → List χ → Prop) (hole : ι) (word : List χ) : Prop :=
  template.given hole = some word ∨
    template.given hole = none ∧
      ((∃ value, held (template.key hole) value ∧
          template.WrittenOut held (template.pieces value) word) ∨
        (∀ value, ¬ held (template.key hole) value) ∧ template.fallback hole = some word)

theorem writtenOut_hole_iff {hole : ι} {rest : List (χ ⊕ ι)} {text : List χ} :
    template.WrittenOut held (.inr hole :: rest) text ↔
      ∃ word tail, text = word ++ tail ∧ template.Fills held hole word ∧
        template.WrittenOut held rest tail := by
  constructor
  · intro written
    cases written with
    | given there later => exact ⟨_, _, rfl, .inl there, later⟩
    | reference none_given holds word later =>
      exact ⟨_, _, rfl, .inr ⟨none_given, .inl ⟨_, holds, word⟩⟩, later⟩
    | fallback none_given none_held falls later =>
      exact ⟨_, _, rfl, .inr ⟨none_given, .inr ⟨none_held, falls⟩⟩, later⟩
  · rintro ⟨word, tail, rfl, there | ⟨none_given, ⟨value, holds, written⟩ | ⟨none_held, falls⟩⟩, later⟩
    · exact .given there later
    · exact .reference none_given holds written later
    · exact .fallback none_given none_held falls later

theorem writtenOut_chars (text : List χ) : template.WrittenOut held (text.map .inl) text := by
  induction text with
  | nil => exact .nil
  | cons c text ih => exact .char ih

theorem WrittenOut.unique (functional : Functional held) {pieces : List (χ ⊕ ι)}
    {first second : List χ} (one : template.WrittenOut held pieces first)
    (other : template.WrittenOut held pieces second) : first = second := by
  induction one generalizing second with
  | nil =>
    cases other
    rfl
  | char _ ih =>
    cases other with
    | char rest => rw [ih rest]
  | given there _ ih =>
    cases other with
    | given there' rest =>
      rw [Option.some.inj (there.symm.trans there'), ih rest]
    | reference none_given => simp [there] at none_given
    | fallback none_given => simp [there] at none_given
  | reference none_given holds _ _ ihWord ih =>
    cases other with
    | given there => simp [there] at none_given
    | reference _ holds' word rest =>
      obtain rfl := functional _ _ _ holds holds'
      rw [ihWord word, ih rest]
    | fallback _ none_held => exact absurd holds (none_held _)
  | fallback none_given none_held falls _ ih =>
    cases other with
    | given there => simp [there] at none_given
    | reference _ holds => exact absurd holds (none_held _)
    | fallback _ _ falls' rest =>
      rw [Option.some.inj (falls.symm.trans falls'), ih rest]

theorem writtenOut_unmarked {text word : List χ} (functional : Functional held)
    (unmarked : template.marked text = false) :
    template.WrittenOut held (template.pieces text) word ↔ word = text := by
  rw [pieces_unmarked unmarked]
  constructor
  · exact fun written => written.unique functional (writtenOut_chars text)
  · rintro rfl
    exact writtenOut_chars word

theorem not_chain_succ_iff {text : List χ} {n : Nat} :
    ¬ template.Chain held (n + 1) text ↔
      ∀ value, template.Refers held text value → ¬ template.Chain held n value := by
  constructor
  · exact fun short value refers chain => short (.on refers chain)
  · intro short chain
    cases chain with
    | on refers later => exact short _ refers later

theorem chain_unmarked {text : List χ} {n : Nat} (unmarked : template.marked text = false) :
    ¬ template.Chain held (n + 1) text := by
  rw [not_chain_succ_iff]
  rintro value ⟨hole, among, -⟩
  exact absurd among (template.unmarked text hole unmarked)

theorem WrittenOut.filled (functional : Functional held) {pieces : List (χ ⊕ ι)} {text : List χ}
    (written : template.WrittenOut held pieces text) {hole : ι} (among : .inr hole ∈ pieces)
    (none_given : template.given hole = none) :
    (∀ value, held (template.key hole) value →
        ∃ word, template.WrittenOut held (template.pieces value) word) ∧
      ((∀ value, ¬ held (template.key hole) value) → template.fallback hole ≠ none) := by
  induction written with
  | nil => cases among
  | char _ ih => exact ih (by simpa using among)
  | given there _ ih =>
    rcases List.mem_cons.mp among with same | later
    · cases same
      simp [there] at none_given
    · exact ih later
  | reference _ holds word _ _ ih =>
    rcases List.mem_cons.mp among with same | later
    · cases same
      refine ⟨fun value holds' => ?_, fun none_held => absurd holds (none_held _)⟩
      obtain rfl := functional _ _ _ holds holds'
      exact ⟨_, word⟩
    · exact ih later
  | fallback _ none_held falls _ ih =>
    rcases List.mem_cons.mp among with same | later
    · cases same
      exact ⟨fun value holds => absurd holds (none_held value), fun _ => by simp [falls]⟩
    · exact ih later

theorem Contributes.tail {piece : χ ⊕ ι} {pieces : List (χ ⊕ ι)} {c : χ}
    (contributes : template.Contributes pieces c) : template.Contributes (piece :: pieces) c := by
  rcases contributes with literal | ⟨hole, value, among, fills, within⟩
  · exact .inl (.tail _ literal)
  · exact .inr ⟨hole, value, .tail _ among, fills, within⟩

theorem WrittenOut.contributed {pieces : List (χ ⊕ ι)} {text : List χ}
    (written : template.WrittenOut held pieces text) {c : χ} (among : c ∈ text) :
    template.Contributes pieces c ∨
      ∃ key value, held key value ∧ template.Contributes (template.pieces value) c := by
  induction written with
  | nil => cases among
  | char _ ih =>
    rcases List.mem_cons.mp among with rfl | later
    · exact .inl (.inl List.mem_cons_self)
    · exact (ih later).imp_left Contributes.tail
  | given there _ ih =>
    rcases List.mem_append.mp among with here | later
    · exact .inl (.inr ⟨_, _, List.mem_cons_self, .inl there, here⟩)
    · exact (ih later).imp_left Contributes.tail
  | reference _ holds _ _ ih_word ih =>
    rcases List.mem_append.mp among with here | later
    · exact .inr ((ih_word here).elim (fun within => ⟨_, _, holds, within⟩) id)
    · exact (ih later).imp_left Contributes.tail
  | fallback _ _ falls _ ih =>
    rcases List.mem_append.mp among with here | later
    · exact .inl (.inr ⟨_, _, List.mem_cons_self, .inr falls, here⟩)
    · exact (ih later).imp_left Contributes.tail

theorem exists_writtenOut {pieces : List (χ ⊕ ι)}
    (filled : ∀ hole, .inr hole ∈ pieces → template.given hole = none →
      (∀ value, held (template.key hole) value →
        ∃ word, template.WrittenOut held (template.pieces value) word) ∧
      ((∀ value, ¬ held (template.key hole) value) → template.fallback hole ≠ none)) :
    ∃ text, template.WrittenOut held pieces text := by
  induction pieces with
  | nil => exact ⟨[], .nil⟩
  | cons piece pieces ih =>
    obtain ⟨text, rest⟩ := ih fun hole among => filled hole (List.mem_cons_of_mem _ among)
    cases piece with
    | inl c => exact ⟨_, .char rest⟩
    | inr hole =>
      cases there : template.given hole with
      | some value => exact ⟨_, .given there rest⟩
      | none =>
        obtain ⟨references, falls⟩ := filled hole List.mem_cons_self there
        by_cases holds : ∃ value, held (template.key hole) value
        · obtain ⟨value, holds⟩ := holds
          obtain ⟨word, written⟩ := references value holds
          exact ⟨_, .reference there holds written rest⟩
        · have none_held := not_exists.mp holds
          obtain ⟨value, fallback⟩ := Option.ne_none_iff_exists'.mp (falls none_held)
          exact ⟨_, .fallback there none_held fallback rest⟩

theorem not_endless_iff (functional : Functional held) (depth : Nat) (text : List χ) :
    ¬ template.Endless held depth text ↔
      (∃ word, template.WrittenOut held (template.pieces text) word) ∧
        ¬ template.Chain held depth text := by
  constructor
  · intro ends
    refine ⟨?_, fun chain => ends (.inl chain)⟩
    induction depth generalizing text with
    | zero => exact absurd (.inl (.here text)) ends
    | succ depth ih =>
      refine exists_writtenOut fun hole among none_given => ⟨fun value holds => ?_, ?_⟩
      · cases marked : template.marked value with
        | false => exact ⟨value, (writtenOut_unmarked functional marked).mpr rfl⟩
        | true =>
          have refers : template.Refers held text value := ⟨hole, among, none_given, holds, marked⟩
          refine ih value ?_
          rintro (chain | ⟨other, reached, missing⟩)
          · exact ends (.inl (.on refers chain))
          · exact ends (.inr ⟨other, .head refers reached, missing⟩)
      · intro none_held falls
        exact ends (.inr ⟨text, .refl, hole, among, none_given, none_held, falls⟩)
  · rintro ⟨written, short⟩ (chain | ⟨other, reached, missing⟩)
    · exact short chain
    · -- what a written-out text leads to is written out as well
      have there : ∃ word, template.WrittenOut held (template.pieces other) word := by
        clear short missing
        induction reached with
        | refl => exact written
        | tail _ refers ih =>
          obtain ⟨hole, among, none_given, holds, -⟩ := refers
          obtain ⟨word, before⟩ := ih
          exact (before.filled functional among none_given).1 _ holds
      obtain ⟨hole, among, none_given, none_held, falls⟩ := missing
      obtain ⟨word, there⟩ := there
      exact (there.filled functional among none_given).2 none_held falls

theorem WrittenOut.replaced (functional : Functional held)
    (kept : ∀ key text, held key text → template.WrittenOut held (template.pieces text) text)
    {pieces : List (χ ⊕ ι)} {text : List χ} (written : template.WrittenOut held pieces text) :
    template.Replaced held pieces text := by
  induction written with
  | nil => exact .nil
  | char _ ih => exact .char ih
  | given there _ ih => exact .given there ih
  | reference none_given holds word _ _ ih =>
    obtain rfl := word.unique functional (kept _ _ holds)
    exact .reference none_given holds ih
  | fallback none_given none_held falls _ ih => exact .fallback none_given none_held falls ih

theorem Replaced.writtenOut {pieces : List (χ ⊕ ι)} {text : List χ}
    (replaced : template.Replaced held pieces text)
    (kept : ∀ hole value, .inr hole ∈ pieces → template.given hole = none →
      held (template.key hole) value → template.WrittenOut held (template.pieces value) value) :
    template.WrittenOut held pieces text := by
  induction replaced with
  | nil => exact .nil
  | char _ ih => exact .char (ih fun hole value among => kept hole value (.tail _ among))
  | given there _ ih =>
    exact .given there (ih fun hole value among => kept hole value (.tail _ among))
  | reference none_given holds _ ih =>
    exact .reference none_given holds (kept _ _ List.mem_cons_self none_given holds)
      (ih fun hole value among => kept hole value (.tail _ among))
  | fallback none_given none_held falls _ ih =>
    exact .fallback none_given none_held falls
      (ih fun hole value among => kept hole value (.tail _ among))

theorem Replaced.writtenOut_of_short (functional : Functional held)
    (inert : ∀ key text, held key text → template.Replaced held (template.pieces text) text)
    {depth : Nat} {text : List χ} (replaced : template.Replaced held (template.pieces text) text)
    (short : ¬ template.Chain held depth text) :
    template.WrittenOut held (template.pieces text) text := by
  induction depth generalizing text with
  | zero => exact absurd (.here text) short
  | succ depth ih =>
    refine replaced.writtenOut fun hole value among none_given holds => ?_
    cases marked : template.marked value with
    | false => exact (writtenOut_unmarked functional marked).mpr rfl
    | true =>
      refine ih (inert _ _ holds) fun chain => short (.on ?_ chain)
      exact ⟨hole, among, none_given, holds, marked⟩

theorem kept_iff (functional : Functional held) (depth : Nat) :
    (∀ key text, held key text → template.WrittenOut held (template.pieces text) text ∧
        ¬ template.Chain held depth text) ↔
      ∀ key text, held key text → template.Replaced held (template.pieces text) text ∧
        ¬ template.Chain held depth text := by
  constructor
  · intro kept key text holds
    obtain ⟨written, short⟩ := kept key text holds
    exact ⟨written.replaced functional fun key text holds => (kept key text holds).1, short⟩
  · intro inert key text holds
    obtain ⟨replaced, short⟩ := inert key text holds
    exact ⟨replaced.writtenOut_of_short functional
      (fun key text holds => (inert key text holds).1) short, short⟩

theorem inert_of_self {text : List χ}
    (self : ∀ hole, .inr hole ∈ template.pieces text → template.given hole = some (template.spell hole))
    (depth : Nat) :
    template.Replaced held (template.pieces text) text ∧ ¬ template.Chain held (depth + 1) text := by
  constructor
  · have spelled := template.spelled text
    generalize template.pieces text = pieces at self spelled ⊢
    subst spelled
    induction pieces with
    | nil => exact .nil
    | cons piece pieces ih =>
      have rest := ih fun hole among => self hole (List.mem_cons_of_mem _ among)
      cases piece with
      | inl c => exact .char rest
      | inr hole => exact .given (self hole List.mem_cons_self) rest
  · rw [not_chain_succ_iff]
    rintro value ⟨hole, among, none_given, -⟩
    simp [self hole among] at none_given

end Template

end Firefly.Expansion
