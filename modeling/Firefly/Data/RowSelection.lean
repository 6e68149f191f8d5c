import Firefly.Data.Specification
import Firefly.Data.Rendering
import Firefly.Shared.Patterns

set_option autoImplicit false

namespace Firefly.Data

open Json (Value)
open Formulas SqlText Patterns

theorem likeMatchChars_iff {pattern text : List Char} :
    likeMatchChars pattern text = true ↔ Like.Plain pattern text := by
  constructor
  · intro found
    induction pattern generalizing text with
    | nil =>
      obtain rfl : text = [] := by simpa [likeMatchChars] using found
      exact .nil
    | cons c pattern ih =>
      rw [likeMatchChars.eq_def] at found
      simp only at found
      split at found
      · rename_i percent
        obtain ⟨after, inside, here⟩ := List.any_eq_true.mp found
        obtain ⟨skipped, rfl⟩ := (List.mem_tails _ _).mp inside
        exact percent ▸ .run skipped (fun _ _ => trivial) (ih here)
      · rename_i percent
        cases text with
        | nil => simp at found
        | cons first text =>
          obtain ⟨stands, here⟩ := Bool.and_eq_true_iff.mp found
          by_cases underscore : c = '_'
          · exact underscore ▸ .one trivial (ih here)
          · have same : first = c := by simpa [underscore] using stands
            exact .char ⟨percent, underscore⟩ same.symm (ih here)
  · intro like
    induction like with
    | nil => rfl
    | run skipped may rest ih =>
      rw [likeMatchChars.eq_def]
      simp only [if_pos]
      exact List.any_eq_true.mpr ⟨_, (List.mem_tails _ _).mpr (List.suffix_append _ _), ih⟩
    | one may rest ih => simpa [likeMatchChars] using ih
    | char plain stands rest ih => simp [likeMatchChars, ← stands, plain.1, ih]

instance (pattern text : List Char) : Decidable (Like.Plain pattern text) :=
  decidable_of_iff _ likeMatchChars_iff

/-- What the standard leaves to the database: its lower case, and its answer to operands of different
types. -/
structure Sql where
  lower : String → String
  mixed : Operator → Value → Value → Truth

namespace Sql

variable (sql : Sql)

def compare (c : Comparison) : Value → Value → Truth
  | .null, _ | _, .null => none
  | .bool a, .bool b => some (c.holds (Ord.compare a b))
  | .number (.int m), .number (.int n) => some (c.holds (Ord.compare m n))
  | .string s, .string t => some (c.holds (Ord.compare s t))
  | a, b => sql.mixed (.compare c) a b

def like (operator : Operator) (lower : String → String) : Value → Value → Truth
  | .null, _ | _, .null => none
  | .string text, .string pattern =>
    some (decide (Like.Plain (lower pattern).toList (lower text).toList))
  | a, b => sql.mixed operator a b

def anyOf (actual : Value) : Value → Truth
  | .array items => Truth.anyOf (items.map (sql.compare .eq actual))
  | .null => none
  | value => sql.mixed .any actual value

def holds (row : Value) (t : Test Value) : Truth :=
  let actual := row.field (String.ofList t.column)
  match t.operator, t.values with
  | .compare c, [value] => sql.compare c actual value
  | .like, [value] => sql.like .like id actual value
  | .iLike, [value] => sql.like .iLike sql.lower actual value
  | .lowerLike, [value] => sql.like .lowerLike sql.lower actual value
  | .any, [value] => sql.anyOf actual value
  | .isIn, values => Truth.anyOf (values.map (sql.compare .eq actual))
  | .isNull, [] => some (actual = .null)
  | _, _ => none

def selects (row : Value) (fragment : String × List Value) : Bool :=
  if fragment.1 = "" then true
  else match expression (Dialect.lexicon .postgres) fragment.1 fragment.2 with
    | some tree => tree.truth (sql.holds row) = some true
    | none => false

end Sql

def OneType : Value → Value → Prop
  | .null, _ | _, .null | .bool _, .bool _ | .number (.int _), .number (.int _)
  | .string _, .string _ => True
  | _, _ => False

def Textual : Value → Prop
  | .null | .string _ => True
  | _ => False

def Typed (sql : Sql) (lower : String → String) (row : Value) (p : Predicate) : Prop :=
  let actual := row.field p.field
  match p.op with
  | .eq | .ne | .lt | .lte | .gt | .gte => OneType actual p.value
  | .like => Textual actual ∧ Textual p.value
  | .iLike => Textual actual ∧ Textual p.value ∧
    ∀ s, actual = .string s ∨ p.value = .string s → lower s = sql.lower s
  | .isIn =>
    match p.value with
    | .array items => ∀ item ∈ items, OneType actual item
    | value => value = .null
  | .isNil => True

def Ordered (c : Comparison) (sign : Bool) : Value → Value → Prop
  | .number (.int m), .number (.int n) =>
    Double.rounded m = Double.rounded n → c.holds (compare m n) = c.holds .eq
  | .bool a, .bool b => c.holds (compare a b) = false
  | .string _, .string _ => True
  | _, _ => sign = true

/-- No missing value tells the two logics apart at the sign. -/
def Clear (row : Value) (sign : Bool) (p : Predicate) : Prop :=
  let actual := row.field p.field
  let missing := actual = .null ∨ p.value = .null
  match p.op with
  | .eq => missing → sign = decide (actual ≠ p.value)
  | .ne => missing → sign = decide (actual = p.value)
  | .lt => Ordered .lt sign actual p.value
  | .lte => Ordered .le sign actual p.value
  | .gt => Ordered .gt sign actual p.value
  | .gte => Ordered .ge sign actual p.value
  | .like | .iLike => missing → sign = true
  | .isIn =>
    match p.value with
    | .array items =>
      if actual = .null then items ≠ [] → sign = decide (.null ∉ items)
      else .null ∈ items → sign = true ∨ actual ∈ items
    | _ => sign = true
  | .isNil => True

def Alike (sql : Sql) (lower : String → String) (row : Value) (sign : Bool) (p : Predicate) : Prop :=
  Truth.Agrees sign (evalPredicate lower p row) (sql.holds row (Dialect.test .postgres p))

section Operands

variable {sql : Sql} {a b : Value} {sign : Bool}

theorem compare_missing {c : Comparison} (missing : a = .null ∨ b = .null) :
    sql.compare c a b = none := by
  rcases missing with rfl | rfl
  · rfl
  · cases a <;> rfl

theorem holds_compare {α : Type} [Ord α] [Std.LawfulEqOrd α] [DecidableEq α] (x y : α) :
    Comparison.eq.holds (compare x y) = decide (x = y) ∧
      Comparison.ne.holds (compare x y) = decide (x ≠ y) := by
  by_cases same : x = y
  · simp [same, Comparison.holds, Ordering.isNe]
  · have differ : compare x y ≠ .eq := fun equal => same (Std.compare_eq_iff_eq.mp equal)
    cases order : compare x y with
    | eq => exact absurd order differ
    | lt | gt => simp [same, Comparison.holds, Ordering.isNe]

theorem compare_eq (one : OneType a b) (left : a ≠ .null) (right : b ≠ .null) :
    sql.compare .eq a b = some (decide (a = b)) ∧ sql.compare .ne a b = some (decide (a ≠ b)) := by
  unfold OneType at one
  split at one
  next => exact absurd rfl left
  next => exact absurd rfl right
  next => simp [Sql.compare, holds_compare]
  next => simp [Sql.compare, holds_compare]
  next => simp [Sql.compare, holds_compare]
  next => cases one

theorem alike_eq (one : OneType a b) :
    Truth.Agrees sign (decide (a = b)) (sql.compare .eq a b) ↔
      (a = .null ∨ b = .null → sign = decide (a ≠ b)) := by
  by_cases missing : a = .null ∨ b = .null
  · rw [compare_missing missing, Truth.agrees_none]
    simp [missing]
  · rw [not_or] at missing
    rw [(compare_eq one missing.1 missing.2).1, Truth.agrees_some]
    simp [missing]

theorem alike_ne (one : OneType a b) :
    Truth.Agrees sign (decide (a ≠ b)) (sql.compare .ne a b) ↔
      (a = .null ∨ b = .null → sign = decide (a = b)) := by
  by_cases missing : a = .null ∨ b = .null
  · rw [compare_missing missing, Truth.agrees_none]
    simp [missing]
  · rw [not_or] at missing
    rw [(compare_eq one missing.1 missing.2).2, Truth.agrees_some]
    simp [missing]

theorem alike_ordered {c : Comparison} (one : OneType a b) :
    Truth.Agrees sign (((jsonCmp a b).map c.holds).getD false) (sql.compare c a b) ↔
      Ordered c sign a b := by
  match a, b with
  | .null, b => cases b <;> exact Truth.agrees_none
  | .bool _, .null | .number (.int _), .null | .number (.float _), .null | .string _, .null
  | .array _, .null | .object _, .null => exact Truth.agrees_none
  | .bool x, .bool y => exact Truth.agrees_some.trans eq_comm
  | .string s, .string t => exact iff_of_true (Truth.agrees_some.mpr rfl) trivial
  | .number (.int m), .number (.int n) =>
    apply Truth.agrees_some.trans
    simp only [Ordered, jsonCmp, Option.map_some, Option.getD_some]
    by_cases same : Double.rounded m = Double.rounded n
    · simp [same, Json.Number.asF64, eq_comm, Std.compare_self]
    · have order := (jsonOrder_int m n).mpr fun _ => same
      simp only [same, false_imp_iff, iff_true]
      exact congrArg c.holds order

theorem compare_eq_true (one : OneType a b) :
    sql.compare .eq a b = some true ↔ a ≠ .null ∧ a = b := by
  by_cases missing : a = .null ∨ b = .null
  · rw [compare_missing missing]
    grind
  · rw [not_or] at missing
    simp [compare_eq one missing.1 missing.2, missing]

theorem compare_eq_false (one : OneType a b) :
    sql.compare .eq a b = some false ↔ a ≠ .null ∧ b ≠ .null ∧ a ≠ b := by
  by_cases missing : a = .null ∨ b = .null
  · rw [compare_missing missing]
    grind
  · rw [not_or] at missing
    simp [compare_eq one missing.1 missing.2, missing]

theorem alike_in {items : List Value} (one : ∀ item ∈ items, OneType a item) :
    Truth.Agrees sign (items.contains a) (sql.anyOf a (.array items)) ↔
      if a = .null then items ≠ [] → sign = decide (.null ∉ items)
      else .null ∈ items → sign = true ∨ a ∈ items := by
  have found : sql.anyOf a (.array items) = some true ↔ a ≠ .null ∧ a ∈ items := by
    rw [Sql.anyOf, Truth.anyOf_eq_true, List.mem_map]
    constructor
    · rintro ⟨item, inside, equal⟩
      obtain ⟨present, rfl⟩ := (compare_eq_true (one item inside)).mp equal
      exact ⟨present, inside⟩
    · rintro ⟨present, inside⟩
      exact ⟨a, inside, (compare_eq_true (one a inside)).mpr ⟨present, rfl⟩⟩
  have excluded : sql.anyOf a (.array items) = some false ↔
      ∀ item ∈ items, a ≠ .null ∧ item ≠ .null ∧ a ≠ item := by
    rw [Sql.anyOf, Truth.anyOf_eq_false, List.forall_mem_map]
    exact forall₂_congr fun item inside => compare_eq_false (one item inside)
  cases sign with
  | true =>
    rw [Truth.Agrees, found, List.contains_iff_mem]
    split
    · rename_i missing
      cases items <;> simp [missing]
    · simp [*]
  | false =>
    rw [Truth.Agrees, excluded, ← Bool.not_eq_true, List.contains_iff_mem]
    split
    · have none : (∀ item ∈ items, False) ↔ items = [] := by
        rw [List.eq_nil_iff_forall_not_mem]
      rename_i missing
      simp only [missing, ne_eq, not_true_eq_false, false_and, none]
      by_cases empty : items = [] <;> simp [empty]
    · rename_i present
      constructor
      · intro same null
        by_contra absent
        simp only [not_or] at absent
        exact ((same.mp absent.2) _ null).2.1 rfl
      · intro null
        grind

theorem alike_like {operator : Operator} {lower lower' : String → String} {caseInsensitive : Bool}
    (textual : Textual a ∧ Textual b)
    (same : ∀ s, a = .string s ∨ b = .string s →
      (if caseInsensitive then lower s else s) = lower' s) :
    Truth.Agrees sign (likeMatch lower a b caseInsensitive) (sql.like operator lower' a b) ↔
      (a = .null ∨ b = .null → sign = true) := by
  match a, b with
  | .null, b => cases b <;> simp [likeMatch, Sql.like, Truth.agrees_none]
  | .string s, .null => simp [likeMatch, Sql.like, Truth.agrees_none]
  | .string text, .string pattern =>
    have left := same text (.inl rfl)
    have right := same pattern (.inr rfl)
    refine iff_of_true (Truth.agrees_some.mpr ?_) (by simp)
    rw [Bool.eq_iff_iff, decide_eq_true_eq, ← likeMatchChars_iff, ← left, ← right, likeMatch]
    cases caseInsensitive <;> rfl

end Operands

theorem alike_iff {sql : Sql} {lower : String → String} {row : Value} {sign : Bool} {p : Predicate}
    (typed : Typed sql lower row p) : Alike sql lower row sign p ↔ Clear row sign p := by
  obtain ⟨field, op, value⟩ := p
  have column : String.ofList field.toList = field := String.ofList_toList
  rw [Alike, evalPredicate, Sql.holds, Dialect.test]
  simp only [column]
  cases op with
  | eq => exact alike_eq typed
  | ne => exact alike_ne typed
  | lt => exact alike_ordered (c := .lt) typed
  | lte => exact alike_ordered (c := .le) typed
  | gt => exact alike_ordered (c := .gt) typed
  | gte => exact alike_ordered (c := .ge) typed
  | like => exact alike_like typed fun s _ => rfl
  | iLike => exact alike_like ⟨typed.1, typed.2.1⟩ typed.2.2
  | isIn =>
    cases value with
    | array items => exact alike_in typed
    | null => exact Truth.agrees_none
    | _ => cases typed
  | isNil => exact iff_of_true (Truth.agrees_some.mpr rfl) trivial

namespace Specification

section Reduction

variable {lower : String → String} {row : Value}

structure Reduces (lower : String → String) (row : Value) (spec : Specification)
    (formula : Formula Predicate) : Prop where
  reduced : spec.reduce = some formula
  value : formula.eval (fun p => evalPredicate lower p row) = spec.eval lower row
  signs : ∀ sign, formula.signed sign = spec.signed sign

theorem parts_reduce {children : List Specification}
    (each : ∀ child ∈ children, ∃ formula, Reduces lower row child formula) :
    ∃ parts : List (Formula Predicate), reduceParts children = parts ∧
      parts.length = children.length ∧
      Formula.evalAll (fun p => evalPredicate lower p row) parts = evalAll lower children row ∧
      Formula.evalAny (fun p => evalPredicate lower p row) parts = evalAny lower children row ∧
      ∀ sign, Formula.signedOf sign parts = signedOf sign children := by
  induction children with
  | nil => exact ⟨[], rfl, rfl, rfl, rfl, fun _ => rfl⟩
  | cons child children ih =>
    obtain ⟨formula, here⟩ := each child (by simp)
    obtain ⟨parts, same, length, all, any, signs⟩ := ih fun other inside => each other (by simp [inside])
    refine ⟨formula :: parts, ?_, by simp [length], ?_, ?_, fun sign => ?_⟩
    · rw [reduceParts, here.reduced, same]
    · rw [Formula.evalAll, here.value, all, evalAll]
    · rw [Formula.evalAny, here.value, any, evalAny]
    · rw [Formula.signedOf, here.signs, signs, signedOf]

theorem Solid.reduces {spec : Specification} (solid : Solid spec) :
    ∃ formula, Reduces lower row spec formula := by
  induction solid with
  | pred p => exact ⟨.test p, rfl, rfl, fun _ => rfl⟩
  | and some solid each =>
    obtain ⟨parts, same, length, all, -, signs⟩ := parts_reduce each
    rcases parts with _ | ⟨part, _ | ⟨second, rest⟩⟩
    · exact absurd (List.eq_nil_of_length_eq_zero length.symm) some
    · refine ⟨part, by rw [reduce, same, collapse], ?_, fun sign => ?_⟩
      · rw [eval, ← all, Formula.evalAll, Formula.evalAll, Bool.and_true]
      · rw [signed, ← signs, Formula.signedOf, Formula.signedOf, List.append_nil]
    · refine ⟨.all (part :: second :: rest), by rw [reduce, same]; rfl, ?_, fun sign => ?_⟩
      · rw [eval, ← all, Formula.eval]
      · rw [signed, ← signs, Formula.signed]
  | or some solid each =>
    obtain ⟨parts, same, length, -, any, signs⟩ := parts_reduce each
    rcases parts with _ | ⟨part, _ | ⟨second, rest⟩⟩
    · exact absurd (List.eq_nil_of_length_eq_zero length.symm) some
    · refine ⟨part, by rw [reduce, same, collapse], ?_, fun sign => ?_⟩
      · rw [eval, ← any, Formula.evalAny, Formula.evalAny, Bool.or_false]
      · rw [signed, ← signs, Formula.signedOf, Formula.signedOf, List.append_nil]
    · refine ⟨.any (part :: second :: rest), by rw [reduce, same]; rfl, ?_, fun sign => ?_⟩
      · rw [eval, ← any, Formula.eval]
      · rw [signed, ← signs, Formula.signed]
  | not solid ih =>
    obtain ⟨formula, reduced, value, signs⟩ := ih
    refine ⟨.not formula, by rw [reduce, reduced]; rfl, ?_, fun sign => ?_⟩
    · rw [Formula.eval, value, eval]
    · rw [Formula.signed, signs, signed]

end Reduction

end Specification

section Rows

variable (sql : Sql) (lower : String → String) (fields : Json.Fields)

def SameRow (spec : Specification) : Prop :=
  spec.matches lower (some (.object fields)) =
    sql.selects (.object fields) (spec.toSqlWith .postgres)

variable {sql lower fields}

theorem selects_eq {spec : Specification} {tree : Formula Predicate}
    (reduced : spec.reduce = some tree) {row : Value} :
    sql.selects row (spec.toSqlWith .postgres) =
      decide (tree.truth (fun p => sql.holds row (Dialect.test .postgres p)) = some true) := by
  obtain ⟨nonempty, parsed⟩ := @expression_rendered .postgres spec tree reduced
  have read := @parse_tree .postgres spec tree reduced fun p _ empty => by cases empty.1
  rw [Sql.selects, if_neg nonempty, parsed, read]
  simp only [Formula.truth_map]
  rfl

theorem sameRow_iff {spec : Specification} {tree : Formula Predicate}
    (reduces : spec.Reduces lower (.object fields) tree) :
    SameRow sql lower fields spec ↔
      Truth.Agrees true (tree.eval fun p => evalPredicate lower p (.object fields))
        (tree.truth fun p => sql.holds (.object fields) (Dialect.test .postgres p)) := by
  rw [SameRow, selects_eq reduces.reduced, Specification.matches, ← reduces.value, Truth.Agrees,
    Bool.eq_iff_iff, decide_eq_true_eq]

theorem same_rows (sql : Sql) (lower : String → String) (fields : Json.Fields) :
    (∀ spec : Specification, spec.Built →
      (∀ leaf ∈ spec.signed true, Typed sql lower (.object fields) leaf.2 ∧
        Clear (.object fields) leaf.1 leaf.2) →
      SameRow sql lower fields spec) ∧
    ∀ p : Predicate, Typed sql lower (.object fields) p →
      (SameRow sql lower fields (.pred p) ↔ Clear (.object fields) true p) ∧
      (SameRow sql lower fields (Specification.pred p).notSpec ↔ Clear (.object fields) false p) := by
  constructor
  · intro spec built clear
    obtain ⟨tree, reduces⟩ := @built.solid.reduces lower (.object fields)
    refine (sameRow_iff reduces).mpr (Formula.eval_agrees fun leaf member => ?_)
    rw [reduces.signs] at member
    obtain ⟨typed, here⟩ := clear leaf member
    exact (alike_iff typed).mpr here
  · intro p typed
    refine ⟨?_, ?_⟩
    · have same : SameRow sql lower fields (.pred p) ↔ Alike sql lower (.object fields) true p :=
        @sameRow_iff sql lower fields (.pred p) (.test p) ⟨rfl, rfl, fun _ => rfl⟩
      exact same.trans (alike_iff typed)
    · have same : SameRow sql lower fields (.not (.pred p)) ↔ _ :=
        @sameRow_iff sql lower fields (.not (.pred p)) (.not (.test p)) ⟨rfl, rfl, fun _ => rfl⟩
      exact same.trans (Truth.agrees_not.trans (alike_iff typed))

end Rows

-- A database whose lower case is that of ASCII, and for which operands of different types compare
-- as unknown.
def ascii : Sql where
  lower text := String.ofList (text.toList.map Char.toLower)
  mixed _ _ _ := none

def ann : Json.Fields := [("age", .int 30), ("name", .string "Ann"), ("team", .null)]

def adults : Specification :=
  ((Specification.pred ⟨"age", .gte, .int 18⟩).andSpec (.pred ⟨"name", .like, .string "A%"⟩)).andSpec
    (Specification.pred ⟨"name", .eq, .string "Bob"⟩).notSpec

theorem adults_selected : SameRow ascii ascii.lower ann adults := by
  have built : adults.Built := .and (.and (.pred _) (.pred _)) (.not (.pred _))
  refine (same_rows ascii ascii.lower ann).1 adults built ?_
  have leaves : adults.signed true = [(true, ⟨"age", .gte, .int 18⟩), (true, ⟨"name", .like, .string "A%"⟩),
      (false, ⟨"name", .eq, .string "Bob"⟩)] := rfl
  have name : Value.field (.object ann) "name" = .string "Ann" := rfl
  rw [leaves]
  refine List.forall_mem_cons.mpr ⟨⟨trivial, fun _ => by decide⟩, List.forall_mem_cons.mpr ⟨?_, ?_⟩⟩
  · refine ⟨⟨trivial, trivial⟩, fun missing => ?_⟩
    simp [name] at missing
  · refine List.forall_mem_singleton.mpr ⟨trivial, fun missing => ?_⟩
    simp [name] at missing

theorem null_status_dropped :
    ¬SameRow ascii ascii.lower [("status", .null)] (.pred ⟨"status", .ne, .string "done"⟩) := by
  rw [SameRow]
  decide

end Firefly.Data
