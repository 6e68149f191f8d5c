import Firefly.Scheduling.CronFields

set_option autoImplicit false

namespace Firefly.Scheduling

open Decimal Text

inductive Body where
  | all
  | range (a b : Nat)
  | value (v : Nat)
deriving DecidableEq, Repr

inductive BodyText (lo hi : Nat) : List Char → Body → Prop
  | all : BodyText lo hi ['*'] .all
  | range {left right : List Char} {a b : Nat} :
    parseI64 left = some (a : Int) → parseI64 right = some (b : Int) → '-' ∉ left →
      lo ≤ a → a ≤ b → b ≤ hi → BodyText lo hi (left ++ '-' :: right) (.range a b)
  | value {text : List Char} {v : Nat} :
    parseI64 text = some (v : Int) → '-' ∉ text → lo ≤ v → v ≤ hi → BodyText lo hi text (.value v)

inductive PartText (lo hi : Nat) : List Char → Body → Nat → Prop
  | plain {text : List Char} {body : Body} : BodyText lo hi text body → PartText lo hi text body 1
  | stepped {text number : List Char} {body : Body} {step : Nat} :
    BodyText lo hi text body → parseI64 number = some (step : Int) → 0 < step →
      PartText lo hi (text ++ '/' :: number) body step

def Body.values (lo hi step : Nat) : Body → Set Nat
  | .all => {x | x ≤ hi ∧ ∃ k, x = lo + k * step}
  | .range a b => {x | x ≤ b ∧ ∃ k, x = a + k * step}
  | .value v => {v}

structure FieldText (lo hi : Nat) (text : List Char) (xs : List Nat) : Prop where
  parts : ∀ raw ∈ text.splitOn ',', ∃ body step, PartText lo hi raw body step
  members : ∀ x, x ∈ xs ↔ ∃ raw ∈ text.splitOn ',', ∃ body step, PartText lo hi raw body step ∧
    x ∈ body.values lo hi step
  sorted : xs.Pairwise (· < ·)

def Reads (text : List Char) (e : CronExpr) : Prop :=
  match splitWhitespace (text.map fun c => if c = '?' then '*' else c) with
  | [minute, hour, dayOfMonth, month, dayOfWeek] =>
    e.second = [0] ∧ FieldText 0 59 minute e.minute ∧ FieldText 0 23 hour e.hour ∧
      FieldText 1 31 dayOfMonth e.dayOfMonth ∧ FieldText 1 12 month e.month ∧
      FieldText 0 6 dayOfWeek e.dayOfWeek
  | [second, minute, hour, dayOfMonth, month, dayOfWeek] =>
    FieldText 0 59 second e.second ∧ FieldText 0 59 minute e.minute ∧ FieldText 0 23 hour e.hour ∧
      FieldText 1 31 dayOfMonth e.dayOfMonth ∧ FieldText 1 12 month e.month ∧
      FieldText 0 6 dayOfWeek e.dayOfWeek
  | _ => False

theorem numeral_chars {text : List Char} {n : Int} (numeral : parseI64 text = some n) :
    ∀ c ∈ text, c = '-' ∨ c = '+' ∨ c.isDigit := by
  have allDigits : ∀ {chars : List Char} {m : Nat}, parseDigits chars = some m →
      ∀ c ∈ chars, c.isDigit := by
    intro chars m read c member
    rw [parseDigits] at read
    split at read
    · rename_i good
      exact List.all_eq_true.mp good.2 c member
    · cases read
  rw [parseI64.eq_def] at numeral
  intro c member
  split at numeral
  · obtain ⟨m, read, -⟩ := Option.bind_eq_some_iff.mp numeral
    rcases List.mem_cons.mp member with rfl | later
    · exact .inl rfl
    · exact .inr (.inr (allDigits read c later))
  · obtain ⟨m, read, -⟩ := Option.bind_eq_some_iff.mp numeral
    rcases List.mem_cons.mp member with rfl | later
    · exact .inr (.inl rfl)
    · exact .inr (.inr (allDigits read c later))
  · obtain ⟨m, read, -⟩ := Option.bind_eq_some_iff.mp numeral
    exact .inr (.inr (allDigits read c member))

theorem parseI64_digits_self {n : Nat} (small : n < 2 ^ 63) : parseI64 (digits n) = some (n : Int) := by
  have read := @parseI64_digits (digits n) (by simp [digits])
    (fun c member => isDigit_of_mem_digits member) (by simpa using small)
  simpa using read

theorem mem_insertSteps {hi step rounds v x : Nat} {out : Std.TreeSet Nat} (positive : 0 < step)
    (small : hi < 2 ^ 32) (enough : hi < v + rounds) :
    x ∈ insertSteps hi step rounds v out ↔ x ∈ out ∨ x ≤ hi ∧ ∃ k, x = v + k * step := by
  induction rounds generalizing v out with
  | zero =>
    rw [insertSteps]
    refine (or_iff_left ?_).symm
    rintro ⟨below, k, rfl⟩
    omega
  | succ rounds ih =>
    rw [insertSteps]
    split
    · rename_i inside
      have first : x ∈ out.insert v ↔ x = v ∨ x ∈ out := by
        rw [Std.TreeSet.mem_insert, Nat.compare_eq_eq, eq_comm]
      have steps : (x ≤ hi ∧ ∃ k, x = v + k * step) ↔
          x = v ∨ x ≤ hi ∧ ∃ k, x = v + step + k * step := by
        constructor
        · rintro ⟨below, k, rfl⟩
          cases k with
          | zero => exact .inl (by simp)
          | succ k => exact .inr ⟨below, k, by ring⟩
        · rintro (rfl | ⟨below, k, rfl⟩)
          · exact ⟨inside, 0, by simp⟩
          · exact ⟨below, k + 1, by ring⟩
      rw [steps]
      dsimp only
      split
      · rw [ih (by omega), first]
        tauto
      · -- The next value does not fit a `u32`, so it is past the bound.
        rename_i past
        have none_ : ¬ (x ≤ hi ∧ ∃ k, x = v + step + k * step) := by
          rintro ⟨below, k, rfl⟩
          omega
        rw [first]
        tauto
    · rename_i outside
      refine (or_iff_left ?_).symm
      rintro ⟨below, k, rfl⟩
      omega

theorem body_chars {lo hi : Nat} {text : List Char} {body : Body} (reads : BodyText lo hi text body) :
    ∀ c ∈ text, c = '*' ∨ c = '-' ∨ c = '+' ∨ c.isDigit := by
  intro c member
  cases reads with
  | all => exact .inl (List.mem_singleton.mp member)
  | range left right =>
    rcases List.mem_append.mp member with before | after
    · exact .inr (numeral_chars left c before)
    · rcases List.mem_cons.mp after with rfl | after
      · exact .inr (.inl rfl)
      · exact .inr (numeral_chars right c after)
  | value number => exact .inr (numeral_chars number c member)

theorem part_chars {lo hi step : Nat} {text : List Char} {body : Body}
    (reads : PartText lo hi text body step) :
    ∀ c ∈ text, c = '*' ∨ c = '-' ∨ c = '+' ∨ c.isDigit ∨ c = '/' := by
  intro c member
  cases reads with
  | plain reads =>
    have char := body_chars reads c member
    tauto
  | stepped reads number =>
    rcases List.mem_append.mp member with before | after
    · have char := body_chars reads c before
      tauto
    · rcases List.mem_cons.mp after with rfl | after
      · simp
      · have char := numeral_chars number c after
        tauto

theorem no_slash {lo hi : Nat} {text : List Char} {body : Body} (reads : BodyText lo hi text body) :
    '/' ∉ text := by
  intro member
  have char := body_chars reads '/' member
  revert char
  decide

theorem idxOf?_first {before after : List Char} {c : Char} (fresh : c ∉ before) :
    (before ++ c :: after).idxOf? c = some before.length := by
  induction before with
  | nil => simp [List.idxOf?_cons]
  | cons d before ih =>
    have other : d ≠ c := fun same => fresh (by simp [same])
    simp [List.idxOf?_cons, other, ih (fun member => fresh (by simp [member]))]

theorem splitStep_plain {name : String} {raw : List Char} (absent : '/' ∉ raw) :
    splitStep name raw = .ok (raw, 1) := by
  rw [splitStep, List.idxOf?_eq_none_iff.mpr absent]

theorem splitStep_stepped {name : String} {text number : List Char} {step : Nat} (absent : '/' ∉ text)
    (numeral : parseI64 number = some (step : Int)) (positive : 0 < step) :
    splitStep name (text ++ '/' :: number) = .ok (text, min step (2 ^ 32 - 1)) := by
  have after : (text ++ '/' :: number).drop (text.length + 1) = number := by simp
  have clamped : (if (step : Int) < 2 ^ 32 then (step : Int).toNat else 2 ^ 32 - 1) =
      min step (2 ^ 32 - 1) := by
    split <;> omega
  rw [splitStep, idxOf?_first absent]
  dsimp only
  rw [after, numeral]
  dsimp only
  rw [if_neg (by omega), List.take_left, clamped]

theorem splitStep_ok {name : String} {raw text : List Char} {step : Nat}
    (ok : splitStep name raw = .ok (text, step)) :
    raw = text ∧ step = 1 ∨ ∃ number n, raw = text ++ '/' :: number ∧ parseI64 number = some ((n : Nat) : Int) ∧
      0 < n := by
  rw [splitStep] at ok
  split at ok
  · obtain ⟨rfl, rfl⟩ := Prod.mk.inj (Except.ok.inj ok)
    exact .inl ⟨rfl, rfl⟩
  · rename_i i found
    split at ok
    · cases ok
    · rename_i s numeral
      split at ok
      · cases ok
      · rename_i positive
        obtain ⟨rfl, -⟩ := Prod.mk.inj (Except.ok.inj ok)
        refine .inr ⟨raw.drop (i + 1), s.toNat, ?_, ?_, by omega⟩
        · obtain ⟨inside, here, -⟩ := List.findIdx?_eq_some_iff_getElem.mp found
          have slash : raw[i] = '/' := by simpa using here
          rw [← slash, List.getElem_cons_drop, List.take_append_drop]
        · rw [numeral]
          congr 1
          omega

-- The step that is clamped to a `u32` leads to the same values.
theorem clamped_values {hi start step x : Nat} (small : hi < 2 ^ 32 - 1) :
    (x ≤ hi ∧ ∃ k, x = start + k * min step (2 ^ 32 - 1)) ↔ x ≤ hi ∧ ∃ k, x = start + k * step := by
  rcases le_total step (2 ^ 32 - 1) with fits | large
  · rw [min_eq_left fits]
  · rw [min_eq_right large]
    constructor
    · rintro ⟨below, k, rfl⟩
      cases k with
      | zero => exact ⟨below, 0, by simp⟩
      | succ k => omega
    · rintro ⟨below, k, rfl⟩
      cases k with
      | zero => exact ⟨below, 0, by simp⟩
      | succ k =>
        have more : step ≤ (k + 1) * step := Nat.le_mul_of_pos_left _ (by omega)
        omega

theorem parseBody_ok {lo hi step : Nat} {name : String} {raw text : List Char} {body : Body}
    (split : splitStep name raw = .ok (text, min step (2 ^ 32 - 1))) (reads : BodyText lo hi text body)
    (positive : 0 < step) (small : hi < 2 ^ 32 - 1) (out : Std.TreeSet Nat) :
    ∃ out', parsePart lo hi name out raw = .ok out' ∧
      ∀ x, x ∈ out' ↔ x ∈ out ∨ x ∈ body.values lo hi step := by
  rw [parsePart, split]
  dsimp only
  cases reads with
  | all =>
    refine ⟨_, if_pos rfl, fun x => ?_⟩
    rw [mem_insertSteps (by omega) (by omega) (by omega), clamped_values small]
    rfl
  | @range left right a b first second fresh low order high =>
    have others : ∀ c ∈ left, decide (c ≠ '-') = true := by
      intro c member
      exact decide_eq_true fun same => fresh (same ▸ member)
    have before : (left ++ '-' :: right).takeWhile (· ≠ '-') = left := by
      rw [List.takeWhile_append_of_pos others]
      simp
    have after : ((left ++ '-' :: right).dropWhile (· ≠ '-')).drop 1 = right := by
      rw [List.dropWhile_append_of_pos others]
      simp
    have present : '-' ∈ left ++ '-' :: right := by simp
    have notAll : left ++ '-' :: right ≠ ['*'] := by
      intro same
      rw [same] at present
      simp at present
    refine ⟨insertSteps b (min step (2 ^ 32 - 1)) (b + 1) a out, ?_, fun x => ?_⟩
    · rw [if_neg notAll, if_pos present, before, after, first, second]
      dsimp only
      rw [if_neg (by omega), Int.toNat_natCast, Int.toNat_natCast]
    · rw [mem_insertSteps (by omega) (by omega) (by omega), clamped_values (by omega)]
      rfl
  | @value _ v numeral fresh low high =>
    have notAll : text ≠ ['*'] := by
      rintro rfl
      cases numeral
    refine ⟨out.insert v, ?_, fun x => ?_⟩
    · rw [if_neg notAll, if_neg fresh, numeral]
      dsimp only
      rw [if_neg (by omega), Int.toNat_natCast]
    · rw [Std.TreeSet.mem_insert, Nat.compare_eq_eq, eq_comm, or_comm]
      rfl

theorem parsePart_ok {lo hi step : Nat} (name : String) {raw : List Char} {body : Body}
    (reads : PartText lo hi raw body step) (small : hi < 2 ^ 32 - 1) (out : Std.TreeSet Nat) :
    ∃ out', parsePart lo hi name out raw = .ok out' ∧
      ∀ x, x ∈ out' ↔ x ∈ out ∨ x ∈ body.values lo hi step := by
  cases reads with
  | plain reads => exact parseBody_ok (splitStep_plain (no_slash reads)) reads (by decide) small out
  | stepped reads numeral positive =>
    exact parseBody_ok (splitStep_stepped (no_slash reads) numeral positive) reads positive small out

theorem natural {n : Int} (nonneg : 0 ≤ n) : ((n.toNat : Nat) : Int) = n := Int.toNat_of_nonneg nonneg

theorem parsePart_text {lo hi : Nat} {name : String} {raw : List Char} {out out' : Std.TreeSet Nat}
    (ok : parsePart lo hi name out raw = .ok out') : ∃ body step, PartText lo hi raw body step := by
  rw [parsePart] at ok
  split at ok
  · cases ok
  · rename_i text step taken
    have bodied : ∃ body, BodyText lo hi text body := by
      split at ok
      · rename_i star
        exact ⟨.all, star ▸ .all⟩
      · split at ok
        · rename_i dash
          split at ok
          · rename_i a b first second
            split at ok
            · cases ok
            · rename_i bounds
              have whole : text = text.takeWhile (· ≠ '-') ++ '-' :: (text.dropWhile (· ≠ '-')).drop 1 := by
                have later : text.dropWhile (· ≠ '-') ≠ [] := by
                  intro nothing
                  have none_ := List.dropWhile_eq_nil_iff.mp nothing '-' dash
                  simp at none_
                have head := List.head_dropWhile_not (· ≠ '-') later
                calc text = text.takeWhile (· ≠ '-') ++ text.dropWhile (· ≠ '-') :=
                      List.takeWhile_append_dropWhile.symm
                  _ = _ := by
                      congr 1
                      rw [← List.cons_head_tail later, List.drop_one, List.tail_cons]
                      congr 1
                      simpa using head
              refine ⟨.range a.toNat b.toNat, ?_⟩
              rw [whole]
              refine .range (by rwa [natural (by omega)]) (by rwa [natural (by omega)]) ?_ (by omega) (by omega)
                (by omega)
              intro member
              have other := List.mem_takeWhile_imp member
              simp at other
          · cases ok
        · rename_i dash
          split at ok
          · cases ok
          · rename_i v numeral
            split at ok
            · cases ok
            · rename_i bounds
              exact ⟨.value v.toNat, .value (by rwa [natural (by omega)]) dash (by omega) (by omega)⟩
    obtain ⟨body, reads⟩ := bodied
    rcases splitStep_ok taken with ⟨rfl, rfl⟩ | ⟨number, n, rfl, numeral, positive⟩
    · exact ⟨body, 1, .plain reads⟩
    · exact ⟨body, n, .stepped reads numeral positive⟩

theorem reading_unique {lo hi step step' : Nat} {raw : List Char} {body body' : Body}
    (small : hi < 2 ^ 32 - 1)
    (first : PartText lo hi raw body step) (second : PartText lo hi raw body' step') :
    body.values lo hi step = body'.values lo hi step' := by
  obtain ⟨out, ok, members⟩ := parsePart_ok "" first small ∅
  obtain ⟨out', ok', members'⟩ := parsePart_ok "" second small ∅
  obtain rfl := Except.ok.inj (ok.symm.trans ok')
  ext x
  have both := (members x).symm.trans (members' x)
  simpa using both

theorem parseParts_ok {lo hi : Nat} (name : String) {parts : List (List Char)} (small : hi < 2 ^ 32 - 1)
    (each : ∀ raw ∈ parts, ∃ body step, PartText lo hi raw body step) (out : Std.TreeSet Nat) :
    ∃ out', parts.foldlM (parsePart lo hi name) out = .ok out' ∧
      ∀ x, x ∈ out' ↔ x ∈ out ∨ ∃ raw ∈ parts, ∃ body step, PartText lo hi raw body step ∧
        x ∈ body.values lo hi step := by
  induction parts generalizing out with
  | nil => exact ⟨out, rfl, by simp⟩
  | cons raw parts ih =>
    obtain ⟨body, step, reads⟩ := each raw (by simp)
    obtain ⟨middle, here, members⟩ := parsePart_ok name reads small out
    obtain ⟨out', later, rest⟩ := ih (fun raw member => each raw (by simp [member])) middle
    refine ⟨out', ?_, fun x => ?_⟩
    · rw [List.foldlM_cons, here]
      exact later
    · rw [rest, members, or_assoc]
      refine or_congr_right ?_
      constructor
      · rintro (inside | ⟨other, member, found⟩)
        · exact ⟨raw, by simp, body, step, reads, inside⟩
        · exact ⟨other, by simp [member], found⟩
      · rintro ⟨other, member, body', step', reads', inside⟩
        rcases List.mem_cons.mp member with rfl | member
        · exact .inl (reading_unique small reads' reads ▸ inside)
        · exact .inr ⟨other, member, body', step', reads', inside⟩

theorem parseParts_text {lo hi : Nat} {name : String} {parts : List (List Char)}
    {out out' : Std.TreeSet Nat}
    (ok : parts.foldlM (parsePart lo hi name) out = .ok out') :
    ∀ raw ∈ parts, ∃ body step, PartText lo hi raw body step := by
  induction parts generalizing out with
  | nil => simp
  | cons raw parts ih =>
    rw [List.foldlM_cons] at ok
    obtain ⟨middle, here, later⟩ := bind_ok ok
    intro other member
    rcases List.mem_cons.mp member with rfl | member
    · exact parsePart_text here
    · exact ih later other member

theorem sorted_ext {xs ys : List Nat} (left : xs.Pairwise (· < ·)) (right : ys.Pairwise (· < ·))
    (same : ∀ x, x ∈ xs ↔ x ∈ ys) : xs = ys := by
  have perm : xs.Perm ys := (List.perm_ext_iff_of_nodup (left.imp ne_of_lt) (right.imp ne_of_lt)).mpr same
  exact perm.eq_of_pairwise (fun a b _ _ less greater => absurd less greater.asymm) left right

theorem parseField_iff {lo hi : Nat} (name : String) {text : List Char} {xs : List Nat}
    (small : hi < 2 ^ 32 - 1) : parseField text lo hi name = .ok xs ↔ FieldText lo hi text xs := by
  have sorted : ∀ out : Std.TreeSet Nat, out.toList.Pairwise (· < ·) := fun out =>
    Std.TreeSet.ordered_toList.imp fun before => Nat.compare_eq_lt.mp before
  constructor
  · intro ok
    rw [parseField] at ok
    cases parsed : (text.splitOn ',').foldlM (parsePart lo hi name) ∅ with
    | error error => simp [parsed, Except.map] at ok
    | ok out =>
      obtain rfl : out.toList = xs := by simpa [parsed, Except.map] using ok
      have each := parseParts_text parsed
      obtain ⟨out', again, members⟩ := parseParts_ok name small each ∅
      obtain rfl := Except.ok.inj (parsed.symm.trans again)
      exact ⟨each, fun x => by rw [Std.TreeSet.mem_toList, members]; simp, sorted out⟩
  · intro reads
    obtain ⟨out, parsed, members⟩ := parseParts_ok name small reads.parts ∅
    rw [parseField, parsed]
    have same : out.toList = xs := by
      refine sorted_ext (sorted out) reads.sorted fun x => ?_
      rw [Std.TreeSet.mem_toList, members, reads.members]
      simp
    rw [← same]
    rfl

theorem fieldText_of_parts {lo hi : Nat} {text : List Char} (small : hi < 2 ^ 32 - 1)
    (each : ∀ raw ∈ text.splitOn ',', ∃ body step, PartText lo hi raw body step) :
    ∃ xs, FieldText lo hi text xs := by
  obtain ⟨out, parsed, -⟩ := parseParts_ok "" small each ∅
  exact ⟨out.toList, (parseField_iff "" small).mp (by rw [parseField, parsed]; rfl)⟩

theorem parseCron_reads {expr : String} {text : List Char} {e : CronExpr}
    (expanded : expand (trim expr.toList) = .ok text) : parseCron expr = .ok e ↔ Reads text e := by
  rw [parseCron_iff expanded, Reads]
  generalize splitWhitespace (text.map fun c => if c = '?' then '*' else c) = fields
  split
  · rw [parseField_iff _ (by decide), parseField_iff _ (by decide), parseField_iff _ (by decide),
      parseField_iff _ (by decide), parseField_iff _ (by decide)]
  · rw [parseField_iff _ (by decide), parseField_iff _ (by decide), parseField_iff _ (by decide),
      parseField_iff _ (by decide), parseField_iff _ (by decide), parseField_iff _ (by decide)]
  · simp_all

theorem mem_intercalate {sep c : Char} {parts : List (List Char)} (inside : c ∈ [sep].intercalate parts) :
    c = sep ∨ ∃ raw ∈ parts, c ∈ raw := by
  induction parts with
  | nil => simp at inside
  | cons raw parts ih =>
    cases parts with
    | nil => exact .inr ⟨raw, by simp, by simpa using inside⟩
    | cons other parts =>
      rw [List.intercalate_cons_cons] at inside
      simp only [List.mem_append, List.mem_singleton] at inside
      rcases inside with (here | separator) | later
      · exact .inr ⟨raw, by simp, here⟩
      · exact .inl separator
      · rcases ih later with separator | ⟨found, among, there⟩
        · exact .inl separator
        · exact .inr ⟨found, by simp [among], there⟩

theorem no_at {lo hi : Nat} {text : List Char}
    (each : ∀ raw ∈ text.splitOn ',', ∃ body step, PartText lo hi raw body step) : '@' ∉ text := by
  intro member
  have joined : [','].intercalate (text.splitOn ',') = text := List.intercalate_splitOn ','
  rw [← joined] at member
  rcases mem_intercalate member with comma | ⟨raw, among, here⟩
  · revert comma
    decide
  · obtain ⟨body, step, part⟩ := each raw among
    have char := part_chars part '@' here
    revert char
    decide

theorem mem_splitWhitespace {text : List Char} {c : Char} (among : c ∈ text)
    (dark : isWhitespace c = false) :
    ∃ field ∈ splitWhitespace text, c ∈ field := by
  have pieces : ∃ piece ∈ text.splitOnP isWhitespace, c ∈ piece := by
    induction text with
    | nil => cases among
    | cons d rest ih =>
      obtain ⟨head, tail, cut⟩ := List.exists_cons_of_ne_nil (List.splitOnP_ne_nil isWhitespace rest)
      rw [List.splitOnP_cons_eq_if_modifyHead]
      rw [cut] at ih ⊢
      rcases List.mem_cons.mp among with rfl | later
      · exact ⟨c :: head, by simp [dark], by simp⟩
      · obtain ⟨piece, inside, there⟩ := ih later
        split
        · exact ⟨piece, by simp [inside], there⟩
        · rcases List.mem_cons.mp inside with rfl | inside
          · exact ⟨d :: piece, by simp, by simp [there]⟩
          · exact ⟨piece, by simp [inside], there⟩
  obtain ⟨piece, inside, there⟩ := pieces
  refine ⟨piece, List.mem_filter.mpr ⟨inside, ?_⟩, there⟩
  exact decide_eq_true (List.ne_nil_of_mem there)

def PartsOk (lo hi : Nat) (text : List Char) : Prop :=
  ∀ raw ∈ text.splitOn ',', ∃ body step, PartText lo hi raw body step

def Listed (text : List Char) : Prop :=
  match splitWhitespace (text.map fun c => if c = '?' then '*' else c) with
  | [minute, hour, dayOfMonth, month, dayOfWeek] =>
    PartsOk 0 59 minute ∧ PartsOk 0 23 hour ∧ PartsOk 1 31 dayOfMonth ∧ PartsOk 1 12 month ∧
      PartsOk 0 6 dayOfWeek
  | [second, minute, hour, dayOfMonth, month, dayOfWeek] =>
    PartsOk 0 59 second ∧ PartsOk 0 59 minute ∧ PartsOk 0 23 hour ∧ PartsOk 1 31 dayOfMonth ∧
      PartsOk 1 12 month ∧ PartsOk 0 6 dayOfWeek
  | _ => False

theorem listed_iff {text : List Char} : Listed text ↔ ∃ e, Reads text e := by
  simp only [Listed, Reads]
  split
  · constructor
    · rintro ⟨first, second, third, fourth, fifth⟩
      obtain ⟨minute, first⟩ := fieldText_of_parts (by decide) first
      obtain ⟨hour, second⟩ := fieldText_of_parts (by decide) second
      obtain ⟨dayOfMonth, third⟩ := fieldText_of_parts (by decide) third
      obtain ⟨month, fourth⟩ := fieldText_of_parts (by decide) fourth
      obtain ⟨dayOfWeek, fifth⟩ := fieldText_of_parts (by decide) fifth
      exact ⟨⟨[0], minute, hour, dayOfMonth, month, dayOfWeek⟩, rfl, first, second, third, fourth, fifth⟩
    · rintro ⟨e, -, first, second, third, fourth, fifth⟩
      exact ⟨first.parts, second.parts, third.parts, fourth.parts, fifth.parts⟩
  · constructor
    · rintro ⟨zeroth, first, second, third, fourth, fifth⟩
      obtain ⟨second_, zeroth⟩ := fieldText_of_parts (by decide) zeroth
      obtain ⟨minute, first⟩ := fieldText_of_parts (by decide) first
      obtain ⟨hour, second⟩ := fieldText_of_parts (by decide) second
      obtain ⟨dayOfMonth, third⟩ := fieldText_of_parts (by decide) third
      obtain ⟨month, fourth⟩ := fieldText_of_parts (by decide) fourth
      obtain ⟨dayOfWeek, fifth⟩ := fieldText_of_parts (by decide) fifth
      exact ⟨⟨second_, minute, hour, dayOfMonth, month, dayOfWeek⟩, zeroth, first, second, third, fourth,
        fifth⟩
    · rintro ⟨e, zeroth, first, second, third, fourth, fifth⟩
      exact ⟨zeroth.parts, first.parts, second.parts, third.parts, fourth.parts, fifth.parts⟩
  · simp

theorem listed_parts {text : List Char} (listed : Listed text) {field : List Char}
    (among : field ∈ splitWhitespace (text.map fun c => if c = '?' then '*' else c)) :
    ∃ lo hi, PartsOk lo hi field := by
  rw [Listed] at listed
  generalize splitWhitespace (text.map fun c => if c = '?' then '*' else c) = fields at among listed
  split at listed
  · simp only [List.mem_cons, List.not_mem_nil, or_false] at among
    rcases among with rfl | rfl | rfl | rfl | rfl
    exacts [⟨_, _, listed.1⟩, ⟨_, _, listed.2.1⟩, ⟨_, _, listed.2.2.1⟩, ⟨_, _, listed.2.2.2.1⟩,
      ⟨_, _, listed.2.2.2.2⟩]
  · simp only [List.mem_cons, List.not_mem_nil, or_false] at among
    rcases among with rfl | rfl | rfl | rfl | rfl | rfl
    exacts [⟨_, _, listed.1⟩, ⟨_, _, listed.2.1⟩, ⟨_, _, listed.2.2.1⟩, ⟨_, _, listed.2.2.2.1⟩,
      ⟨_, _, listed.2.2.2.2.1⟩, ⟨_, _, listed.2.2.2.2.2⟩]
  · exact absurd listed not_false

theorem listed_no_at {text : List Char} (listed : Listed text) : '@' ∉ text := by
  intro member
  have mapped : '@' ∈ text.map fun c => if c = '?' then '*' else c :=
    List.mem_map.mpr ⟨'@', member, by decide⟩
  obtain ⟨field, among, here⟩ := mem_splitWhitespace mapped (by decide)
  obtain ⟨lo, hi, parts⟩ := listed_parts listed among
  exact no_at parts here

def expansion (trimmed : List Char) : List Char :=
  ((expandMacro (String.ofList trimmed)).map String.toList).getD trimmed

theorem macro_listed {name text : String} (known : expandMacro name = some text) :
    name.toList.head? = some '@' ∧ Listed text.toList := by
  have readable : ∀ {plain : String}, (parseCron plain).toOption.isSome → expand (trim plain.toList) =
      .ok plain.toList → Listed plain.toList := by
    intro plain ok expanded
    obtain ⟨e, parsed⟩ := Option.isSome_iff_exists.mp ok
    refine listed_iff.mpr ⟨e, (parseCron_reads expanded).mp ?_⟩
    cases result : parseCron plain with
    | error error => simp [result, Except.toOption] at parsed
    | ok e' =>
      rw [result] at parsed
      exact congrArg _ (Option.some.inj parsed)
  rw [expandMacro] at known
  split_ifs at known with hourly daily weekly monthly yearly
  · obtain rfl := Option.some.inj known
    exact ⟨by rw [hourly]; decide, readable (by decide) (by decide)⟩
  · obtain rfl := Option.some.inj known
    exact ⟨by rcases daily with same | same <;> rw [same] <;> decide, readable (by decide) (by decide)⟩
  · obtain rfl := Option.some.inj known
    exact ⟨by rw [weekly]; decide, readable (by decide) (by decide)⟩
  · obtain rfl := Option.some.inj known
    exact ⟨by rw [monthly]; decide, readable (by decide) (by decide)⟩
  · obtain rfl := Option.some.inj known
    exact ⟨by rcases yearly with same | same <;> rw [same] <;> decide, readable (by decide) (by decide)⟩

theorem expand_iff {trimmed text : List Char} : expand trimmed = .ok text ↔
    text = expansion trimmed ∧
      (trimmed.head? = some '@' → (expandMacro (String.ofList trimmed)).isSome) := by
  rw [expand, expansion]
  cases known : expandMacro (String.ofList trimmed) with
  | none =>
    split
    · rename_i at_
      simp [at_]
    · rename_i other
      simp [other, eq_comm]
  | some found =>
    have first := (macro_listed known).1
    rw [String.toList_ofList] at first
    simp [first, eq_comm]

theorem accepts_iff (expr : String) : (∃ e, parseCron expr = .ok e) ↔
    (expandMacro (String.ofList (trim expr.toList))).isSome ∨ Listed (trim expr.toList) := by
  constructor
  · rintro ⟨e, parsed⟩
    obtain ⟨text, expanded⟩ := parseCron_expanded parsed
    have reads := (parseCron_reads expanded).mp parsed
    obtain ⟨rfl, -⟩ := expand_iff.mp expanded
    rw [expansion] at reads
    cases known : expandMacro (String.ofList (trim expr.toList)) with
    | some found => exact .inl rfl
    | none =>
      rw [known] at reads
      exact .inr (listed_iff.mpr ⟨e, reads⟩)
  · rintro (known | listed)
    · obtain ⟨text, found⟩ := Option.isSome_iff_exists.mp known
      have expanded : expand (trim expr.toList) = .ok text.toList :=
        expand_iff.mpr ⟨by simp [expansion, found], fun _ => known⟩
      obtain ⟨e, reads⟩ := listed_iff.mp (macro_listed found).2
      exact ⟨e, (parseCron_reads expanded).mpr reads⟩
    · have other : (trim expr.toList).head? ≠ some '@' := fun first =>
        listed_no_at listed (List.mem_of_head? first)
      have expanded : expand (trim expr.toList) = .ok (trim expr.toList) := by
        rw [expand, if_neg other]
      obtain ⟨e, reads⟩ := listed_iff.mp listed
      exact ⟨e, (parseCron_reads expanded).mpr reads⟩

end Firefly.Scheduling
