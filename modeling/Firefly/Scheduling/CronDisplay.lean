import Firefly.Scheduling.CronGrammar

set_option autoImplicit false

namespace Firefly.Scheduling

open Decimal Text

variable {lo hi : Nat}

theorem runEnd_spec (last : Nat) (rest : List Nat) : last ≤ (runEnd last rest).1 ∧
    rest = List.range' (last + 1) ((runEnd last rest).1 - last) ++ (runEnd last rest).2 := by
  induction rest generalizing last with
  | nil => simp [runEnd]
  | cons x rest ih =>
    rw [runEnd]
    split
    · rename_i next
      subst next
      obtain ⟨later, whole⟩ := ih (last + 1)
      refine ⟨by omega, ?_⟩
      rw [show (runEnd (last + 1) rest).1 - last = (runEnd (last + 1) rest).1 - (last + 1) + 1 by omega,
        List.range'_succ, List.cons_append, ← whole]
    · simp

def Covers (lo hi start last : Nat) (parts : List (List Char)) : Prop :=
  (∀ raw ∈ parts, ∃ body step, PartText lo hi raw body step) ∧
    ∀ x, start ≤ x ∧ x ≤ last ↔ ∃ raw ∈ parts, ∃ body step, PartText lo hi raw body step ∧
      x ∈ body.values lo hi step

theorem digits_no_dash (n : Nat) : '-' ∉ digits n := by
  intro member
  have digit := isDigit_of_mem_digits member
  revert digit
  decide

theorem number_reads {v : Nat} (low : lo ≤ v) (high : v ≤ hi) (small : hi < 2 ^ 32 - 1) :
    PartText lo hi (digits v) (.value v) 1 :=
  .plain (.value (parseI64_digits_self (by omega)) (digits_no_dash v) low high)

theorem range_reads {a b : Nat} (low : lo ≤ a) (order : a ≤ b) (high : b ≤ hi) (small : hi < 2 ^ 32 - 1) :
    PartText lo hi (digits a ++ '-' :: digits b) (.range a b) 1 :=
  .plain (.range (parseI64_digits_self (by omega)) (parseI64_digits_self (by omega)) (digits_no_dash a) low
    order high)

theorem covers_one {raw : List Char} {body : Body} {step start last : Nat} (small : hi < 2 ^ 32 - 1)
    (reads : PartText lo hi raw body step)
    (values : ∀ x, start ≤ x ∧ x ≤ last ↔ x ∈ body.values lo hi step) : Covers lo hi start last [raw] := by
  refine ⟨by simpa using ⟨body, step, reads⟩, fun x => ?_⟩
  rw [values]
  constructor
  · intro inside
    exact ⟨raw, by simp, body, step, reads, inside⟩
  · rintro ⟨raw', member, body', step', reads', inside⟩
    obtain rfl := List.mem_singleton.mp member
    exact reading_unique small reads' reads ▸ inside

theorem covers_append {parts more : List (List Char)} {start middle last : Nat} (first : start ≤ middle + 1)
    (second : middle ≤ last) (left : Covers lo hi start middle parts)
    (right : Covers lo hi (middle + 1) last more) : Covers lo hi start last (parts ++ more) := by
  refine ⟨fun raw member => ?_, fun x => ?_⟩
  · rcases List.mem_append.mp member with before | after
    · exact left.1 raw before
    · exact right.1 raw after
  · have halves : start ≤ x ∧ x ≤ last ↔ (start ≤ x ∧ x ≤ middle) ∨ (middle + 1 ≤ x ∧ x ≤ last) := by omega
    simp only [halves, left.2, right.2, List.mem_append, or_and_right, exists_or]

theorem renderRun_covers {start last : Nat} (low : lo ≤ start) (order : start ≤ last) (high : last ≤ hi)
    (small : hi < 2 ^ 32 - 1) : Covers lo hi start last (renderRun start last) := by
  have single : ∀ {v : Nat}, lo ≤ v → v ≤ hi → Covers lo hi v v [digits v] := fun below above =>
    covers_one small (number_reads below above small) fun x => by
      rw [Body.values, Set.mem_singleton_iff]
      omega
  rw [renderRun]
  split
  · refine covers_one small (range_reads low order high small) fun x => ?_
    constructor
    · rintro ⟨above, below⟩
      exact ⟨below, x - start, by omega⟩
    · rintro ⟨below, k, rfl⟩
      omega
  · split
    · rename_i two
      subst two
      exact covers_append (by omega) (by omega) (single low (by omega)) (single (by omega) high)
    · obtain rfl : last = start := by omega
      exact single low high

theorem renderRuns_members {rounds : Nat} {xs : List Nat} (enough : xs.length ≤ rounds)
    (bounds : ∀ x ∈ xs, lo ≤ x ∧ x ≤ hi) (small : hi < 2 ^ 32 - 1) :
    (∀ raw ∈ renderRuns rounds xs, ∃ body step, PartText lo hi raw body step) ∧
      ∀ x, x ∈ xs ↔ ∃ raw ∈ renderRuns rounds xs, ∃ body step, PartText lo hi raw body step ∧
        x ∈ body.values lo hi step := by
  induction rounds generalizing xs with
  | zero =>
    obtain rfl := List.length_eq_zero_iff.mp (Nat.le_zero.mp enough)
    simp [renderRuns]
  | succ rounds ih =>
    cases xs with
    | nil => simp [renderRuns]
    | cons start rest =>
      obtain ⟨order, whole⟩ := runEnd_spec start rest
      rw [renderRuns]
      generalize runEnd start rest = run at order whole ⊢
      obtain ⟨last, after⟩ := run
      dsimp only at order whole ⊢
      have inside : ∀ x, x ∈ start :: rest ↔ (start ≤ x ∧ x ≤ last) ∨ x ∈ after := by
        intro x
        rw [whole, List.mem_cons, List.mem_append, List.mem_range'_1, ← or_assoc]
        refine or_congr_left ?_
        omega
      have ends := bounds last ((inside last).mpr (.inl ⟨order, le_rfl⟩))
      have shorter : after.length ≤ rounds := by
        have total := congrArg List.length whole
        simp only [List.length_append, List.length_range', List.length_cons] at total enough
        omega
      have here := renderRun_covers (bounds start (by simp)).1 order ends.2 small
      obtain ⟨readable, later⟩ := ih shorter fun x member => bounds x ((inside x).mpr (.inr member))
      refine ⟨fun raw member => ?_, fun x => ?_⟩
      · rcases List.mem_append.mp member with before | behind
        · exact here.1 raw before
        · exact readable raw behind
      · rw [inside, here.2, later]
        simp only [List.mem_append, or_and_right, exists_or]

theorem renderField_reads {xs : List Nat} (ok : FieldOk lo hi xs) (small : hi < 2 ^ 32 - 1) :
    FieldText lo hi (renderField xs lo hi) xs := by
  rw [renderField]
  split
  · rename_i full
    have size := full.resolve_left ok.nonempty
    have star : List.splitOn ',' ['*'] = [['*']] := by decide
    have reads : PartText lo hi ['*'] .all 1 := .plain .all
    refine ⟨by simpa [star] using ⟨_, _, reads⟩, fun x => ?_, ok.sorted⟩
    have domain : x ∈ xs ↔ x ∈ Body.all.values lo hi 1 := by
      constructor
      · intro member
        have bound := ok.bounds x member
        exact ⟨bound.2, x - lo, by omega⟩
      · rintro ⟨below, k, rfl⟩
        exact ok.full (by simp [CronExpr.isRestricted, size]) (by omega) below
    rw [domain, star]
    constructor
    · intro inside
      exact ⟨['*'], by simp, .all, 1, reads, inside⟩
    · rintro ⟨raw, member, body, step, reads', inside⟩
      obtain rfl := List.mem_singleton.mp member
      exact reading_unique small reads' reads ▸ inside
  · obtain ⟨readable, members⟩ := renderRuns_members le_rfl ok.bounds small
    have present : renderRuns xs.length xs ≠ [] := by
      obtain ⟨x, rest, rfl⟩ := List.exists_cons_of_ne_nil ok.nonempty
      obtain ⟨raw, member, -⟩ := (members x).mp (by simp)
      exact List.ne_nil_of_mem member
    have noComma : ∀ raw ∈ renderRuns xs.length xs, ',' ∉ raw := by
      intro raw member comma
      obtain ⟨body, step, part⟩ := readable raw member
      have char := part_chars part ',' comma
      revert char
      decide
    have parts := List.splitOn_intercalate ',' noComma present
    refine ⟨?_, fun x => ?_, ok.sorted⟩
    · rwa [parts]
    · rw [parts]
      exact members x

theorem field_char {text : List Char} {xs : List Nat} (reads : FieldText lo hi text xs) :
    ∀ c ∈ text, isWhitespace c = false ∧ c ≠ '?' := by
  intro c member
  have joined : [','].intercalate (text.splitOn ',') = text := List.intercalate_splitOn ','
  rw [← joined] at member
  have digit : c.isDigit → isWhitespace c = false ∧ c ≠ '?' := by
    intro number
    simp only [Char.isDigit, Bool.and_eq_true, decide_eq_true_eq] at number
    have low : 48 ≤ c.toNat := number.1
    have high : c.toNat ≤ 57 := number.2
    refine ⟨by simp only [isWhitespace, decide_eq_false_iff_not]; omega, ?_⟩
    rintro rfl
    revert high
    decide
  rcases mem_intercalate member with rfl | ⟨raw, among, here⟩
  · decide
  · obtain ⟨body, step, part⟩ := reads.parts raw among
    rcases part_chars part c here with rfl | rfl | rfl | number | rfl
    · decide
    · decide
    · decide
    · exact digit number
    · decide

theorem part_ne_nil {raw : List Char} {body : Body} {step : Nat} (reads : PartText lo hi raw body step) :
    raw ≠ [] := by
  have bodied : ∀ {text : List Char}, BodyText lo hi text body → text ≠ [] := by
    intro text reads
    cases reads with
    | all => simp
    | range => simp
    | value numeral =>
      rintro rfl
      cases numeral
  cases reads with
  | plain reads => exact bodied reads
  | stepped => simp

theorem field_ne_nil {text : List Char} {xs : List Nat} (reads : FieldText lo hi text xs) : text ≠ [] := by
  rintro rfl
  obtain ⟨body, step, part⟩ := reads.parts [] (by decide)
  exact part_ne_nil part rfl

theorem trim_of_ends {text : List Char} {first last : Char} (begins : text.head? = some first)
    (ends : text.getLast? = some last) (left : isWhitespace first = false)
    (right : isWhitespace last = false) : trim text = text := by
  have kept : text.dropWhile isWhitespace = text := by
    obtain ⟨rest, rfl⟩ := List.head?_eq_some_iff.mp begins
    simp [left]
  rw [trim, kept, List.rdropWhile_eq_self_iff]
  intro present
  rw [List.getLast?_eq_some_getLast present] at ends
  rw [Option.some.inj ends, right]
  decide

def spaced (fields : List (List Char)) : List Char := [' '].intercalate fields

theorem splitWhitespace_spaced {fields : List (List Char)}
    (each : ∀ field ∈ fields, field ≠ [] ∧ ∀ c ∈ field, isWhitespace c = false) :
    splitWhitespace (spaced fields) = fields := by
  have pieces : fields ≠ [] → (spaced fields).splitOnP isWhitespace = fields := by
    intro present
    induction fields with
    | nil => exact absurd rfl present
    | cons field fields ih =>
      have dark := (each field (by simp)).2
      cases fields with
      | nil =>
        rw [spaced, List.intercalate_singleton]
        exact List.splitOnP_eq_singleton dark
      | cons other fields =>
        rw [spaced, List.intercalate_cons_cons, List.append_assoc, List.singleton_append,
          List.splitOnP_append_cons_of_forall_mem dark ' ' (by decide)]
        congr 1
        exact ih (fun later member => each later (by simp [member])) (by simp)
  cases fields with
  | nil => decide
  | cons field rest =>
    rw [splitWhitespace, pieces (by simp), List.filter_eq_self]
    intro piece member
    exact decide_eq_true (each piece member).1

theorem trim_spaced {fields : List (List Char)} (present : fields ≠ [])
    (each : ∀ field ∈ fields, field ≠ [] ∧ ∀ c ∈ field, isWhitespace c = false) :
    trim (spaced fields) = spaced fields := by
  have begins : ∃ first, (spaced fields).head? = some first ∧ isWhitespace first = false := by
    obtain ⟨field, rest, rfl⟩ := List.exists_cons_of_ne_nil present
    obtain ⟨some_, dark⟩ := each field (by simp)
    obtain ⟨c, tail, rfl⟩ := List.exists_cons_of_ne_nil some_
    refine ⟨c, ?_, dark c (by simp)⟩
    cases rest with
    | nil => simp [spaced]
    | cons other rest => simp [spaced, List.intercalate_cons_cons]
  have ends : ∃ last, (spaced fields).getLast? = some last ∧ isWhitespace last = false := by
    clear begins
    induction fields with
    | nil => exact absurd rfl present
    | cons field fields ih =>
      cases fields with
      | nil =>
        obtain ⟨some_, dark⟩ := each field (by simp)
        refine ⟨field.getLast some_, ?_, dark _ (List.getLast_mem some_)⟩
        rw [spaced, List.intercalate_singleton, List.getLast?_eq_some_getLast some_]
      | cons other fields =>
        obtain ⟨last, here, dark⟩ := ih (by simp) fun later member => each later (by simp [member])
        refine ⟨last, ?_, dark⟩
        rw [spaced] at here
        rw [spaced, List.intercalate_cons_cons, List.getLast?_append, here]
        rfl
  obtain ⟨first, begins, left⟩ := begins
  obtain ⟨last, ends, right⟩ := ends
  exact trim_of_ends begins ends left right

theorem toString_spaced (e : CronExpr) : e.toString.toList = spaced (
    (if e.second ≠ [0] then [renderField e.second 0 59] else []) ++
      [renderField e.minute 0 59, renderField e.hour 0 23, renderField e.dayOfMonth 1 31,
        renderField e.month 1 12, renderField e.dayOfWeek 0 6]) := by
  rw [CronExpr.toString, String.toList_ofList]
  split <;> simp [spaced, List.intercalate_cons_cons]

def Printable (field : List Char) : Prop :=
  field ≠ [] ∧ ∀ c ∈ field, isWhitespace c = false ∧ c ≠ '?' ∧ c ≠ '@'

theorem field_printable {text : List Char} {xs : List Nat} (reads : FieldText lo hi text xs) :
    Printable text := by
  refine ⟨field_ne_nil reads, fun c member => ?_⟩
  obtain ⟨dark, known⟩ := field_char reads c member
  exact ⟨dark, known, fun same => no_at reads.parts (same ▸ member)⟩

theorem spaced_printable {fields : List (List Char)} (present : fields ≠ [])
    (each : ∀ field ∈ fields, Printable field) : trim (spaced fields) = spaced fields ∧
      '@' ∉ spaced fields ∧
      splitWhitespace ((spaced fields).map fun c => if c = '?' then '*' else c) = fields := by
  have dark : ∀ field ∈ fields, field ≠ [] ∧ ∀ c ∈ field, isWhitespace c = false := fun field member =>
    ⟨(each field member).1, fun c inside => ((each field member).2 c inside).1⟩
  have chars : ∀ c ∈ spaced fields, c ≠ '?' ∧ c ≠ '@' := by
    intro c member
    rcases mem_intercalate member with rfl | ⟨field, among, here⟩
    · decide
    · exact ((each field among).2 c here).2
  refine ⟨trim_spaced present dark, fun member => (chars '@' member).2 rfl, ?_⟩
  have unchanged : (spaced fields).map (fun c => if c = '?' then '*' else c) = spaced fields := by
    conv_rhs => rw [← List.map_id (spaced fields)]
    exact List.map_congr_left fun c member => if_neg (chars c member).1
  rw [unchanged, splitWhitespace_spaced dark]

theorem display_parses {e : CronExpr} (wellFormed : e.WellFormed) : parseCron e.toString = .ok e := by
  have second := renderField_reads wellFormed.second (by decide)
  have minute := renderField_reads wellFormed.minute (by decide)
  have hour := renderField_reads wellFormed.hour (by decide)
  have dayOfMonth := renderField_reads wellFormed.dayOfMonth (by decide)
  have month := renderField_reads wellFormed.month (by decide)
  have dayOfWeek := renderField_reads wellFormed.dayOfWeek (by decide)
  have printed := @spaced_printable ((if e.second ≠ [0] then [renderField e.second 0 59] else []) ++
      [renderField e.minute 0 59, renderField e.hour 0 23, renderField e.dayOfMonth 1 31,
        renderField e.month 1 12, renderField e.dayOfWeek 0 6]) (by simp) (by
    intro field member
    simp only [List.mem_append, List.mem_cons, List.not_mem_nil, or_false] at member
    rcases member with shown | rfl | rfl | rfl | rfl | rfl
    · split at shown
      · obtain rfl := List.mem_singleton.mp shown
        exact field_printable second
      · cases shown
    · exact field_printable minute
    · exact field_printable hour
    · exact field_printable dayOfMonth
    · exact field_printable month
    · exact field_printable dayOfWeek)
  rw [← toString_spaced] at printed
  obtain ⟨trimmed, other, fields⟩ := printed
  have expanded : expand (trim e.toString.toList) = .ok e.toString.toList := by
    rw [trimmed, expand, if_neg fun first => other (List.mem_of_head? first)]
  refine (parseCron_reads expanded).mpr ?_
  rw [Reads, fields]
  by_cases shown : e.second ≠ [0]
  · rw [if_pos shown]
    exact ⟨second, minute, hour, dayOfMonth, month, dayOfWeek⟩
  · rw [if_neg shown]
    exact ⟨not_not.mp shown, minute, hour, dayOfMonth, month, dayOfWeek⟩

theorem parseCron_expansion {expr : String} {e : CronExpr} (parsed : parseCron expr = .ok e) :
    expand (trim expr.toList) = .ok (expansion (trim expr.toList)) := by
  obtain ⟨text, expanded⟩ := parseCron_expanded parsed
  obtain ⟨rfl, -⟩ := expand_iff.mp expanded
  exact expanded

theorem parseCron_grammar (expr : String) :
    ((∃ e, parseCron expr = .ok e) ↔
      (expandMacro (String.ofList (trim expr.toList))).isSome ∨ Listed (trim expr.toList)) ∧
    ∀ e, parseCron expr = .ok e →
      Reads (expansion (trim expr.toList)) e ∧ parseCron e.toString = .ok e := by
  refine ⟨accepts_iff expr, fun e parsed => ⟨?_, display_parses (parseCron_wellFormed parsed)⟩⟩
  rw [← parseCron_reads (parseCron_expansion parsed)]
  exact parsed

theorem huge_step_rejected : parseDigits "9223372036854775808".toList = some 9223372036854775808 ∧
    parseCron "*/9223372036854775808 * * * *" = .error (.badStep "minute" "*/9223372036854775808") := by
  exact ⟨by decide, by decide⟩

end Firefly.Scheduling
