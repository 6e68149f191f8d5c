import Firefly.Scheduling.Cron

set_option autoImplicit false

namespace Firefly.Scheduling

open Calendar Decimal Text

structure FieldOk (lo hi : Nat) (xs : List Nat) : Prop where
  nonempty : xs ≠ []
  bounds : ∀ x ∈ xs, lo ≤ x ∧ x ≤ hi
  sorted : xs.Pairwise (· < ·)

structure CronExpr.WellFormed (e : CronExpr) : Prop where
  second : FieldOk 0 59 e.second
  minute : FieldOk 0 59 e.minute
  hour : FieldOk 0 23 e.hour
  dayOfMonth : FieldOk 1 31 e.dayOfMonth
  month : FieldOk 1 12 e.month
  dayOfWeek : FieldOk 0 6 e.dayOfWeek

structure Extends (lo hi : Nat) (out out' : Std.TreeSet Nat) : Prop where
  kept : ∀ x ∈ out, x ∈ out'
  within : ∀ x ∈ out', x ∈ out ∨ lo ≤ x ∧ x ≤ hi
  inhabited : ∃ x, x ∈ out'

theorem extends_insert {lo hi v : Nat} (out : Std.TreeSet Nat) (low : lo ≤ v) (high : v ≤ hi) :
    Extends lo hi out (out.insert v) where
  kept x member := Std.TreeSet.mem_insert.mpr (.inr member)
  within x member := by
    rcases Std.TreeSet.mem_insert.mp member with same | before
    · obtain rfl := Std.LawfulEqOrd.eq_of_compare same
      exact .inr ⟨low, high⟩
    · exact .inl before
  inhabited := ⟨v, Std.TreeSet.mem_insert_self⟩

theorem Extends.trans {lo hi : Nat} {first second third : Std.TreeSet Nat}
    (left : Extends lo hi first second) (right : Extends lo hi second third) :
    Extends lo hi first third where
  kept x member := right.kept x (left.kept x member)
  within x member := by
    rcases right.within x member with before | bounds
    · exact left.within x before
    · exact .inr bounds
  inhabited := right.inhabited

theorem Extends.widen {lo lo' hi hi' : Nat} {out out' : Std.TreeSet Nat}
    (left : Extends lo' hi' out out') (low : lo ≤ lo') (high : hi' ≤ hi) :
    Extends lo hi out out' where
  kept := left.kept
  within x member := by
    rcases left.within x member with before | bounds
    · exact .inl before
    · exact .inr ⟨by omega, by omega⟩
  inhabited := left.inhabited

theorem insertSteps_extends {hi lo v : Nat} (step rounds : Nat) (out : Std.TreeSet Nat)
    (low : lo ≤ v) (high : v ≤ hi) :
    Extends lo hi out (insertSteps hi step (rounds + 1) v out) := by
  induction rounds generalizing v out with
  | zero =>
    rw [insertSteps, if_pos high]
    simp only [insertSteps, ite_self]
    exact extends_insert out low high
  | succ rounds ih =>
    rw [insertSteps, if_pos high]
    have here := extends_insert out low high
    simp only
    split
    · by_cases inside : v + step ≤ hi
      · exact here.trans (ih _ (by omega) inside)
      · rw [insertSteps, if_neg inside]
        exact here
    · exact here

theorem parsePart_extends {lo hi : Nat} {name : String} {out out' : Std.TreeSet Nat}
    {raw : List Char} (proper : lo ≤ hi) (ok : parsePart lo hi name out raw = .ok out') :
    Extends lo hi out out' := by
  rw [parsePart] at ok
  split at ok
  · simp at ok
  · rename_i part step _
    split at ok
    · obtain rfl := Except.ok.inj ok
      exact insertSteps_extends step hi out le_rfl proper
    · split at ok
      · split at ok
        · rename_i a b _ _
          split at ok
          · simp at ok
          · rename_i bounds
            obtain rfl := Except.ok.inj ok
            have wide := insertSteps_extends step b.toNat out
              (le_refl a.toNat) (show a.toNat ≤ b.toNat by omega)
            exact wide.widen (by omega) (by omega)
        · simp at ok
      · split at ok
        · simp at ok
        · split at ok
          · simp at ok
          · obtain rfl := Except.ok.inj ok
            exact extends_insert out (by omega) (by omega)

theorem parseParts_extends {lo hi : Nat} {name : String} {out out' : Std.TreeSet Nat}
    {parts : List (List Char)} (proper : lo ≤ hi) (nonempty : parts ≠ [])
    (ok : parts.foldlM (parsePart lo hi name) out = .ok out') : Extends lo hi out out' := by
  induction parts generalizing out with
  | nil => exact absurd rfl nonempty
  | cons part parts ih =>
    rw [List.foldlM_cons] at ok
    cases first : parsePart lo hi name out part with
    | error error => simp [first, bind, Except.bind] at ok
    | ok middle =>
      simp only [first, bind, Except.bind] at ok
      have here := parsePart_extends proper first
      cases parts with
      | nil =>
        obtain rfl : middle = out' := by simpa [pure, Except.pure] using ok
        exact here
      | cons other parts => exact here.trans (ih (by simp) ok)

theorem parseField_ok {field : List Char} {lo hi : Nat} {name : String} {xs : List Nat}
    (proper : lo ≤ hi) (ok : parseField field lo hi name = .ok xs) : FieldOk lo hi xs := by
  rw [parseField] at ok
  cases parsed : (field.splitOn ',').foldlM (parsePart lo hi name) ∅ with
  | error error => simp [parsed, Except.map] at ok
  | ok out =>
    obtain rfl : out.toList = xs := by simpa [parsed, Except.map] using ok
    have whole := parseParts_extends proper (List.splitOnP_ne_nil _ _) parsed
    refine ⟨?_, ?_, ?_⟩
    · obtain ⟨x, member⟩ := whole.inhabited
      exact List.ne_nil_of_mem (Std.TreeSet.mem_toList.mpr member)
    · intro x member
      rcases whole.within x (Std.TreeSet.mem_toList.mp member) with none | bounds
      · simp at none
      · exact bounds
    · have ordered := Std.TreeSet.ordered_toList (t := out)
      exact ordered.imp fun before => Nat.compare_eq_lt.mp before

theorem bind_ok {α β : Type} {x : Except CronError α} {f : α → Except CronError β} {b : β}
    (ok : (x >>= f) = .ok b) : ∃ a, x = .ok a ∧ f a = .ok b := by
  cases x with
  | error error => simp [bind, Except.bind] at ok
  | ok a => exact ⟨a, rfl, ok⟩

theorem parseCron_expanded {expr : String} {e : CronExpr} (ok : parseCron expr = .ok e) :
    ∃ text, expand (trim expr.toList) = .ok text := by
  rw [parseCron] at ok
  obtain ⟨text, expanded, -⟩ := bind_ok ok
  exact ⟨text, expanded⟩

theorem parseCron_iff {expr : String} {text : List Char} {e : CronExpr}
    (expanded : expand (trim expr.toList) = .ok text) : parseCron expr = .ok e ↔
      match splitWhitespace (text.map fun c => if c = '?' then '*' else c) with
      | [minute, hour, dayOfMonth, month, dayOfWeek] =>
        e.second = [0] ∧ parseField minute 0 59 "minute" = .ok e.minute ∧
          parseField hour 0 23 "hour" = .ok e.hour ∧ parseField dayOfMonth 1 31 "dom" = .ok e.dayOfMonth ∧
          parseField month 1 12 "month" = .ok e.month ∧ parseField dayOfWeek 0 6 "dow" = .ok e.dayOfWeek
      | [second, minute, hour, dayOfMonth, month, dayOfWeek] =>
        parseField second 0 59 "second" = .ok e.second ∧ parseField minute 0 59 "minute" = .ok e.minute ∧
          parseField hour 0 23 "hour" = .ok e.hour ∧ parseField dayOfMonth 1 31 "dom" = .ok e.dayOfMonth ∧
          parseField month 1 12 "month" = .ok e.month ∧ parseField dayOfWeek 0 6 "dow" = .ok e.dayOfWeek
      | _ => False := by
  rw [parseCron, expanded]
  change (match splitWhitespace (text.map fun c => if c = '?' then '*' else c) with
    | [_, _, _, _, _] => _
    | [_, _, _, _, _, _] => _
    | _ => _) = Except.ok e ↔ _
  generalize splitWhitespace (text.map fun c => if c = '?' then '*' else c) = fields
  constructor
  · intro ok
    split at ok
    · obtain ⟨minute, minuteOk, ok⟩ := bind_ok ok
      obtain ⟨hour, hourOk, ok⟩ := bind_ok ok
      obtain ⟨dayOfMonth, dayOfMonthOk, ok⟩ := bind_ok ok
      obtain ⟨month, monthOk, ok⟩ := bind_ok ok
      obtain ⟨dayOfWeek, dayOfWeekOk, ok⟩ := bind_ok ok
      obtain rfl := Except.ok.inj ok
      exact ⟨rfl, minuteOk, hourOk, dayOfMonthOk, monthOk, dayOfWeekOk⟩
    · obtain ⟨second, secondOk, ok⟩ := bind_ok ok
      obtain ⟨minute, minuteOk, ok⟩ := bind_ok ok
      obtain ⟨hour, hourOk, ok⟩ := bind_ok ok
      obtain ⟨dayOfMonth, dayOfMonthOk, ok⟩ := bind_ok ok
      obtain ⟨month, monthOk, ok⟩ := bind_ok ok
      obtain ⟨dayOfWeek, dayOfWeekOk, ok⟩ := bind_ok ok
      obtain rfl := Except.ok.inj ok
      exact ⟨secondOk, minuteOk, hourOk, dayOfMonthOk, monthOk, dayOfWeekOk⟩
    · simp [throw, throwThe, MonadExceptOf.throw] at ok
  · intro reads
    split at reads
    · obtain ⟨second, minute, hour, dayOfMonth, month, dayOfWeek⟩ := reads
      rw [minute, hour, dayOfMonth, month, dayOfWeek, ← second]
      rfl
    · obtain ⟨second, minute, hour, dayOfMonth, month, dayOfWeek⟩ := reads
      rw [second, minute, hour, dayOfMonth, month, dayOfWeek]
      rfl
    · exact absurd reads not_false

theorem parseCron_wellFormed {expr : String} {e : CronExpr} (ok : parseCron expr = .ok e) :
    e.WellFormed := by
  obtain ⟨text, expanded⟩ := parseCron_expanded ok
  have fields := (parseCron_iff expanded).mp ok
  split at fields
  · obtain ⟨second, minute, hour, dayOfMonth, month, dayOfWeek⟩ := fields
    exact ⟨second ▸ ⟨by simp, by simp, by simp⟩, parseField_ok (by decide) minute,
      parseField_ok (by decide) hour, parseField_ok (by decide) dayOfMonth,
      parseField_ok (by decide) month, parseField_ok (by decide) dayOfWeek⟩
  · obtain ⟨second, minute, hour, dayOfMonth, month, dayOfWeek⟩ := fields
    exact ⟨parseField_ok (by decide) second, parseField_ok (by decide) minute,
      parseField_ok (by decide) hour, parseField_ok (by decide) dayOfMonth,
      parseField_ok (by decide) month, parseField_ok (by decide) dayOfWeek⟩
  · exact absurd fields not_false

theorem FieldOk.full {lo hi : Nat} {xs : List Nat} (ok : FieldOk lo hi xs)
    (full : CronExpr.isRestricted xs lo hi = false) {x : Nat} (low : lo ≤ x) (high : x ≤ hi) :
    x ∈ xs := by
  have size : xs.length = hi - lo + 1 := by simpa [CronExpr.isRestricted] using full
  have subset : xs ⊆ List.range' lo (hi - lo + 1) := by
    intro y member
    have bounds := ok.bounds y member
    exact List.mem_range'_1.mpr ⟨bounds.1, by omega⟩
  have distinct : xs.Nodup := ok.sorted.imp fun before => ne_of_lt before
  have same := (List.subperm_of_subset distinct subset).perm_of_length_le (by simp [size])
  exact same.mem_iff.mpr (List.mem_range'_1.mpr ⟨low, by omega⟩)

end Firefly.Scheduling
