import Firefly.Scheduling.CronFields

set_option autoImplicit false

namespace Firefly.Scheduling.CronExpr

open Calendar

variable {e : CronExpr}

def Fires (e : CronExpr) (t : Int) : Prop := secondOf t ∈ e.second ∧ e.matchesTime t

instance (e : CronExpr) (t : Int) : Decidable (e.Fires t) := inferInstanceAs (Decidable (_ ∧ _))

theorem WellFormed.any_day (wellFormed : e.WellFormed)
    (any : isRestricted e.dayOfMonth 1 31 = false) (day : Int) : (dateOf day).day ∈ e.dayOfMonth := by
  have valid := dateOf_valid day
  refine wellFormed.dayOfMonth.full any valid.day_pos ?_
  have bound := valid.day_le
  have longest : monthLength (isLeap (dateOf day).year) (dateOf day).month ≤ 31 := by
    simp only [monthLength]
    split <;> (try split) <;> omega
  omega

theorem WellFormed.any_weekday (wellFormed : e.WellFormed)
    (any : isRestricted e.dayOfWeek 0 6 = false) (day : Int) : weekday day ∈ e.dayOfWeek := by
  refine wellFormed.dayOfWeek.full any (Nat.zero_le _) ?_
  simp only [weekday]
  omega

theorem fires_days_iff (wellFormed : e.WellFormed) (t : Int) :
    e.Fires t ↔ secondOf t ∈ e.second ∧ minuteOf t ∈ e.minute ∧ hourOf t ∈ e.hour ∧
      (dateOf (days t)).month ∈ e.month ∧
      match isRestricted e.dayOfMonth 1 31, isRestricted e.dayOfWeek 0 6 with
      | true, true => (dateOf (days t)).day ∈ e.dayOfMonth ∨ weekday (days t) ∈ e.dayOfWeek
      | true, false => (dateOf (days t)).day ∈ e.dayOfMonth
      | false, true => weekday (days t) ∈ e.dayOfWeek
      | false, false => True := by
  unfold Fires matchesTime dateMatches
  cases dom : isRestricted e.dayOfMonth 1 31 with
  | true =>
    cases dow : isRestricted e.dayOfWeek 0 6 with
    | true => simp [and_assoc]
    | false => simp [and_assoc, wellFormed.any_weekday dow (days t)]
  | false =>
    have day := wellFormed.any_day dom (days t)
    cases dow : isRestricted e.dayOfWeek 0 6 with
    | true => simp [and_assoc, day]
    | false => simp [and_assoc, day, wellFormed.any_weekday dow (days t)]

def horizon (start : Int) : Int := floorMinute start + 366 * 86400 + 59

theorem matchesTime_minute {t u : Int} (same : floorMinute t = floorMinute u) :
    e.matchesTime t = e.matchesTime u := by
  have day : days t = days u := by
    simp only [days, floorMinute] at *
    omega
  have hour : hourOf t = hourOf u := by
    simp only [hourOf, floorMinute] at *
    omega
  have minute : minuteOf t = minuteOf u := by
    simp only [minuteOf, floorMinute] at *
    omega
  rw [matchesTime, matchesTime, day, hour, minute]

theorem floorMinute_floorMinute (t : Int) : floorMinute (floorMinute t) = floorMinute t := by
  simp only [floorMinute]
  omega

theorem withSecond_eq {t : Int} {second : Nat} (inMinute : second < 60) :
    withSecond t second = some (floorMinute t + second) := by
  rw [withSecond, if_pos inMinute]

theorem maxSeconds_minute : maxSeconds % 60 = 59 := by decide

theorem search_eq_none (fields : FieldOk 0 59 e.second) {rounds : Nat} {t : Int}
    (onMinute : t % 60 = 0) (inRange : t ≤ maxSeconds) :
    e.search rounds t = none ↔
      ∀ k : Nat, k < rounds → t + 60 * k ≤ maxSeconds → e.matchesTime (t + 60 * k) = false := by
  induction rounds generalizing t with
  | zero => simp [search]
  | succ rounds ih =>
    rw [search]
    by_cases now : e.matchesTime t
    · rw [if_pos now]
      refine iff_of_false ?_ ?_
      · obtain ⟨first, rest, shape⟩ := List.exists_cons_of_ne_nil fields.nonempty
        have bound := fields.bounds first (by simp [shape])
        simp [shape, withSecond_eq (show first < 60 by omega)]
      · intro never
        have here := never 0 (by omega) (by simpa using inRange)
        simp [now] at here
    · rw [if_neg now]
      have later : (∀ k : Nat, k < rounds + 1 → t + 60 * k ≤ maxSeconds →
          e.matchesTime (t + 60 * k) = false) ↔
          ∀ k : Nat, k < rounds → t + 60 + 60 * k ≤ maxSeconds →
            e.matchesTime (t + 60 + 60 * k) = false := by
        constructor
        · intro never k inside fits
          have shifted : t + 60 * ((k + 1 : Nat) : Int) = t + 60 + 60 * k := by
            push_cast
            ring
          have there := never (k + 1) (by omega) (by omega)
          rwa [shifted] at there
        · intro never k inside fits
          cases k with
          | zero => simpa using now
          | succ k =>
            have shifted : t + 60 * ((k + 1 : Nat) : Int) = t + 60 + 60 * k := by
              push_cast
              ring
            rw [shifted] at fits ⊢
            exact never k (by omega) fits
      rw [later, checkedAddMinute]
      by_cases fits : t + 60 ≤ maxSeconds
      · rw [if_pos fits]
        exact ih (by omega) fits
      · -- The clock ends here, so no later minute is left to look at.
        rw [if_neg fits]
        refine iff_of_true rfl fun k _ inside => ?_
        omega

theorem fires_floor {t : Int} (fires : e.Fires t) : e.matchesTime (floorMinute t) := by
  rw [matchesTime_minute (floorMinute_floorMinute t)]
  exact fires.2

theorem onward_eq_none (fields : FieldOk 0 59 e.second) (start : Int) :
    (checkedAddMinute (floorMinute start)).bind (e.search maxSearchMinutes) = none ↔
      ∀ t, floorMinute start + 60 ≤ t → t ≤ horizon start → t ≤ maxSeconds → ¬ e.Fires t := by
  have ends := maxSeconds_minute
  rw [checkedAddMinute]
  by_cases fits : floorMinute start + 60 ≤ maxSeconds
  · rw [if_pos fits, Option.bind_some, search_eq_none fields (by simp only [floorMinute]; omega) fits]
    constructor
    · intro never t after within ofClock fires
      obtain ⟨k, place⟩ : ∃ k : Nat, floorMinute t = floorMinute start + 60 + 60 * k := by
        refine ⟨((floorMinute t - floorMinute start) / 60 - 1).toNat, ?_⟩
        simp only [floorMinute] at *
        omega
      have here := never k (by
        simp only [horizon, maxSearchMinutes, floorMinute] at *
        omega) (by
        simp only [floorMinute] at *
        omega)
      rw [← place, fires_floor fires] at here
      simp at here
    · intro never k inside ofClock
      by_contra now
      rw [Bool.not_eq_false] at now
      obtain ⟨first, rest, shape⟩ := List.exists_cons_of_ne_nil fields.nonempty
      have bound := fields.bounds first (by simp [shape])
      refine never (floorMinute start + 60 + 60 * k + first) (by omega) (by
        simp only [horizon, maxSearchMinutes, floorMinute] at *
        omega) (by
        simp only [floorMinute] at *
        omega) ⟨?_, ?_⟩
      · have second : secondOf (floorMinute start + 60 + 60 * k + first) = first := by
          simp only [secondOf, floorMinute]
          omega
        rw [second, shape]
        simp
      · rw [← now]
        apply matchesTime_minute
        simp only [floorMinute]
        omega
  · rw [if_neg fits]
    refine iff_of_true rfl fun t after _ ofClock => ?_
    omega

theorem next_eq_none (fields : FieldOk 0 59 e.second) {start : DateTime}
    (inRange : start.seconds ≤ maxSeconds) :
    e.next start = none ↔
      ∀ t, start.seconds < t → t ≤ horizon start.seconds → t ≤ maxSeconds → ¬ e.Fires t := by
  have ends := maxSeconds_minute
  have onward := onward_eq_none fields start.seconds
  -- A later second of the starting minute fires if and only if `find?` has one.
  have early : (∀ t, start.seconds < t → t < floorMinute start.seconds + 60 → ¬ e.Fires t) ↔
      e.matchesTime (floorMinute start.seconds) = false ∨
        e.second.find? (fun s => secondOf start.seconds < s) = none := by
    constructor
    · intro never
      by_contra both
      rw [not_or, Bool.not_eq_false] at both
      obtain ⟨s, found⟩ := Option.ne_none_iff_exists'.mp both.2
      have bound := fields.bounds s (List.mem_of_find?_eq_some found)
      have later : secondOf start.seconds < s := by simpa using List.find?_some found
      refine never (floorMinute start.seconds + s) ?_ (by omega) ⟨?_, ?_⟩
      · simp only [secondOf, floorMinute] at *
        omega
      · have second : secondOf (floorMinute start.seconds + s) = s := by
          simp only [secondOf, floorMinute]
          omega
        rw [second]
        exact List.mem_of_find?_eq_some found
      · rw [← both.1]
        apply matchesTime_minute
        simp only [floorMinute]
        omega
    · intro nothing t after before fires
      have sameMinute : floorMinute t = floorMinute start.seconds := by
        simp only [floorMinute] at *
        omega
      rcases nothing with noMatch | noSecond
      · rw [← sameMinute, fires_floor fires] at noMatch
        simp at noMatch
      · have later : ¬ secondOf start.seconds < secondOf t := by
          simpa using List.find?_eq_none.mp noSecond (secondOf t) fires.1
        simp only [secondOf, floorMinute] at *
        omega
  have split : (∀ t, start.seconds < t → t ≤ horizon start.seconds → t ≤ maxSeconds → ¬ e.Fires t) ↔
      (∀ t, start.seconds < t → t < floorMinute start.seconds + 60 → ¬ e.Fires t) ∧
        ∀ t, floorMinute start.seconds + 60 ≤ t → t ≤ horizon start.seconds → t ≤ maxSeconds →
          ¬ e.Fires t := by
    constructor
    · intro never
      refine ⟨fun t after before => never t after ?_ ?_, fun t after => never t ?_⟩
      · simp only [horizon]
        omega
      · simp only [floorMinute] at before
        omega
      · simp only [floorMinute] at after
        omega
    · rintro ⟨first, rest⟩ t after within ofClock
      by_cases same : t < floorMinute start.seconds + 60
      · exact first t after same
      · exact rest t (by omega) within ofClock
  rw [split, early, ← onward, next, Option.map_eq_none_iff]
  by_cases now : e.matchesTime (floorMinute start.seconds)
  · simp only [now, if_true, Bool.true_eq_false, false_or]
    cases found : e.second.find? fun s => secondOf start.seconds < s with
    | none => simp
    | some s =>
      have bound := fields.bounds s (List.mem_of_find?_eq_some found)
      simp [withSecond_eq (show s < 60 by omega)]
  · simp [now]

end Firefly.Scheduling.CronExpr
