import Firefly.Scheduling.CronSearch

set_option autoImplicit false

namespace Firefly.Scheduling.CronExpr

open Calendar

variable {e : CronExpr}

def LeapDayOnly (e : CronExpr) : Prop :=
  isRestricted e.dayOfWeek 0 6 = false ∧
    ∀ month ∈ e.month, ∀ day ∈ e.dayOfMonth, monthLength false month < day

instance (e : CronExpr) : Decidable e.LeapDayOnly := inferInstanceAs (Decidable (_ ∧ _))

theorem exists_time (wellFormed : e.WellFormed) : ∃ time : Int, 0 ≤ time ∧ time < 86400 ∧
    ∀ day : Int, (dateOf day).month ∈ e.month → e.dateMatches day → e.Fires (day * 86400 + time) := by
  obtain ⟨hour, hours, hourShape⟩ := List.exists_cons_of_ne_nil wellFormed.hour.nonempty
  obtain ⟨minute, minutes, minuteShape⟩ := List.exists_cons_of_ne_nil wellFormed.minute.nonempty
  obtain ⟨second, seconds, secondShape⟩ := List.exists_cons_of_ne_nil wellFormed.second.nonempty
  have hourBound := wellFormed.hour.bounds hour (by simp [hourShape])
  have minuteBound := wellFormed.minute.bounds minute (by simp [minuteShape])
  have secondBound := wellFormed.second.bounds second (by simp [secondShape])
  refine ⟨hour * 3600 + minute * 60 + second, by omega, by omega, fun day month date => ?_⟩
  have dayOf : days (day * 86400 + (hour * 3600 + minute * 60 + second)) = day := by
    simp only [days]
    omega
  have hourHere : hourOf (day * 86400 + (hour * 3600 + minute * 60 + second)) = hour := by
    simp only [hourOf]
    omega
  have minuteHere : minuteOf (day * 86400 + (hour * 3600 + minute * 60 + second)) = minute := by
    simp only [minuteOf]
    omega
  have secondHere : secondOf (day * 86400 + (hour * 3600 + minute * 60 + second)) = second := by
    simp only [secondOf]
    omega
  refine ⟨by rw [secondHere, secondShape]; simp, ?_⟩
  rw [matchesTime, dayOf, hourHere, minuteHere]
  simp [month, date, hourShape, minuteShape]

-- A date of the common year comes round within the horizon.
theorem fires_by_date (wellFormed : e.WellFormed) (anyWeekday : isRestricted e.dayOfWeek 0 6 = false)
    {month day : Nat} (inMonth : month ∈ e.month) (inDays : day ∈ e.dayOfMonth)
    (common : (day : Int) ≤ monthLength false month) (start : Int) :
    ∃ t, start < t ∧ t ≤ horizon start ∧ e.Fires t := by
  obtain ⟨time, low, high, fires⟩ := exists_time wellFormed
  have monthBound := wellFormed.month.bounds month inMonth
  have dayBound := wellFormed.dayOfMonth.bounds day inDays
  have valid : ∀ year, Date.Valid ⟨year, month, day⟩ := fun year =>
    ⟨monthBound.1, monthBound.2, dayBound.1,
      common.trans (monthLength_common_le (isLeap year) month).2⟩
  have firesIn : ∀ year, e.Fires (Date.toDays ⟨year, month, day⟩ * 86400 + time) := by
    intro year
    apply fires
    · rw [dateOf_toDays (valid year)]
      exact inMonth
    · have weekday := wellFormed.any_weekday anyWeekday (Date.toDays ⟨year, month, day⟩)
      simp [dateMatches, anyWeekday, dateOf_toDays (valid year), inDays, weekday]
  obtain ⟨begun, ends⟩ := yearOf_spec (days start)
  have thisYear := (valid (yearOf (days start))).within_year
  have nextYear := (valid (yearOf (days start) + 1)).within_year
  have gap : Date.toDays ⟨yearOf (days start) + 1, month, day⟩ ≤
      Date.toDays ⟨yearOf (days start), month, day⟩ + 366 :=
    next_year_le (yearOf (days start)) monthBound.1 monthBound.2
  have bounds := yearStart_bounds (yearOf (days start))
  simp only [days] at *
  by_cases ahead : start < Date.toDays ⟨yearOf (start / 86400), month, day⟩ * 86400 + time
  · refine ⟨_, ahead, ?_, firesIn _⟩
    simp only [horizon, floorMinute]
    omega
  · refine ⟨_, ?_, ?_, firesIn (yearOf (start / 86400) + 1)⟩
    · omega
    · simp only [horizon, floorMinute]
      omega

-- With the weekdays restricted, every weekday of a matching month is within the horizon.
theorem fires_by_weekday (wellFormed : e.WellFormed)
    (someWeekdays : isRestricted e.dayOfWeek 0 6) (start : Int) :
    ∃ t, start < t ∧ t ≤ horizon start ∧ e.Fires t := by
  obtain ⟨time, low, high, fires⟩ := exists_time wellFormed
  obtain ⟨month, months, monthShape⟩ := List.exists_cons_of_ne_nil wellFormed.month.nonempty
  obtain ⟨dow, dows, dowShape⟩ := List.exists_cons_of_ne_nil wellFormed.dayOfWeek.nonempty
  have monthBound := wellFormed.month.bounds month (by simp [monthShape])
  have dowBound := wellFormed.dayOfWeek.bounds dow (by simp [dowShape])
  obtain ⟨week, after, before, inMonth⟩ :=
    week_within_month (days start) monthBound.1 monthBound.2
  -- The day of that week that falls on the wanted weekday.
  have offset : ∃ offset : Int, 0 ≤ offset ∧ offset ≤ 6 ∧ weekday (week + offset) = dow := by
    refine ⟨(dow - (week + 1)) % 7, by omega, by omega, ?_⟩
    simp only [weekday]
    omega
  obtain ⟨offset, first, last, wanted⟩ := offset
  have firesThen : e.Fires ((week + offset) * 86400 + time) := by
    apply fires
    · rw [inMonth offset first last, monthShape]
      simp
    · have listed : weekday (week + offset) ∈ e.dayOfWeek := by
        rw [wanted, dowShape]
        simp
      rw [dateMatches]
      cases someDays : isRestricted e.dayOfMonth 1 31 with
      | true => simp [someWeekdays, listed]
      | false =>
        simp [listed, wellFormed.any_day someDays (week + offset)]
  refine ⟨_, ?_, ?_, firesThen⟩
  · simp only [days] at *
    omega
  · simp only [horizon, floorMinute, days] at *
    omega

theorem fires_within (wellFormed : e.WellFormed) (other : ¬ e.LeapDayOnly) (start : Int) :
    ∃ t, start < t ∧ t ≤ horizon start ∧ e.Fires t := by
  by_cases someWeekdays : isRestricted e.dayOfWeek 0 6
  · exact fires_by_weekday wellFormed someWeekdays start
  · rw [Bool.not_eq_true] at someWeekdays
    simp only [LeapDayOnly, someWeekdays, true_and, not_forall, not_lt] at other
    obtain ⟨month, inMonth, day, inDays, common⟩ := other
    exact fires_by_date wellFormed someWeekdays inMonth inDays common start

theorem LeapDayOnly.leap_year (leapDayOnly : e.LeapDayOnly) {t : Int} (fires : e.Fires t) :
    isLeap (yearOf (days t)) := by
  obtain ⟨anyWeekday, onlyLeap⟩ := leapDayOnly
  obtain ⟨-, matched⟩ := fires
  simp only [matchesTime, dateMatches, anyWeekday, Bool.and_false, Bool.false_eq_true, if_false,
    Bool.and_eq_true, List.contains_eq_mem, decide_eq_true_eq] at matched
  obtain ⟨⟨-, inMonth⟩, inDays, -⟩ := matched
  have tooLong := onlyLeap _ inMonth _ inDays
  have valid := (dateOf_valid (days t)).day_le
  by_contra common
  rw [Bool.not_eq_true] at common
  have sameYear : (dateOf (days t)).year = yearOf (days t) := rfl
  rw [sameYear, common] at valid
  omega

def LeapDayFar (e : CronExpr) (now : DateTime) : Prop :=
  e.LeapDayOnly ∧ (∃ t, now.seconds < t ∧ t ≤ maxSeconds ∧ e.Fires t) ∧
    ∀ t, now.seconds < t → t ≤ horizon now.seconds → ¬ e.Fires t

theorem never_again_iff {text : String} (parsed : parseCron text = .ok e) {now : DateTime}
    (inRange : now.seconds ≤ maxSeconds) :
    (CronTrigger.next ⟨e⟩ now = none → ∀ t, now.seconds < t → t ≤ maxSeconds → ¬ e.Fires t) ↔
      ¬ e.LeapDayFar now := by
  have wellFormed := parseCron_wellFormed parsed
  rw [CronTrigger.next, next_eq_none wellFormed.second inRange]
  constructor
  · rintro contract ⟨-, ⟨t, after, ofClock, fires⟩, never⟩
    exact contract (fun t after within _ => never t after within) t after ofClock fires
  · intro near never t after ofClock fires
    have beyond : horizon now.seconds < t := by
      by_contra within
      exact never t after (by omega) ofClock fires
    refine near ⟨?_, ⟨t, after, ofClock, fires⟩, fun t after within =>
      never t after within (by omega)⟩
    by_contra other
    obtain ⟨soon, soonAfter, within, soonFires⟩ := fires_within wellFormed other now.seconds
    exact never soon soonAfter within (by omega) soonFires

def midnight (year : Int) (month day : Nat) : Int := Date.toDays ⟨year, month, day⟩ * 86400

theorem mondays_never_dry_up : ∃ e, parseCron "0 9 15 * 1" = .ok e ∧
    (CronTrigger.next ⟨e⟩ ⟨midnight 2026 1 1, 0⟩ = none →
      ∀ t, midnight 2026 1 1 < t → t ≤ maxSeconds → ¬ e.Fires t) := by
  have parsed : parseCron "0 9 15 * 1" =
      .ok ⟨[0], [0], [9], [15], List.range' 1 12, [1]⟩ := by decide
  exact ⟨_, parsed, (never_again_iff parsed (by decide)).mpr fun far => absurd far.1 (by decide)⟩

theorem leap_days_given_up : ∃ e, parseCron "0 0 29 2 *" = .ok e ∧
    CronTrigger.next ⟨e⟩ ⟨midnight 2026 1 1, 0⟩ = none ∧
    midnight 2026 1 1 < midnight 2028 2 29 ∧ midnight 2028 2 29 ≤ maxSeconds ∧
    e.Fires (midnight 2028 2 29) := by
  refine ⟨⟨[0], [0], [0], [29], [2], List.range 7⟩, by decide, ?_, by decide, by decide, by decide⟩
  rw [CronTrigger.next, next_eq_none ⟨by simp, by simp, by simp⟩ (by decide)]
  intro t after within _ fires
  have leap : isLeap (yearOf (days t)) := LeapDayOnly.leap_year (by decide) fires
  -- Up to the horizon it is 2026 or 2027.
  obtain ⟨begun, ends⟩ := yearOf_spec (days t)
  have from2026 : yearStart 2026 ≤ days t := by
    have start : midnight 2026 1 1 = yearStart 2026 * 86400 := by decide
    simp only [days, start] at *
    omega
  have before2028 : days t < yearStart 2028 := by
    have last : horizon (midnight 2026 1 1) < yearStart 2028 * 86400 := by decide
    simp only [days] at *
    omega
  have year : yearOf (days t) = 2026 ∨ yearOf (days t) = 2027 := by
    by_contra other
    rcases lt_or_ge (yearOf (days t)) 2026 with earlier | later
    · have := yearStart_mono (show yearOf (days t) + 1 ≤ 2026 by omega)
      omega
    · have := yearStart_mono (show 2028 ≤ yearOf (days t) by omega)
      omega
  rcases year with year | year
  · rw [year] at leap
    exact absurd leap (by decide)
  · rw [year] at leap
    exact absurd leap (by decide)

end Firefly.Scheduling.CronExpr
