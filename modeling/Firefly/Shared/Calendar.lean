import Mathlib

set_option autoImplicit false

/-!
# The proleptic Gregorian calendar

Days are counted from 0001-01-01, which is day 0 and a Monday.
-/

namespace Firefly.Calendar

def isLeap (year : Int) : Bool := year % 4 = 0 && (year % 100 ≠ 0 || year % 400 = 0)

def yearStart (year : Int) : Int :=
  365 * (year - 1) + (year - 1) / 4 - (year - 1) / 100 + (year - 1) / 400

def monthLength (leap : Bool) : Nat → Int
  | 2 => if leap then 29 else 28
  | 4 | 6 | 9 | 11 => 30
  | _ => 31

def monthStart (leap : Bool) (month : Nat) : Int :=
  let february : Int := if leap then 1 else 0
  match month with
  | 2 => 31
  | 3 => 59 + february
  | 4 => 90 + february
  | 5 => 120 + february
  | 6 => 151 + february
  | 7 => 181 + february
  | 8 => 212 + february
  | 9 => 243 + february
  | 10 => 273 + february
  | 11 => 304 + february
  | 12 => 334 + february
  | _ => 0

structure Date where
  year : Int
  month : Nat
  day : Nat
deriving DecidableEq

structure Date.Valid (date : Date) : Prop where
  month_pos : 1 ≤ date.month
  month_le : date.month ≤ 12
  day_pos : 1 ≤ date.day
  day_le : (date.day : Int) ≤ monthLength (isLeap date.year) date.month

def Date.toDays (date : Date) : Int :=
  yearStart date.year + monthStart (isLeap date.year) date.month + (date.day - 1)

def yearOf (days : Int) : Int :=
  let estimate := 400 * days / 146097 + 1
  if days < yearStart estimate then estimate - 1
  else if yearStart (estimate + 1) ≤ days then estimate + 1
  else estimate

def monthUpTo (leap : Bool) (dayOfYear : Int) : Nat → Nat
  | 0 => 1
  | month + 1 =>
    if monthStart leap (month + 1) ≤ dayOfYear then month + 1
    else monthUpTo leap dayOfYear month

def monthOf (leap : Bool) (dayOfYear : Int) : Nat := monthUpTo leap dayOfYear 12

def dateOf (days : Int) : Date :=
  let year := yearOf days
  let leap := isLeap year
  let dayOfYear := days - yearStart year
  let month := monthOf leap dayOfYear
  { year := year, month := month, day := (dayOfYear - monthStart leap month + 1).toNat }

def weekday (days : Int) : Nat := ((days + 1) % 7).toNat

example : dateOf 739675 = ⟨2026, 3, 1⟩ ∧ weekday 739675 = 0 := by decide

def yearLength (leap : Bool) : Int := if leap then 366 else 365

theorem yearStart_succ (year : Int) :
    yearStart (year + 1) = yearStart year + yearLength (isLeap year) := by
  by_cases leap : isLeap year
  · simp only [yearLength, leap, if_true, yearStart]
    simp only [isLeap, Bool.and_eq_true, Bool.or_eq_true, decide_eq_true_eq] at leap
    omega
  · simp only [yearLength, leap, yearStart]
    simp only [isLeap, Bool.and_eq_true, Bool.or_eq_true, decide_eq_true_eq] at leap
    simp only [Bool.false_eq_true, if_false]
    omega

theorem yearStart_bounds (year : Int) :
    yearStart year + 365 ≤ yearStart (year + 1) ∧ yearStart (year + 1) ≤ yearStart year + 366 := by
  rw [yearStart_succ, yearLength]
  split <;> omega

theorem yearStart_mono {first second : Int} (before : first ≤ second) :
    yearStart first ≤ yearStart second := by
  simp only [yearStart]
  omega

theorem yearOf_spec (days : Int) :
    yearStart (yearOf days) ≤ days ∧ days < yearStart (yearOf days + 1) := by
  simp only [yearOf]
  split
  · rename_i low
    refine ⟨?_, by simpa using low⟩
    simp only [yearStart]
    omega
  · split
    · rename_i high
      refine ⟨high, ?_⟩
      simp only [yearStart]
      omega
    · omega

theorem yearOf_eq {days year : Int} (start : yearStart year ≤ days)
    (before : days < yearStart (year + 1)) : yearOf days = year := by
  obtain ⟨low, high⟩ := yearOf_spec days
  rcases lt_trichotomy (yearOf days) year with earlier | same | later
  · have := yearStart_mono (show yearOf days + 1 ≤ year by omega)
    omega
  · exact same
  · have := yearStart_mono (show year + 1 ≤ yearOf days by omega)
    omega

theorem monthStart_succ (leap : Bool) {month : Nat} (first : 1 ≤ month) (last : month < 12) :
    monthStart leap (month + 1) = monthStart leap month + monthLength leap month := by
  cases leap <;> interval_cases month <;> rfl

theorem monthStart_mono (leap : Bool) {first second : Nat} (inYear : 1 ≤ first)
    (before : first < second) (last : second ≤ 12) :
    monthStart leap first + monthLength leap first ≤ monthStart leap second := by
  induction second, before using Nat.le_induction with
  | base => exact le_of_eq (monthStart_succ leap inYear (by omega)).symm
  | succ second later ih =>
    have step := monthStart_succ leap (show 1 ≤ second by omega) (by omega)
    have grown : 28 ≤ monthLength leap second := by
      simp only [monthLength]
      split <;> (try split) <;> omega
    have tail := ih (by omega)
    omega

theorem monthUpTo_spec {leap : Bool} {dayOfYear : Int} (start : 0 ≤ dayOfYear) {month : Nat}
    (first : 1 ≤ month) (last : month ≤ 12)
    (before : dayOfYear < monthStart leap month + monthLength leap month) :
    1 ≤ monthUpTo leap dayOfYear month ∧ monthUpTo leap dayOfYear month ≤ 12 ∧
      monthStart leap (monthUpTo leap dayOfYear month) ≤ dayOfYear ∧
      dayOfYear < monthStart leap (monthUpTo leap dayOfYear month) +
        monthLength leap (monthUpTo leap dayOfYear month) := by
  induction month with
  | zero => omega
  | succ month ih =>
    rw [monthUpTo]
    split
    · rename_i started
      exact ⟨first, last, started, before⟩
    · rename_i later
      have positive : 1 ≤ month := by
        by_contra zero
        obtain rfl : month = 0 := by omega
        simp [monthStart] at later
        omega
      exact ih positive (by omega) (by rw [← monthStart_succ leap positive (by omega)]; omega)

theorem monthOf_eq {leap : Bool} {dayOfYear : Int} {month : Nat} (first : 1 ≤ month)
    (last : month ≤ 12) (started : monthStart leap month ≤ dayOfYear)
    (before : dayOfYear < monthStart leap month + monthLength leap month)
    (start : 0 ≤ dayOfYear) : monthOf leap dayOfYear = month := by
  have whole : dayOfYear < monthStart leap 12 + monthLength leap 12 := by
    rcases eq_or_lt_of_le last with rfl | earlier
    · exact before
    · have := monthStart_mono leap first earlier le_rfl
      have positive : 0 ≤ monthLength leap 12 := by simp [monthLength]
      omega
  obtain ⟨low, high, begun, ends⟩ := monthUpTo_spec start (by omega) le_rfl whole
  rw [← monthOf] at low high begun ends
  rcases lt_trichotomy (monthOf leap dayOfYear) month with earlier | same | later
  · have := monthStart_mono leap low earlier last
    omega
  · exact same
  · have := monthStart_mono leap first later high
    omega

theorem monthStart_nonneg (leap : Bool) {month : Nat} (first : 1 ≤ month) (last : month ≤ 12) :
    0 ≤ monthStart leap month := by
  cases leap <;> interval_cases month <;> decide

theorem month_within_year (leap : Bool) {month : Nat} (first : 1 ≤ month) (last : month ≤ 12) :
    monthStart leap month + monthLength leap month ≤ yearLength leap := by
  cases leap <;> interval_cases month <;> decide

theorem Date.Valid.within_year {date : Date} (valid : date.Valid) :
    yearStart date.year ≤ date.toDays ∧ date.toDays < yearStart (date.year + 1) := by
  have start := monthStart_nonneg (isLeap date.year) valid.month_pos valid.month_le
  have ends := month_within_year (isLeap date.year) valid.month_pos valid.month_le
  have := valid.day_le
  have := valid.day_pos
  rw [yearStart_succ, Date.toDays]
  omega

theorem dateOf_toDays {date : Date} (valid : date.Valid) : dateOf date.toDays = date := by
  obtain ⟨low, high⟩ := valid.within_year
  have year := yearOf_eq low high
  have := valid.day_le
  have := valid.day_pos
  have month : monthOf (isLeap date.year) (date.toDays - yearStart date.year) = date.month := by
    apply monthOf_eq valid.month_pos valid.month_le
    · rw [Date.toDays]
      omega
    · rw [Date.toDays]
      omega
    · omega
  have day : (date.toDays - yearStart date.year - monthStart (isLeap date.year) date.month +
      1).toNat = date.day := by
    rw [Date.toDays]
    omega
  simp only [dateOf, year, month, day]

theorem dateOf_valid (days : Int) : (dateOf days).Valid := by
  obtain ⟨low, high⟩ := yearOf_spec days
  rw [yearStart_succ] at high
  have whole : days - yearStart (yearOf days) <
      monthStart (isLeap (yearOf days)) 12 + monthLength (isLeap (yearOf days)) 12 := by
    have year : monthStart (isLeap (yearOf days)) 12 + monthLength (isLeap (yearOf days)) 12 =
        yearLength (isLeap (yearOf days)) := by
      cases isLeap (yearOf days) <;> rfl
    omega
  obtain ⟨first, last, started, before⟩ :=
    monthUpTo_spec (show 0 ≤ days - yearStart (yearOf days) by omega) (by omega) le_rfl whole
  refine ⟨first, last, ?_, ?_⟩
  · simp only [dateOf, monthOf]
    omega
  · simp only [dateOf, monthOf]
    omega

theorem toDays_dateOf (days : Int) : (dateOf days).toDays = days := by
  have valid := dateOf_valid days
  have positive := valid.day_pos
  simp only [dateOf, Date.toDays] at positive ⊢
  omega

def Date.Before (first second : Date) : Prop :=
  first.year < second.year ∨ first.year = second.year ∧
    (first.month < second.month ∨ first.month = second.month ∧ first.day < second.day)

theorem Date.Valid.toDays_lt {first second : Date} (valid : first.Valid) (valid' : second.Valid)
    (before : first.Before second) : first.toDays < second.toDays := by
  have day_le := valid.day_le
  have day_pos := valid'.day_pos
  rcases before with year | ⟨year, month | ⟨month, day⟩⟩
  · have here := valid.within_year
    have there := valid'.within_year
    have order := yearStart_mono (show first.year + 1 ≤ second.year by omega)
    omega
  · have order := monthStart_mono (isLeap first.year) valid.month_pos month valid'.month_le
    rw [toDays, toDays, ← year]
    omega
  · rw [toDays, toDays, ← year, ← month]
    omega

theorem dateOf_before {first second : Int} (before : first < second) :
    (dateOf first).Before (dateOf second) := by
  by_contra after
  have behind : (dateOf second).Before (dateOf first) ∨ dateOf second = dateOf first := by
    cases there : dateOf second
    cases here : dateOf first
    simp only [here, there, Date.Before, Date.mk.injEq] at after ⊢
    omega
  rcases behind with earlier | same
  · have order := (dateOf_valid second).toDays_lt (dateOf_valid first) earlier
    rw [toDays_dateOf, toDays_dateOf] at order
    omega
  · have equal := congrArg Date.toDays same
    rw [toDays_dateOf, toDays_dateOf] at equal
    omega

theorem next_year_le (year : Int) {month day : Nat} (first : 1 ≤ month) (last : month ≤ 12) :
    Date.toDays ⟨year + 1, month, day⟩ ≤ Date.toDays ⟨year, month, day⟩ + 366 := by
  have starts : ∀ leap other : Bool, monthStart leap month ≤ monthStart other month +
      (366 - yearLength other) := by
    intro leap other
    cases leap <;> cases other <;> interval_cases month <;> decide
  have here := starts (isLeap (year + 1)) (isLeap year)
  simp only [Date.toDays, yearStart_succ]
  omega

theorem monthLength_common_le (leap : Bool) (month : Nat) :
    28 ≤ monthLength false month ∧ monthLength false month ≤ monthLength leap month := by
  simp only [monthLength]
  split <;> cases leap <;> simp

theorem month_of_early (year : Int) {month : Nat} (first : 1 ≤ month) (last : month ≤ 12)
    {offset : Int} (low : 0 ≤ offset) (high : offset ≤ 27) :
    (dateOf (Date.toDays ⟨year, month, 1⟩ + offset)).month = month := by
  have lengths := monthLength_common_le (isLeap year) month
  have valid : Date.Valid ⟨year, month, offset.toNat + 1⟩ :=
    ⟨first, last, by simp, by simp only; omega⟩
  have place : Date.toDays ⟨year, month, 1⟩ + offset =
      Date.toDays ⟨year, month, offset.toNat + 1⟩ := by
    simp only [Date.toDays]
    omega
  rw [place, dateOf_toDays valid]

theorem week_within_month (start : Int) {month : Nat} (first : 1 ≤ month) (last : month ≤ 12) :
    ∃ week, start < week ∧ week + 6 ≤ start + 365 ∧
      ∀ offset : Int, 0 ≤ offset → offset ≤ 6 → (dateOf (week + offset)).month = month := by
  obtain ⟨low, high⟩ := yearOf_spec start
  have year := yearStart_bounds (yearOf start)
  have begins (y : Int) := monthStart_nonneg (isLeap y) first last
  have ends (y : Int) := month_within_year (isLeap y) first last
  have lengths (y : Int) := monthLength_common_le (isLeap y) month
  have here := begins (yearOf start)
  have within := ends (yearOf start)
  have long := lengths (yearOf start)
  have step := yearStart_succ (yearOf start)
  by_cases ahead : start < Date.toDays ⟨yearOf start, month, 1⟩
  · refine ⟨Date.toDays ⟨yearOf start, month, 1⟩, ahead, ?_, fun offset low high =>
      month_of_early _ first last low (by omega)⟩
    simp only [Date.toDays] at *
    omega
  · have later : Date.toDays ⟨yearOf start + 1, month, 1⟩ ≤
        Date.toDays ⟨yearOf start, month, 1⟩ + 366 := next_year_le (yearOf start) first last
    have after := begins (yearOf start + 1)
    by_cases soon : Date.toDays ⟨yearOf start + 1, month, 1⟩ + 6 ≤ start + 365
    · refine ⟨Date.toDays ⟨yearOf start + 1, month, 1⟩, ?_, soon, fun offset low high =>
        month_of_early _ first last low (by omega)⟩
      simp only [Date.toDays] at *
      omega
    · -- The month of next year is too far off because that of this year has only begun.
      refine ⟨start + 1, by omega, by omega, fun offset low high => ?_⟩
      have inside := month_of_early (yearOf start) first last
        (show 0 ≤ start + 1 + offset - Date.toDays ⟨yearOf start, month, 1⟩ by omega)
        (by omega)
      rwa [add_sub_cancel] at inside

end Firefly.Calendar
