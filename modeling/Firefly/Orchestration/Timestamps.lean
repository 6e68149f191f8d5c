import Firefly.Shared.Calendar
import Firefly.Shared.Decimal

set_option autoImplicit false

namespace Firefly.Orchestration

open Calendar Decimal

/-- An instant of the years 0000 to 9999: the seconds since 0001-01-01 and the nanoseconds. In a leap
second the nanoseconds of the second 59 go on. -/
structure Timestamp where
  seconds : Int
  nanosecond : Nat
  first : yearStart 0 * 86400 ≤ seconds
  last : seconds < yearStart 10000 * 86400
  leap : nanosecond < 10 ^ 9 ∨ nanosecond < 2 * 10 ^ 9 ∧ seconds % 60 = 59
deriving DecidableEq

namespace Timestamp

instance : LinearOrder Timestamp :=
  LinearOrder.lift' (fun ts => toLex (ts.seconds, ts.nanosecond)) fun a b same => by
    cases a
    cases b
    simpa using same

theorem lt_iff {a b : Timestamp} :
    a < b ↔ a.seconds < b.seconds ∨ a.seconds = b.seconds ∧ a.nanosecond < b.nanosecond :=
  Prod.Lex.toLex_lt_toLex

def date (ts : Timestamp) : Date := dateOf (ts.seconds / 86400)

def time (ts : Timestamp) : Nat := (ts.seconds % 86400).toNat

end Timestamp

def encodeTs (ts : Timestamp) : String :=
  String.ofList (padded 4 ts.date.year.toNat ++ '-' :: (padded 2 ts.date.month ++ '-' ::
    (padded 2 ts.date.day ++ 'T' :: (padded 2 (ts.time / 3600) ++ ':' ::
      (padded 2 (ts.time / 60 % 60) ++ ':' :: (padded 2 (ts.time % 60 + ts.nanosecond / 10 ^ 9) ++
        '.' :: (padded 9 (ts.nanosecond % 10 ^ 9) ++ "+00:00".toList)))))))

namespace Timestamp

def fields (ts : Timestamp) : List Field :=
  [⟨4, ts.date.year.toNat, ['-']⟩, ⟨2, ts.date.month, ['-']⟩, ⟨2, ts.date.day, ['T']⟩,
    ⟨2, ts.time / 3600, [':']⟩, ⟨2, ts.time / 60 % 60, [':']⟩,
    ⟨2, ts.time % 60 + ts.nanosecond / 10 ^ 9, ['.']⟩,
    ⟨9, ts.nanosecond % 10 ^ 9, "+00:00".toList⟩]

theorem encodeTs_toList (ts : Timestamp) : (encodeTs ts).toList = row ts.fields := by
  simp [encodeTs, row, fields]

theorem year_bounds (ts : Timestamp) : 0 ≤ ts.date.year ∧ ts.date.year < 10000 := by
  obtain ⟨low, high⟩ := yearOf_spec (ts.seconds / 86400)
  have first := ts.first
  have last := ts.last
  have year : ts.date.year = yearOf (ts.seconds / 86400) := rfl
  rw [year]
  constructor
  · by_contra before
    have order := yearStart_mono (show yearOf (ts.seconds / 86400) + 1 ≤ 0 by omega)
    omega
  · by_contra after
    have order := yearStart_mono (show 10000 ≤ yearOf (ts.seconds / 86400) by omega)
    omega

theorem time_lt (ts : Timestamp) : ts.time < 86400 := by
  rw [time]
  omega

theorem fields_fit (ts : Timestamp) : ∀ field ∈ ts.fields, field.Fits := by
  have year := ts.year_bounds
  have time := ts.time_lt
  have date : ts.date.Valid := dateOf_valid _
  have month := date.month_le
  have day := date.day_le
  have longest : monthLength (isLeap ts.date.year) ts.date.month ≤ 31 := by
    simp only [monthLength]
    split <;> (try split) <;> omega
  have leap := ts.leap
  simp only [fields, List.forall_mem_cons, Field.Fits]
  refine ⟨⟨by omega, by omega⟩, ⟨by omega, by omega⟩, ⟨by omega, by omega⟩, ⟨by omega, by omega⟩,
    ⟨by omega, by omega⟩, ⟨by omega, by omega⟩, ⟨by omega, by omega⟩, by simp⟩

-- The numbers of the text from left to right are compared as the instants are.
theorem fields_lt {a b : Timestamp} (before : a < b) :
    a.fields.map Field.number < b.fields.map Field.number := by
  have year := a.year_bounds
  have year' := b.year_bounds
  have leap := a.leap
  have leap' := b.leap
  rw [lt_iff] at before
  simp only [fields, List.map_cons, List.map_nil, List.cons_lt_cons_iff]
  rcases lt_or_eq_of_le (show a.seconds / 86400 ≤ b.seconds / 86400 by omega) with earlier | sameDay
  · rcases dateOf_before earlier with years | ⟨years, months | ⟨months, days⟩⟩
    · left
      simp only [date] at year ⊢
      omega
    · refine .inr ⟨congrArg Int.toNat years, .inl months⟩
    · refine .inr ⟨congrArg Int.toNat years, .inr ⟨months, .inl days⟩⟩
  · have dates : a.date = b.date := congrArg dateOf sameDay
    rw [dates]
    refine .inr ⟨rfl, .inr ⟨rfl, .inr ⟨rfl, ?_⟩⟩⟩
    simp only [time, List.not_lt_nil, and_false, or_false]
    omega

theorem encodeTs_lt_iff {a b : Timestamp} : encodeTs a < encodeTs b ↔ a < b := by
  have texts (a b : Timestamp) :
      encodeTs a < encodeTs b ↔ a.fields.map Field.number < b.fields.map Field.number := by
    rw [String.lt_iff_toList_lt, encodeTs_toList, encodeTs_toList]
    exact row_lt_iff a.fields_fit b.fields_fit rfl
  constructor
  · intro less
    by_contra after
    rcases eq_or_lt_of_le (not_lt.mp after) with rfl | later
    · exact lt_irrefl _ less
    · exact lt_asymm ((texts a b).mp less) (fields_lt later)
  · intro before
    exact (texts a b).mpr (fields_lt before)

def layout : List (Nat × Nat) := [(4, 1), (2, 1), (2, 1), (2, 1), (2, 1), (2, 1), (9, 6)]

def read (text : String) : Except String Timestamp :=
  match readRow layout text.toList with
  | [year, month, day, hour, minute, second, nanos] =>
    let seconds := Date.toDays ⟨year, month, day⟩ * 86400 + hour * 3600 + minute * 60 + min second 59
    let nanosecond := if second = 60 then nanos + 10 ^ 9 else nanos
    if bounds : (yearStart 0 * 86400 ≤ seconds ∧ seconds < yearStart 10000 * 86400) ∧
        (nanosecond < 10 ^ 9 ∨ nanosecond < 2 * 10 ^ 9 ∧ seconds % 60 = 59) then
      .ok ⟨seconds, nanosecond, bounds.1.1, bounds.1.2, bounds.2⟩
    else .error "input is out of range"
  | _ => .error "premature end of input"

theorem read_encodeTs (ts : Timestamp) : read (encodeTs ts) = .ok ts := by
  have numbers : readRow layout (encodeTs ts).toList = ts.fields.map Field.number := by
    rw [encodeTs_toList]
    exact readRow_row ts.fields_fit
  have year := ts.year_bounds
  have leap := ts.leap
  have day : Date.toDays ⟨ts.date.year.toNat, ts.date.month, ts.date.day⟩ = ts.seconds / 86400 := by
    rw [Int.toNat_of_nonneg year.1]
    exact toDays_dateOf _
  have seconds : Date.toDays ⟨ts.date.year.toNat, ts.date.month, ts.date.day⟩ * 86400 +
      (ts.time / 3600 : Nat) * 3600 + (ts.time / 60 % 60 : Nat) * 60 +
      min (ts.time % 60 + ts.nanosecond / 10 ^ 9 : Nat) 59 = ts.seconds := by
    rw [day, time]
    omega
  have nanosecond : (if ts.time % 60 + ts.nanosecond / 10 ^ 9 = 60 then
      ts.nanosecond % 10 ^ 9 + 10 ^ 9 else ts.nanosecond % 10 ^ 9) = ts.nanosecond := by
    rw [time]
    split <;> omega
  rw [read, numbers]
  simp only [fields, List.map_cons, List.map_nil]
  simp only [seconds, nanosecond, ts.first, ts.last, ts.leap, and_self, dite_true]

end Timestamp

end Firefly.Orchestration
