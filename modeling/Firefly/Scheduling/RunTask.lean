import Firefly.Scheduling.Zones
import Firefly.Shared.Usize

set_option autoImplicit false

namespace Firefly.Scheduling

open Calendar

def DateTime.nanos (t : DateTime) : Int := t.seconds * 1000000000 + t.nanosecond

def DateTime.ofNanos (t : Int) : DateTime := ⟨t / 1000000000, (t % 1000000000).toNat⟩

def checkedAddSigned (t : Int) (nanos : Int) : Option Int :=
  if OnClock ((t + nanos) / 1000000000) then some (t + nanos) else none

/-- The period is in nanoseconds. -/
structure FixedRateTrigger where
  start : Int
  period : Nat

def maxI64 : Int := 2 ^ 63 - 1

def toI64 (n : Int) : Option Int := if -(2 ^ 63) ≤ n ∧ n ≤ maxI64 then some n else none

-- The `i64` addition `elapsed / period + 1`; `none` is the panic of a debug build.
def stepsAfter (build : Build) (quotient : Int) : Option Int :=
  if quotient < maxI64 then some (quotient + 1)
  else if build = .debug then none else some (-(2 ^ 63))

def FixedRateTrigger.next (trigger : FixedRateTrigger) (build : Build) (now : Int) : Option Int :=
  if trigger.period = 0 then checkedAddSigned now 1000000000
  else if now < trigger.start then some trigger.start
  else do
    let elapsed ← toI64 (now - trigger.start)
    let period ← toI64 trigger.period
    let steps ← stepsAfter build (elapsed / period)
    let product ← toI64 (steps * period)
    checkedAddSigned trigger.start product

inductive Trigger where
  | cron (expr : CronExpr) (zone : Zone)
  | fixedRate (trigger : FixedRateTrigger)

def Trigger.next (build : Build) : Trigger → Int → Option Int
  | .cron expr zone, now => (expr.nextIn zone (.ofNanos now)).map DateTime.nanos
  | .fixedRate trigger, now => trigger.next build now

def invoked (build : Build) (trigger : Trigger) : List Int → List Int
  | [] => []
  | now :: later =>
    match trigger.next build now with
    | none => []
    | some next => next :: invoked build trigger later

structure Zone.WholeMinutes (z : Zone) (since : Int) : Prop where
  whole : ∀ t, since ≤ t → z.offset t % 60 = 0
  steady : ∀ t, since ≤ floorMinute t → z.offset t = z.offset (floorMinute t)

namespace CronExpr

variable {e : CronExpr} {z : Zone} {since : Int}

theorem localTime_minute (minutes : z.WholeMinutes since) {m : Int} {s : Nat} (late : since ≤ m)
    (onMinute : m % 60 = 0) (inMinute : s < 60) :
    z.localTime (m + s) = z.localTime m + s ∧ z.localTime m % 60 = 0 := by
  have floor := (floorMinute_add onMinute inMinute).1
  have same := minutes.steady (m + s) (by rwa [floor])
  rw [floor] at same
  have whole := minutes.whole m late
  simp only [Zone.localTime, same]
  omega

theorem fires_local (minutes : z.WholeMinutes since) {m : Int} {s : Nat} (late : since ≤ m)
    (onMinute : m % 60 = 0) (inMinute : s < 60) :
    e.Fires (z.localTime (m + s)) ↔ s ∈ e.second ∧ e.matchesTime (z.localTime m) := by
  obtain ⟨split, aligned⟩ := localTime_minute minutes late onMinute inMinute
  rw [split, fires_iff aligned inMinute]

theorem nextIn_least (fields : FieldOk 0 59 e.second) (minutes : z.WholeMinutes since)
    {start r : DateTime} (late : since ≤ floorMinute start.seconds) (found : e.nextIn z start = some r) :
    r.nanosecond = 0 ∧ IsLeast {u | start.seconds < u ∧ e.Fires (z.localTime u)} r.seconds := by
  obtain ⟨whole, floor, l, names, arrives, named⟩ := (nextIn_iff fields).mp found
  refine ⟨whole, ?_⟩
  have onMinute : floorMinute start.seconds % 60 = 0 := by
    simp only [floorMinute]
    omega
  have split := minute_second start.seconds
  have inMinute : secondOf start.seconds < 60 := by
    simp only [secondOf]
    omega
  obtain ⟨shown, aligned⟩ := localTime_minute minutes late onMinute inMinute
  rw [← split] at shown
  have localFloor : floorMinute (z.localTime start.seconds) = z.localTime (floorMinute start.seconds) := by
    rw [shown]
    exact (floorMinute_add aligned inMinute).1
  have localSecond : secondOf (z.localTime start.seconds) = secondOf start.seconds := by
    rw [shown]
    exact (floorMinute_add aligned inMinute).2
  have matched : e.matchesTime (z.localTime start.seconds) =
      e.matchesTime (z.localTime (floorMinute start.seconds)) :=
    matchesTime_minute (by rw [localFloor, ← localFloor, floorMinute_floorMinute])
  obtain rfl : floorMinute start.seconds = floor := (names.2 _).mp localFloor.symm
  -- What fires is a listed second of a minute that matches.
  have parts : ∀ u, start.seconds < u → e.Fires (z.localTime u) → u = floorMinute u + secondOf u ∧
      secondOf u ∈ e.second ∧ e.matchesTime (z.localTime (floorMinute u)) := by
    intro u after fires
    have place := minute_second u
    have bounded : secondOf u < 60 := by
      simp only [secondOf]
      omega
    have lateToo : since ≤ floorMinute u := by
      simp only [floorMinute] at *
      omega
    rw [place, fires_local minutes lateToo (by simp only [floorMinute]; omega) bounded] at fires
    exact ⟨place, fires.1, fires.2⟩
  cases arrives with
  | @own s here member later least =>
    have bound := fields.bounds s member
    obtain ⟨shows, -⟩ := localTime_minute minutes late onMinute (show s < 60 by omega)
    have place : floorMinute start.seconds + s = r.seconds := by
      refine (named.2 _).mp ?_
      rw [localFloor]
      exact shows
    rw [← place]
    rw [localSecond] at later least
    refine ⟨⟨by omega, (fires_local minutes late onMinute (by omega)).mpr ⟨member, matched ▸ here⟩⟩, ?_⟩
    rintro u ⟨after, fires⟩
    obtain ⟨place, listed, -⟩ := parts u after fires
    by_cases soon : floorMinute u = floorMinute start.seconds
    · have later := least _ listed (by omega)
      omega
    · simp only [floorMinute] at *
      omega
  | @later k s none_ one rounds ofClock here before member least =>
    have bound := fields.bounds s member
    have gridMinute : (floorMinute start.seconds + 60 * k) % 60 = 0 := by omega
    have gridLate : since ≤ floorMinute start.seconds + 60 * k := by omega
    obtain ⟨shows, grid⟩ := localTime_minute minutes gridLate gridMinute (show s < 60 by omega)
    have place : floorMinute start.seconds + 60 * k + s = r.seconds := by
      refine (named.2 _).mp ?_
      have same : floorMinute (z.localTime (floorMinute start.seconds + 60 * k)) =
          z.localTime (floorMinute start.seconds + 60 * k) := by
        simp only [floorMinute] at grid ⊢
        omega
      rw [same]
      exact shows
    rw [← place]
    refine ⟨⟨by omega, (fires_local minutes gridLate gridMinute (by omega)).mpr ⟨member, here⟩⟩, ?_⟩
    rintro u ⟨after, fires⟩
    obtain ⟨place, listed, match_⟩ := parts u after fires
    -- The minute of `u` is not before the one found.
    obtain ⟨j, grid_⟩ : ∃ j : Nat, floorMinute u = floorMinute start.seconds + 60 * j := by
      refine ⟨((floorMinute u - floorMinute start.seconds) / 60).toNat, ?_⟩
      simp only [floorMinute] at *
      omega
    have order : k ≤ j := by
      by_contra early
      cases j with
      | zero =>
        rw [Nat.cast_zero, mul_zero, add_zero] at grid_
        rw [grid_] at match_
        have nothing := none_ (matched.trans match_) _ listed
        omega
      | succ j =>
        have rejected := before (j + 1) (by omega) (by omega)
        rw [← grid_, match_] at rejected
        cases rejected
    rcases Nat.eq_or_lt_of_le order with rfl | later
    · have first := least _ listed
      omega
    · omega

end CronExpr

def Trigger.Due : Trigger → Int → Prop
  | .cron expr zone, t => ∃ u, t = u * 1000000000 ∧ expr.Fires (zone.localTime u)
  | .fixedRate trigger, t => trigger.period = 0 ∨ ∃ k : Nat, t = trigger.start + k * trigger.period

def Trigger.Wraps (build : Build) : Trigger → Int → Prop
  | .cron _ _, _ => False
  | .fixedRate trigger, now => build = .release ∧ trigger.period = 1 ∧ now - trigger.start = maxI64

def Trigger.Valid (since : Int) : Trigger → Prop
  | .cron expr zone => (∃ text, parseCron text = .ok expr) ∧
    zone.WholeMinutes (floorMinute (since / 1000000000))
  | .fixedRate _ => True

variable {build : Build} {since now later next : Int}

theorem cron_next {expr : CronExpr} {zone : Zone} (valid : (Trigger.cron expr zone).Valid since)
    (late : since ≤ now) (found : (Trigger.cron expr zone).next build now = some next) :
    IsLeast {u | now < u ∧ (Trigger.cron expr zone).Due u} next := by
  obtain ⟨⟨text, parsed⟩, minutes⟩ := valid
  rw [Trigger.next, Option.map_eq_some_iff] at found
  obtain ⟨r, found, rfl⟩ := found
  have begun : floorMinute (since / 1000000000) ≤ floorMinute (now / 1000000000) := by
    simp only [floorMinute]
    omega
  obtain ⟨whole, ⟨after, fires⟩, least⟩ :=
    CronExpr.nextIn_least (parseCron_wellFormed parsed).second minutes begun found
  have nanos : r.nanos = r.seconds * 1000000000 := by
    rw [DateTime.nanos, whole, Nat.cast_zero, add_zero]
  simp only [DateTime.ofNanos] at after
  refine ⟨⟨by omega, r.seconds, nanos, fires⟩, ?_⟩
  rintro t ⟨afterToo, u, rfl, due⟩
  have bound : r.seconds ≤ u := least ⟨by simp only [DateTime.ofNanos]; omega, due⟩
  omega

theorem toI64_some {n m : Int} (fits : toI64 n = some m) : m = n ∧ -(2 ^ 63) ≤ n ∧ n ≤ maxI64 := by
  rw [toI64] at fits
  split at fits
  · cases fits
    exact ⟨rfl, ‹_›⟩
  · cases fits

theorem stepsAfter_some {q steps : Int} (counted : stepsAfter build q = some steps) :
    q < maxI64 ∧ steps = q + 1 ∨ ¬ q < maxI64 ∧ build = .release ∧ steps = -(2 ^ 63) := by
  rw [stepsAfter] at counted
  split at counted
  · cases counted
    exact .inl ⟨‹_›, rfl⟩
  · rename_i large
    cases build with
    | debug => cases counted
    | release =>
      cases counted
      exact .inr ⟨large, rfl, rfl⟩

-- From its start on a fixed rate answers with its next instant, if the count of the steps does not wrap.
theorem rate_next {trigger : FixedRateTrigger} (positive : trigger.period ≠ 0)
    (found : trigger.next build now = some next) :
    (Trigger.fixedRate trigger).Wraps build now ∧ next = trigger.start - 2 ^ 63 ∨
      ¬ (Trigger.fixedRate trigger).Wraps build now ∧
        IsLeast {u | now < u ∧ (Trigger.fixedRate trigger).Due u} next := by
  have rate : (0 : Int) < trigger.period := by omega
  rw [FixedRateTrigger.next, if_neg positive] at found
  split at found
  · rename_i early
    cases found
    refine .inr ⟨?_, ⟨early, .inr ⟨0, by simp⟩⟩, ?_⟩
    · rintro ⟨-, -, far⟩
      rw [maxI64] at far
      omega
    · rintro u ⟨-, zero | ⟨k, rfl⟩⟩
      · exact absurd zero positive
      · have grid : (0 : Int) ≤ k * trigger.period := by positivity
        omega
  · rename_i started
    simp only [Option.bind_eq_bind, Option.bind_eq_some_iff] at found
    obtain ⟨elapsed, near, period, narrow, steps, counted, product, fits, found⟩ := found
    obtain ⟨rfl, -, near⟩ := toI64_some near
    obtain ⟨rfl, -, -⟩ := toI64_some narrow
    obtain ⟨rfl, low, -⟩ := toI64_some fits
    have sum : next = trigger.start + steps * trigger.period := by
      rw [checkedAddSigned] at found
      split at found
      · exact (Option.some.inj found).symm
      · cases found
    have rest := Int.emod_nonneg (now - trigger.start) (Int.ne_of_gt rate)
    have below := Int.emod_lt_of_pos (now - trigger.start) rate
    have parts := Int.mul_ediv_add_emod (now - trigger.start) trigger.period
    rcases stepsAfter_some counted with ⟨small, rfl⟩ | ⟨large, release, rfl⟩
    · refine .inr ⟨?_, ?_⟩
      · rintro ⟨-, one, far⟩
        rw [one, far, Nat.cast_one, Int.ediv_one] at small
        omega
      · rw [sum, add_mul, one_mul, mul_comm]
        refine ⟨⟨by omega, .inr ⟨((now - trigger.start) / trigger.period + 1).toNat, ?_⟩⟩, ?_⟩
        · have count : (0 : Int) ≤ (now - trigger.start) / trigger.period :=
            Int.ediv_nonneg (by omega) rate.le
          rw [Int.toNat_of_nonneg (by omega), add_mul, one_mul, mul_comm]
        · rintro u ⟨after, zero | ⟨k, rfl⟩⟩
          · exact absurd zero positive
          · -- A step that is not behind the quotient ends at or before the reading.
            have more : (now - trigger.start) / trigger.period < k := by
              rw [Int.ediv_lt_iff_lt_mul rate]
              omega
            have grid : ((now - trigger.start) / trigger.period + 1) * trigger.period ≤
                k * trigger.period := Int.mul_le_mul_of_nonneg_right (by omega) rate.le
            rw [add_mul, one_mul, mul_comm] at grid
            omega
    · -- The product holds only with a period of a nanosecond.
      have one : trigger.period = 1 := by
        rw [maxI64] at *
        omega
      rw [one, Nat.cast_one, Int.ediv_one] at large
      refine .inl ⟨⟨release, one, by omega⟩, ?_⟩
      rw [sum, one]
      omega

theorem rate_reach {trigger : FixedRateTrigger} (positive : trigger.period ≠ 0)
    (found : trigger.next build now = some next) : now - trigger.start ≤ maxI64 := by
  rw [FixedRateTrigger.next, if_neg positive] at found
  split at found
  · rw [maxI64]
    omega
  · rw [Option.bind_eq_bind, Option.bind_eq_some_iff] at found
    obtain ⟨elapsed, near, -⟩ := found
    exact (toI64_some near).2.2

def Trigger.Passes (build : Build) (trigger : Trigger) (now later : Int) : Prop :=
  (∃ t, now < t ∧ t ≤ later ∧ trigger.Due t) ∧ ¬ trigger.Wraps build later

theorem fresh_iff {due : Int → Prop} {first second : Int}
    (one : IsLeast {t | now < t ∧ due t} first) (other : IsLeast {t | later < t ∧ due t} second) :
    first < second ↔ ∃ t, now < t ∧ t ≤ later ∧ due t := by
  constructor
  · intro grows
    refine ⟨first, one.1.1, ?_, one.1.2⟩
    by_contra behind
    have again := other.2 ⟨by omega, one.1.2⟩
    omega
  · rintro ⟨t, after, until_, due⟩
    have low := one.2 ⟨after, due⟩
    have high : later < second := other.1.1
    omega

-- The instant of the later reading is a new one exactly if a due instant has passed.
theorem next_grows {trigger : Trigger} {first second : Int} (valid : trigger.Valid since)
    (late : since ≤ now) (forward : now ≤ later) (one : trigger.next build now = some first)
    (other : trigger.next build later = some second) :
    first < second ↔ trigger.Passes build now later := by
  cases trigger with
  | cron e z =>
    rw [fresh_iff (cron_next valid late one) (cron_next valid (by omega) other)]
    exact ⟨fun passes => ⟨passes, not_false⟩, fun passes => passes.1⟩
  | fixedRate trigger =>
    by_cases zero : trigger.period = 0
    · rw [Trigger.next, FixedRateTrigger.next, if_pos zero, checkedAddSigned] at one other
      have bounded : ¬ (Trigger.fixedRate trigger).Wraps build later := by
        rintro ⟨-, one, -⟩
        omega
      split at one
      · split at other
        · cases one
          cases other
          constructor
          · intro grows
            exact ⟨⟨later, by omega, le_refl later, .inl zero⟩, bounded⟩
          · rintro ⟨⟨t, after, until_, -⟩, -⟩
            omega
        · cases other
      · cases one
    · have reach := rate_reach zero other
      rcases rate_next zero other with ⟨wraps, rfl⟩ | ⟨bounded, other⟩
      · refine iff_of_false ?_ fun passes => passes.2 wraps
        rcases rate_next zero one with ⟨-, rfl⟩ | ⟨-, one⟩
        · exact lt_irrefl _
        · have after : now < first := one.1.1
          rcases one.1.2 with none_ | ⟨k, rfl⟩
          · exact absurd none_ zero
          · have grid : (0 : Int) ≤ k * trigger.period := by positivity
            omega
      · rcases rate_next zero one with ⟨wraps, rfl⟩ | ⟨-, one⟩
        · -- Behind the reading that wraps there is none that is answered.
          obtain ⟨release, one, far⟩ := wraps
          exact absurd ⟨release, one, by omega⟩ bounded
        · rw [fresh_iff one other]
          exact ⟨fun passes => ⟨passes, bounded⟩, fun passes => passes.1⟩

def answered (build : Build) (trigger : Trigger) (readings : List Int) : List Int :=
  readings.takeWhile fun now => (trigger.next build now).isSome

theorem invoked_chain_iff {trigger : Trigger} (valid : trigger.Valid since) {readings : List Int}
    (forward : readings.Pairwise (· ≤ ·)) (begun : ∀ now ∈ readings, since ≤ now) :
    (invoked build trigger readings).IsChain (· < ·) ↔
      (answered build trigger readings).IsChain (trigger.Passes build) := by
  induction readings with
  | nil => exact iff_of_true .nil .nil
  | cons now readings ih =>
    obtain ⟨ahead, forward⟩ := List.pairwise_cons.mp forward
    have rest := ih forward fun later member => begun later (.tail _ member)
    cases one : trigger.next build now with
    | none => simp [invoked, answered, one]
    | some first =>
      cases readings with
      | nil => simp [invoked, answered, one]
      | cons later readings =>
        cases other : trigger.next build later with
        | none => simp [invoked, answered, one, other]
        | some second =>
          have grows := next_grows valid (begun now (.head _)) (ahead later (.head _)) one other
          simp only [invoked, answered, one, other, List.takeWhile_cons, Option.isSome_some, if_true,
            List.isChain_cons_cons] at rest ⊢
          rw [rest, grows]

theorem fired_once_iff {trigger : Trigger} (valid : trigger.Valid since) {readings : List Int}
    (forward : readings.Pairwise (· ≤ ·)) (begun : ∀ now ∈ readings, since ≤ now) :
    (invoked build trigger readings).Pairwise (· < ·) ↔
      (answered build trigger readings).IsChain (trigger.Passes build) := by
  rw [← List.isChain_iff_pairwise]
  exact invoked_chain_iff valid forward begun

theorem utc_minutes (since : Int) : Zone.utc.WholeMinutes since := ⟨fun _ _ => rfl, fun _ _ => rfl⟩

def quarterHours : CronExpr :=
  ⟨[0], [0, 15, 30, 45], List.range 24, List.range' 1 31, List.range' 1 12, List.range 7⟩

theorem quarter_hours_fired_once : parseCron "*/15 * * * *" = .ok quarterHours ∧
    (invoked .release (.cron quarterHours .utc) [63871981230000000000, 63871982100000000000]).Pairwise
      (· < ·) := by
  have parsed : parseCron "*/15 * * * *" = .ok quarterHours := by decide
  refine ⟨parsed, (@fired_once_iff .release 63871981200000000000 (.cron quarterHours .utc)
    ⟨⟨_, parsed⟩, utc_minutes _⟩ _ (by decide) (by decide)).mpr ?_⟩
  have all : answered .release (.cron quarterHours .utc) [63871981230000000000, 63871982100000000000] =
      [63871981230000000000, 63871982100000000000] := by decide
  rw [all, List.isChain_cons_cons]
  exact ⟨⟨⟨63871982100000000000, by decide, by decide, 63871982100, by decide, by decide⟩, not_false⟩,
    .singleton _⟩

theorem quarter_hour_fired_twice : parseCron "*/15 * * * *" = .ok quarterHours ∧
    [63871981230000000000, 63871982099999000000].Pairwise ((· ≤ ·) : Int → Int → Prop) ∧
    ¬ (invoked .release (.cron quarterHours .utc) [63871981230000000000, 63871982099999000000]).Pairwise
      (· < ·) := by
  exact ⟨by decide, by decide, by decide⟩

end Firefly.Scheduling
