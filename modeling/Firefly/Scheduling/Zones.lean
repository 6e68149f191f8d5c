import Firefly.Scheduling.CronNeighbours

set_option autoImplicit false

-- Instants are stepped through in UTC, and fields are matched and replaced in local time.

namespace Firefly.Scheduling

open Calendar

def OnClock (t : Int) : Prop := minSeconds ≤ t ∧ t ≤ maxSeconds

instance (t : Int) : Decidable (OnClock t) := inferInstanceAs (Decidable (_ ∧ _))

def Names (offset : Int → Int) (l t : Int) : Prop := OnClock t ∧ ∀ u, u + offset u = l ↔ u = t

/-- A time zone. `resolve` is `from_local_datetime(..).single()` within the range of instants. -/
structure Zone where
  offset : Int → Int
  resolve : Int → Option Int
  resolves : ∀ l t, resolve l = some t ↔ Names offset l t

namespace Zone

def localTime (z : Zone) (t : Int) : Int := t + z.offset t

def withSecond (z : Zone) (t : Int) (second : Nat) : Option Int :=
  if second < 60 then z.resolve (floorMinute (z.localTime t) + second) else none

def utc : Zone where
  offset _ := 0
  resolve l := if OnClock l then some l else none
  resolves l t := by
    simp only [Names, add_zero]
    split
    · rename_i inside
      rw [Option.some.injEq]
      constructor
      · rintro rfl
        exact ⟨inside, fun _ => Iff.rfl⟩
      · rintro ⟨-, only⟩
        exact (only l).mp rfl
    · rename_i outside
      refine iff_of_false (by simp) ?_
      rintro ⟨inside, only⟩
      obtain rfl := (only l).mp rfl
      exact outside inside

def changing (change before after : Int) : Zone where
  offset t := if t < change then before else after
  resolve l :=
    let early := l - before < change
    let late := change ≤ l - after
    if early ∧ ¬ late ∧ OnClock (l - before) then some (l - before)
    else if late ∧ ¬ early ∧ OnClock (l - after) then some (l - after)
    else none
  resolves l t := by
    have shows (u : Int) : u + (if u < change then before else after) = l ↔
        u < change ∧ u = l - before ∨ change ≤ u ∧ u = l - after := by
      split <;> omega
    simp only [Names, shows]
    split
    · rename_i first
      rw [Option.some.injEq]
      constructor
      · rintro rfl
        exact ⟨first.2.2, fun u => by omega⟩
      · rintro ⟨-, only⟩
        exact (only (l - before)).mp (by omega)
    · rename_i notFirst
      split
      · rename_i second
        rw [Option.some.injEq]
        constructor
        · rintro rfl
          exact ⟨second.2.2, fun u => by omega⟩
        · rintro ⟨-, only⟩
          exact (only (l - after)).mp (by omega)
      · rename_i notSecond
        refine iff_of_false (by simp) ?_
        rintro ⟨inside, only⟩
        -- Both offsets lead to an instant, or to the same one.
        have left := only (l - before)
        have right := only (l - after)
        rcases (only t).mpr rfl with ⟨early, rfl⟩ | ⟨late, rfl⟩
        · refine notFirst ⟨early, fun late => ?_, inside⟩
          omega
        · refine notSecond ⟨late, fun early => ?_, inside⟩
          omega

end Zone

namespace CronExpr

def searchIn (e : CronExpr) (z : Zone) : Nat → Int → Option Int
  | 0, _ => none
  | rounds + 1, t =>
    if e.matchesTime (z.localTime t) then e.second.head?.bind (z.withSecond t)
    else
      match checkedAddMinute t with
      | none => none
      | some t => e.searchIn z rounds t

def nextIn (e : CronExpr) (z : Zone) (start : DateTime) : Option DateTime := do
  let floor ← z.withSecond start.seconds 0
  -- `with_nanosecond` resolves the local time once more.
  let floor ← z.resolve (z.localTime floor)
  let onward := (checkedAddMinute floor).bind (e.searchIn z maxSearchMinutes)
  let found :=
    if e.matchesTime (z.localTime floor) then
      match e.second.find? fun s => secondOf (z.localTime start.seconds) < s with
      | some s => z.withSecond floor s
      | none => onward
    else onward
  found.map fun seconds => ⟨seconds, 0⟩

inductive Arrives (e : CronExpr) (z : Zone) (start floor : Int) : Int → Prop
  | own {s : Nat} : e.matchesTime (z.localTime start) → s ∈ e.second → secondOf (z.localTime start) < s →
    (∀ r ∈ e.second, secondOf (z.localTime start) < r → s ≤ r) →
      Arrives e z start floor (floorMinute (z.localTime start) + s)
  | later {k s : Nat} :
    (e.matchesTime (z.localTime start) → ∀ r ∈ e.second, r ≤ secondOf (z.localTime start)) →
      1 ≤ k → k ≤ maxSearchMinutes → floor + 60 * k ≤ maxSeconds →
        e.matchesTime (z.localTime (floor + 60 * k)) →
          (∀ j : Nat, 1 ≤ j → j < k → e.matchesTime (z.localTime (floor + 60 * j)) = false) →
            s ∈ e.second → (∀ r ∈ e.second, s ≤ r) →
              Arrives e z start floor (floorMinute (z.localTime (floor + 60 * k)) + s)

/-- The start of the local minute and the second that the search arrives at both exist once. -/
def Unambiguous (e : CronExpr) (z : Zone) (start : Int) : Prop :=
  ∃ floor l t, Names z.offset (floorMinute (z.localTime start)) floor ∧ e.Arrives z start floor l ∧
    Names z.offset l t

variable {e : CronExpr} {z : Zone}

theorem withSecond_iff {t r : Int} {s : Nat} (inMinute : s < 60) :
    z.withSecond t s = some r ↔ Names z.offset (floorMinute (z.localTime t) + s) r := by
  rw [Zone.withSecond, if_pos inMinute, z.resolves]

theorem find?_iff {xs : List Nat} {p : Nat → Bool} {s : Nat} (sorted : xs.Pairwise (· < ·)) :
    xs.find? p = some s ↔ s ∈ xs ∧ p s ∧ ∀ r ∈ xs, p r → s ≤ r := by
  constructor
  · intro found
    refine ⟨List.mem_of_find?_eq_some found, List.find?_some found, fun r member accepted => ?_⟩
    rcases find?_first sorted found r member accepted with same | less <;> omega
  · rintro ⟨member, accepted, least⟩
    cases found : xs.find? p with
    | none => exact absurd accepted (by simpa using List.find?_eq_none.mp found s member)
    | some first =>
      have below := least first (List.mem_of_find?_eq_some found) (List.find?_some found)
      congr 1
      rcases find?_first sorted found s member accepted with same | less <;> omega

theorem head?_iff {xs : List Nat} {s : Nat} (sorted : xs.Pairwise (· < ·)) :
    xs.head? = some s ↔ s ∈ xs ∧ ∀ r ∈ xs, s ≤ r := by
  have all := find?_iff (p := fun _ => true) (s := s) sorted
  cases xs with
  | nil => simp
  | cons x rest => simpa using all

theorem searchIn_firstWhere (rounds : Nat) (t : Int) : e.searchIn z rounds t =
    (firstWhere (fun t => e.matchesTime (z.localTime t)) checkedAddMinute rounds t).bind fun t =>
      e.second.head?.bind (z.withSecond t) := by
  induction rounds generalizing t with
  | zero => rfl
  | succ rounds ih =>
    rw [searchIn, firstWhere]
    split
    · rfl
    · cases checkedAddMinute t with
      | none => rfl
      | some next => exact ih next

theorem firstWhere_minute {p : Int → Bool} {rounds : Nat} {t u : Int} (start : t ≤ maxSeconds) :
    firstWhere p checkedAddMinute rounds t = some u ↔ ∃ k : Nat, u = t + 60 * k ∧ k < rounds ∧
      u ≤ maxSeconds ∧ p u ∧ ∀ j : Nat, j < k → p (t + 60 * j) = false := by
  constructor
  · exact firstWhere_eq_some add_strides start
  · rintro ⟨k, rfl, within, ofClock, accepted, before⟩
    cases found : firstWhere p checkedAddMinute rounds t with
    | none =>
      have rejected := firstWhere_eq_none add_strides found k within fun j earlier => by omega
      simp [accepted] at rejected
    | some u =>
      obtain ⟨i, rfl, -, -, acceptedFirst, beforeFirst⟩ := firstWhere_eq_some add_strides start found
      -- Both are the first one.
      rcases Nat.lt_trichotomy i k with earlier | rfl | later
      · simp [before i earlier] at acceptedFirst
      · rfl
      · simp [beforeFirst k later] at accepted

theorem onwardIn_iff (fields : FieldOk 0 59 e.second) {floor r : Int} (inside : floor ≤ maxSeconds) :
    (checkedAddMinute floor).bind (e.searchIn z maxSearchMinutes) = some r ↔
      ∃ k s : Nat, 1 ≤ k ∧ k ≤ maxSearchMinutes ∧ floor + 60 * k ≤ maxSeconds ∧
        e.matchesTime (z.localTime (floor + 60 * k)) ∧
        (∀ j : Nat, 1 ≤ j → j < k → e.matchesTime (z.localTime (floor + 60 * j)) = false) ∧
        s ∈ e.second ∧ (∀ r ∈ e.second, s ≤ r) ∧
        Names z.offset (floorMinute (z.localTime (floor + 60 * k)) + s) r := by
  have shifted : ∀ j : Nat, floor + 60 * ((j + 1 : Nat) : Int) = floor + 60 + 60 * j := by
    intro j
    push_cast
    ring
  rcases add_strides floor with ⟨goes, same⟩ | ⟨stops, ended⟩
  · rw [same, Option.bind_some, searchIn_firstWhere, Option.bind_eq_some_iff]
    constructor
    · rintro ⟨m, minute, second⟩
      obtain ⟨k, rfl, rounds, ofClock, accepted, before⟩ := (firstWhere_minute goes).mp minute
      obtain ⟨s, head, names⟩ := Option.bind_eq_some_iff.mp second
      obtain ⟨member, least⟩ := (head?_iff fields.sorted).mp head
      have bound := fields.bounds s member
      rw [withSecond_iff (by omega)] at names
      refine ⟨k + 1, s, by omega, by omega, ?_, ?_, fun j one earlier => ?_, member, least, ?_⟩
      · rwa [shifted]
      · rwa [shifted]
      · have place : j = (j - 1) + 1 := by omega
        rw [place, shifted]
        exact before (j - 1) (by omega)
      · rwa [shifted]
    · rintro ⟨k, s, one, rounds, ofClock, accepted, before, member, least, names⟩
      obtain ⟨k, rfl⟩ : ∃ i, k = i + 1 := ⟨k - 1, by omega⟩
      rw [shifted] at ofClock accepted names
      have bound := fields.bounds s member
      refine ⟨floor + 60 + 60 * k, (firstWhere_minute goes).mpr
        ⟨k, rfl, by omega, ofClock, accepted, fun j earlier => ?_⟩, ?_⟩
      · rw [← shifted]
        exact before (j + 1) (by omega) (by omega)
      · rw [(head?_iff fields.sorted).mpr ⟨member, least⟩, Option.bind_some, withSecond_iff (by omega)]
        exact names
  · rw [ended]
    refine iff_of_false (by simp) ?_
    rintro ⟨k, s, one, -, ofClock, -⟩
    omega

theorem nextIn_iff (fields : FieldOk 0 59 e.second) {start r : DateTime} : e.nextIn z start = some r ↔
    r.nanosecond = 0 ∧ ∃ floor l, Names z.offset (floorMinute (z.localTime start.seconds)) floor ∧
      e.Arrives z start.seconds floor l ∧ Names z.offset l r.seconds := by
  have zero : ∀ {floor : Int}, z.withSecond start.seconds 0 = some floor ↔
      Names z.offset (floorMinute (z.localTime start.seconds)) floor := by
    intro floor
    simpa using withSecond_iff (z := z) (t := start.seconds) (r := floor) (s := 0) (by decide)
  have onMinute : floorMinute (floorMinute (z.localTime start.seconds)) =
      floorMinute (z.localTime start.seconds) := floorMinute_floorMinute _
  have body : ∀ {floor t : Int}, Names z.offset (floorMinute (z.localTime start.seconds)) floor →
      ((if e.matchesTime (z.localTime floor) then
          match e.second.find? fun s => secondOf (z.localTime start.seconds) < s with
          | some s => z.withSecond floor s
          | none => (checkedAddMinute floor).bind (e.searchIn z maxSearchMinutes)
        else (checkedAddMinute floor).bind (e.searchIn z maxSearchMinutes)) = some t ↔
      ∃ l, e.Arrives z start.seconds floor l ∧ Names z.offset l t) := by
    intro floor t names
    have shows : z.localTime floor = floorMinute (z.localTime start.seconds) := (names.2 floor).mpr rfl
    have same : e.matchesTime (z.localTime floor) = e.matchesTime (z.localTime start.seconds) :=
      matchesTime_minute (by rw [shows, onMinute])
    have onward : (e.matchesTime (z.localTime start.seconds) →
        ∀ r ∈ e.second, r ≤ secondOf (z.localTime start.seconds)) →
        ((checkedAddMinute floor).bind (e.searchIn z maxSearchMinutes) = some t ↔
          ∃ l, e.Arrives z start.seconds floor l ∧ Names z.offset l t) := by
      intro none_
      rw [onwardIn_iff fields names.1.2]
      constructor
      · rintro ⟨k, s, one, rounds, ofClock, accepted, before, member, least, named⟩
        exact ⟨_, .later none_ one rounds ofClock accepted before member least, named⟩
      · rintro ⟨l, arrives, named⟩
        cases arrives with
        | own matched member later => exact absurd (none_ matched _ member) (by omega)
        | @later k s _ one rounds ofClock accepted before member least =>
          exact ⟨k, s, one, rounds, ofClock, accepted, before, member, least, named⟩
    rw [same]
    split
    · rename_i matched
      cases found : e.second.find? fun s => decide (secondOf (z.localTime start.seconds) < s) with
      | none =>
        refine onward fun _ r member => ?_
        have rejected := List.find?_eq_none.mp found r member
        simpa using rejected
      | some s =>
        obtain ⟨member, after, least⟩ := (find?_iff fields.sorted).mp found
        have bound := fields.bounds s member
        have later : secondOf (z.localTime start.seconds) < s := by simpa using after
        dsimp only
        rw [withSecond_iff (by omega), shows, onMinute]
        constructor
        · intro named
          exact ⟨_, .own matched member later
            fun r among greater => least r among (by simpa using greater), named⟩
        · rintro ⟨l, arrives, named⟩
          cases arrives with
          | @own s' _ member' later' least' =>
            have one := least s' member' (by simpa using later')
            have other := least' s member later
            obtain rfl : s = s' := by omega
            exact named
          | later none_ => exact absurd (none_ matched s member) (by omega)
    · rename_i other
      exact onward fun matched => absurd matched other
  simp only [nextIn, Option.bind_eq_bind, Option.bind_eq_some_iff, Option.map_eq_some_iff]
  constructor
  · rintro ⟨floor, first, floor', again, t, found, rfl⟩
    have names := zero.mp first
    have shows : z.localTime floor = floorMinute (z.localTime start.seconds) := (names.2 floor).mpr rfl
    rw [shows, z.resolves] at again
    obtain rfl : floor' = floor := (names.2 floor').mp ((again.2 floor').mpr rfl)
    obtain ⟨l, arrives, named⟩ := (body names).mp found
    exact ⟨rfl, floor', l, names, arrives, named⟩
  · rintro ⟨whole, floor, l, names, arrives, named⟩
    have shows : z.localTime floor = floorMinute (z.localTime start.seconds) := (names.2 floor).mpr rfl
    refine ⟨floor, zero.mpr names, floor, ?_, r.seconds, (body names).mpr ⟨l, arrives, named⟩, ?_⟩
    · rw [shows, z.resolves]
      exact names
    · rw [← whole]

theorem nextIn_utc (e : CronExpr) {start : DateTime} (begun : minSeconds ≤ start.seconds)
    (inRange : start.seconds ≤ maxSeconds) : e.nextIn .utc start = e.next start := by
  have local_ : ∀ t, Zone.utc.localTime t = t := fun t => add_zero t
  have starts := minSeconds_minute
  have ends := maxSeconds_minute
  have seconds : ∀ {t : Int} (s : Nat), minSeconds ≤ t → t ≤ maxSeconds →
      Zone.utc.withSecond t s = withSecond t s := by
    intro t s low high
    rw [Zone.withSecond, withSecond, local_]
    split
    · have inside : OnClock (floorMinute t + s) := by
        simp only [OnClock, floorMinute]
        omega
      exact if_pos inside
    · rfl
  have searches : ∀ (rounds : Nat) {t : Int}, minSeconds ≤ t → t ≤ maxSeconds →
      e.searchIn .utc rounds t = e.search rounds t := by
    intro rounds
    induction rounds with
    | zero => exact fun _ _ => rfl
    | succ rounds ih =>
      intro t low high
      rw [searchIn, search, local_]
      split
      · cases e.second.head? with
        | none => rfl
        | some s => exact seconds s low high
      · rw [checkedAddMinute]
        by_cases fits : t + 60 ≤ maxSeconds
        · rw [if_pos fits]
          exact ih (by omega) fits
        · rw [if_neg fits]
  have low : minSeconds ≤ floorMinute start.seconds := by
    simp only [floorMinute]
    omega
  have high : floorMinute start.seconds ≤ maxSeconds := by
    simp only [floorMinute]
    omega
  have onward : (checkedAddMinute (floorMinute start.seconds)).bind (e.searchIn .utc maxSearchMinutes) =
      (checkedAddMinute (floorMinute start.seconds)).bind (e.search maxSearchMinutes) := by
    rw [checkedAddMinute]
    split
    · exact searches _ (by omega) (by omega)
    · rw [Option.bind_none, Option.bind_none]
  have resolved : Zone.utc.resolve (floorMinute start.seconds) = some (floorMinute start.seconds) :=
    if_pos ⟨low, high⟩
  have first : Zone.utc.withSecond start.seconds 0 = some (floorMinute start.seconds) := by
    simp [seconds 0 begun inRange, withSecond]
  rw [nextIn, next, first, Option.bind_eq_bind, Option.bind_some, local_, resolved, Option.bind_some]
  dsimp only
  rw [local_, local_, onward]
  congr 1
  split
  · cases e.second.find? fun s => decide (secondOf start.seconds < s) with
    | none => rfl
    | some s => exact seconds s low high
  · rfl

def InReach (e : CronExpr) (z : Zone) (start : DateTime) : Prop :=
  ∃ u, start.seconds < u ∧ u ≤ start.seconds + 366 * 86400 ∧ OnClock u ∧ e.Fires (z.localTime u)

theorem promise_iff {text : String} (parsed : parseCron text = .ok e) (z : Zone) (start : DateTime) :
    (e.InReach z start → (e.nextIn z start).isSome) ↔
      ¬ e.InReach z start ∨ e.Unambiguous z start.seconds := by
  have found : (e.nextIn z start).isSome ↔ e.Unambiguous z start.seconds := by
    rw [Option.isSome_iff_exists]
    constructor
    · rintro ⟨r, found⟩
      obtain ⟨-, floor, l, names, arrives, named⟩ :=
        (nextIn_iff (parseCron_wellFormed parsed).second).mp found
      exact ⟨floor, l, r.seconds, names, arrives, named⟩
    · rintro ⟨floor, l, t, names, arrives, named⟩
      exact ⟨⟨t, 0⟩, (nextIn_iff (parseCron_wellFormed parsed).second).mpr
        ⟨rfl, floor, l, names, arrives, named⟩⟩
  rw [found, imp_iff_not_or]

theorem quarter_minutes_promise : ∃ e, parseCron "*/15 0 0 1 1 0" = .ok e ∧
    (e.InReach .utc ⟨63082281607, 0⟩ → (e.nextIn .utc ⟨63082281607, 0⟩).isSome) := by
  have parsed : parseCron "*/15 0 0 1 1 0" = .ok ⟨[0, 15, 30, 45], [0], [0], [1], [1], [0]⟩ := by decide
  refine ⟨_, parsed, (promise_iff parsed .utc ⟨63082281607, 0⟩).mpr (.inr ?_)⟩
  have named : ∀ t, OnClock t → Names Zone.utc.offset t t := fun t inside => ⟨inside, fun u => by
    simp [Zone.utc]⟩
  exact ⟨63082281600, 63082281615, 63082281615, named _ (by decide),
    .own (s := 15) (by decide) (by decide) (by decide) (by decide), named _ (by decide)⟩

theorem repeated_hour_given_up : ∃ e, parseCron "*/15 * * * *" = .ok e ∧
    e.nextIn (.changing 63871981200 7200 3600) ⟨63871981800, 0⟩ = none ∧
    e.InReach (.changing 63871981200 7200 3600) ⟨63871981800, 0⟩ := by
  exact ⟨⟨[0], [0, 15, 30, 45], List.range 24, List.range' 1 31, List.range' 1 12, List.range 7⟩, by decide,
    by decide, 63871982100, by decide, by decide, by decide, by decide⟩

end CronExpr

end Firefly.Scheduling
