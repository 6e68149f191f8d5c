import Firefly.Resilience.CircuitBreakerOpening

set_option autoImplicit false

namespace Firefly.Resilience.CircuitBreaker

def reaches (rate : ℚ) (failed len : Nat) : Bool := decide (rate ≤ failed / len)

def rated (cfg : CircuitConfig) (rate : ℚ) : CircuitBreaker :=
  new { cfg with failureRateThreshold := some (reaches rate) }

def report (cb : CircuitBreaker) (inner : BreakerInner) (outcomes : List (Nat × Bool)) : BreakerInner :=
  outcomes.foldl (fun inner outcome => cb.record outcome.1 outcome.2 inner) inner

def failures (outcomes : List (Nat × Bool)) : List Bool := outcomes.map Prod.snd

def slice (size k : Nat) (failed : List Bool) : List Bool := (failed.take k).drop (k - size)

structure AtThreshold (rate : ℚ) (size : Nat) (failed : List Bool) (k : Nat) : Prop where
  full : size ≤ k
  within : k ≤ failed.length
  reached : rate * size ≤ (slice size k failed).count true

structure Reset (inner : BreakerInner) : Prop where
  closed : inner.state = .closed
  cleared : inner.outcomes = []

variable {cb : CircuitBreaker} {cfg : CircuitConfig} {rate : ℚ}

theorem rated_size (cfg : CircuitConfig) (rate : ℚ) : 0 < (rated cfg rate).windowSize := by
  simp only [rated, new]
  split <;> omega

def lastOf (size : Nat) (failed : List Bool) : List Bool := failed.drop (failed.length - size)

theorem lastOf_concat {size : Nat} (some : 0 < size) (failed : List Bool) (last : Bool) :
    lastOf size (failed ++ [last]) =
      (if (lastOf size failed).length = size then (lastOf size failed).drop 1
        else lastOf size failed) ++ [last] := by
  have length : (lastOf size failed).length = min size failed.length := by
    simp only [lastOf, List.length_drop]
    omega
  have front : (failed ++ [last]).length - size ≤ failed.length := by
    rw [List.length_append, List.length_singleton]
    omega
  rw [length, lastOf, List.drop_append_of_le_length front]
  congr 1
  rw [List.length_append, List.length_singleton]
  split
  · rw [lastOf, List.drop_drop]
    congr 1
    omega
  · rw [lastOf]
    congr 1
    omega

theorem slice_whole (size : Nat) (failed : List Bool) :
    slice size failed.length failed = lastOf size failed := by
  rw [slice, List.take_length, lastOf]

theorem slice_concat {size k : Nat} {failed : List Bool} (last : Bool) (within : k ≤ failed.length) :
    slice size k (failed ++ [last]) = slice size k failed := by
  rw [slice, slice, List.take_append_of_le_length within]

variable (cfg rate) in
theorem record_rated {inner : BreakerInner} (now : Nat) (failed : Bool)
    (other : inner.state ≠ .halfOpen) :
    ((rated cfg rate).record now failed inner).outcomes =
        (rated cfg rate).pushOutcome failed inner.outcomes ∧
      ((rated cfg rate).record now failed inner).state =
        if failed ∧ (rated cfg rate).windowSize ≤
              ((rated cfg rate).pushOutcome failed inner.outcomes).length ∧
            reaches rate (((rated cfg rate).pushOutcome failed inner.outcomes).filter (!·)).length
              ((rated cfg rate).pushOutcome failed inner.outcomes).length
        then .opened else inner.state := by
  have mode : (rated cfg rate).failureRateThreshold = some (reaches rate) := rfl
  cases failed with
  | false =>
    simp only [record, other, Bool.false_eq_true, if_false, false_and]
    split <;> exact ⟨rfl, rfl⟩
  | true =>
    simp only [record, other, if_true, if_false, tripped, mode, true_and]
    by_cases short : ((rated cfg rate).pushOutcome true inner.outcomes).length <
        (rated cfg rate).windowSize
    · rw [if_pos short, if_neg (by simp), if_neg (by omega)]
      exact ⟨rfl, rfl⟩
    · rw [if_neg short]
      have full : (rated cfg rate).windowSize ≤
          ((rated cfg rate).pushOutcome true inner.outcomes).length := by omega
      simp only [full, true_and]
      split <;> exact ⟨rfl, rfl⟩

theorem report_concat (inner : BreakerInner) (outcomes : List (Nat × Bool)) (last : Nat × Bool) :
    cb.report inner (outcomes ++ [last]) = cb.record last.1 last.2 (cb.report inner outcomes) := by
  rw [report, List.foldl_append]
  rfl

structure Tracks (cfg : CircuitConfig) (rate : ℚ) (inner : BreakerInner) (failed : List Bool) : Prop where
  other : inner.state ≠ .halfOpen
  ring : inner.outcomes = (lastOf (rated cfg rate).windowSize failed).map (!·)
  state : inner.state = .opened ↔
    ∃ k, AtThreshold rate (rated cfg rate).windowSize failed k ∧ failed[k - 1]? = some true

theorem pushOutcome_ring (cfg : CircuitConfig) (rate : ℚ) (failed : List Bool) (last : Bool) :
    (rated cfg rate).pushOutcome last ((lastOf (rated cfg rate).windowSize failed).map (!·)) =
      (lastOf (rated cfg rate).windowSize (failed ++ [last])).map (!·) := by
  rw [lastOf_concat (rated_size cfg rate), pushOutcome, List.length_map, List.map_append]
  split
  · rw [List.map_drop]
    rfl
  · rfl

theorem length_lastOf (size : Nat) (failed : List Bool) :
    (lastOf size failed).length = min size failed.length := by
  simp only [lastOf, List.length_drop]
  omega

theorem count_ring (failed : List Bool) :
    ((failed.map (!·)).filter (!·)).length = failed.count true := by
  rw [← List.countP_eq_length_filter, List.countP_map, List.count]
  refine List.countP_congr fun b _ => ?_
  cases b <;> simp

theorem atThreshold_length {failed : List Bool} {size : Nat} (some : 0 < size) :
    AtThreshold rate size failed failed.length ↔
      size ≤ (lastOf size failed).length ∧
        reaches rate ((lastOf size failed).count true) (lastOf size failed).length = true := by
  rw [length_lastOf]
  have positive : (0 : ℚ) < size := by exact_mod_cast some
  constructor
  · rintro ⟨full, -, reached⟩
    rw [slice_whole] at reached
    rw [min_eq_left full, reaches, decide_eq_true_eq, le_div_iff₀ positive]
    exact ⟨le_rfl, reached⟩
  · rintro ⟨full, reached⟩
    have enough : size ≤ failed.length := by omega
    rw [min_eq_left enough, reaches, decide_eq_true_eq, le_div_iff₀ positive] at reached
    exact ⟨enough, le_rfl, by rwa [slice_whole]⟩

theorem atThreshold_concat {size k : Nat} {failed : List Bool} (last : Bool) (within : k ≤ failed.length) :
    AtThreshold rate size (failed ++ [last]) k ↔ AtThreshold rate size failed k := by
  have reach := @slice_concat size _ _ last within
  constructor
  · rintro ⟨full, -, reached⟩
    exact ⟨full, within, reach ▸ reached⟩
  · rintro ⟨full, -, reached⟩
    exact ⟨full, by rw [List.length_append]; omega, by rwa [reach]⟩

theorem Tracks.concat {inner : BreakerInner} {failed : List Bool}
    (tracks : Tracks cfg rate inner failed) (now : Nat) (last : Bool) :
    Tracks cfg rate ((rated cfg rate).record now last inner) (failed ++ [last]) := by
  have some := rated_size cfg rate
  obtain ⟨ring, state⟩ := record_rated cfg rate now last tracks.other
  rw [tracks.ring, pushOutcome_ring] at ring state
  rw [List.length_map, count_ring] at state
  refine ⟨?_, ring, ?_⟩
  · rw [state]
    split
    · simp
    · exact tracks.other
  · have split : (∃ k, AtThreshold rate (rated cfg rate).windowSize (failed ++ [last]) k ∧
        (failed ++ [last])[k - 1]? = Option.some true) ↔
        (last = true ∧ AtThreshold rate (rated cfg rate).windowSize (failed ++ [last])
          (failed ++ [last]).length) ∨
        ∃ k, AtThreshold rate (rated cfg rate).windowSize failed k ∧ failed[k - 1]? = Option.some true := by
      constructor
      · rintro ⟨k, reached, ended⟩
        have positive : 0 < k := some.trans_le reached.full
        by_cases before : k ≤ failed.length
        · rw [List.getElem?_append_left (by omega)] at ended
          exact .inr ⟨k, (atThreshold_concat last before).mp reached, ended⟩
        · have within := reached.within
          rw [List.length_append, List.length_singleton] at within
          obtain rfl : k = (failed ++ [last]).length := by
            rw [List.length_append, List.length_singleton]
            omega
          refine .inl ⟨?_, reached⟩
          simpa using ended
      · rintro (⟨rfl, reached⟩ | ⟨k, reached, ended⟩)
        · exact ⟨_, reached, by simp⟩
        · have positive : 0 < k := some.trans_le reached.full
          have within := reached.within
          refine ⟨k, (atThreshold_concat last within).mpr reached, ?_⟩
          rwa [List.getElem?_append_left (by omega)]
    rw [state, split, ← tracks.state, atThreshold_length some]
    split
    · rename_i trips
      exact iff_of_true rfl (.inl trips)
    · rename_i holds
      exact (or_iff_right holds).symm

variable (cfg rate) in
theorem report_tracks {inner : BreakerInner} (reset : Reset inner) (outcomes : List (Nat × Bool)) :
    Tracks cfg rate ((rated cfg rate).report inner outcomes) (failures outcomes) := by
  induction outcomes using List.reverseRecOn with
  | nil =>
    refine ⟨by simp [report, reset.closed], by simp [report, reset.cleared, failures, lastOf], ?_⟩
    refine iff_of_false (by simp [report, reset.closed]) ?_
    rintro ⟨k, -, ended⟩
    simp [failures] at ended
  | append_singleton outcomes last ih =>
    rw [report_concat, failures, List.map_append]
    exact ih.concat last.1 last.2

def TripLaw (cfg : CircuitConfig) (rate : ℚ) (inner : BreakerInner) (outcomes : List (Nat × Bool))
    (n : Nat) : Prop :=
  ((rated cfg rate).report inner (outcomes.take n)).state = .opened ↔
    ∃ k ≤ n, AtThreshold rate (rated cfg rate).windowSize (failures outcomes) k

def FirstWindowEndsWell (cfg : CircuitConfig) (rate : ℚ) (outcomes : List (Nat × Bool)) : Prop :=
  AtThreshold rate (rated cfg rate).windowSize (failures outcomes) (rated cfg rate).windowSize ∧
    (failures outcomes)[(rated cfg rate).windowSize - 1]? = some false

-- A window at the threshold that ends with a success comes after another one.
theorem AtThreshold.before {size k : Nat} {failed : List Bool} (some : 0 < size)
    (reached : AtThreshold rate size failed (k + 1)) (later : size ≤ k)
    (ended : failed[k]? = Option.some false) : AtThreshold rate size failed k := by
  have within := reached.within
  refine ⟨later, by omega, reached.reached.trans ?_⟩
  have step : failed.take (k + 1) = failed.take k ++ [false] := by
    rw [List.take_add_one, ended]
    rfl
  have inside : k + 1 - size ≤ (failed.take k).length := by
    rw [List.length_take]
    omega
  have shorter : slice size (k + 1) failed = (failed.take k).drop (k + 1 - size) ++ [false] := by
    rw [slice, step, List.drop_append_of_le_length inside]
  have suffix : (failed.take k).drop (k + 1 - size) <:+ slice size k failed := by
    have next : k + 1 - size = k - size + 1 := by omega
    rw [next, slice, ← List.drop_drop]
    exact List.drop_suffix ..
  rw [shorter, List.count_append]
  exact_mod_cast suffix.sublist.count_le true

theorem atThreshold_take {size n k : Nat} {failed : List Bool} :
    AtThreshold rate size (failed.take n) k ↔ k ≤ n ∧ AtThreshold rate size failed k := by
  have same : k ≤ n → slice size k (failed.take n) = slice size k failed := by
    intro before
    rw [slice, List.take_take, min_eq_left before, slice]
  constructor
  · rintro ⟨full, within, reached⟩
    rw [List.length_take] at within
    exact ⟨by omega, full, by omega, same (by omega) ▸ reached⟩
  · rintro ⟨before, full, within, reached⟩
    exact ⟨full, by rw [List.length_take]; omega, by rwa [same before]⟩

-- The breaker opens with the first window at the threshold that a failure ends.
theorem opened_iff {inner : BreakerInner} (reset : Reset inner) (outcomes : List (Nat × Bool))
    (n : Nat) : ((rated cfg rate).report inner (outcomes.take n)).state = .opened ↔
      ∃ k ≤ n, AtThreshold rate (rated cfg rate).windowSize (failures outcomes) k ∧
        (failures outcomes)[k - 1]? = some true := by
  have positive := rated_size cfg rate
  rw [(report_tracks cfg rate reset (outcomes.take n)).state,
    show failures (outcomes.take n) = (failures outcomes).take n from List.map_take ..]
  refine exists_congr fun k => ?_
  rw [atThreshold_take, and_assoc]
  refine and_congr_right fun before => and_congr_right fun reached => ?_
  have full := reached.full
  rw [List.getElem?_take_of_lt (by omega)]

theorem trip_law_iff (cfg : CircuitConfig) (rate : ℚ) {inner : BreakerInner} (reset : Reset inner)
    (outcomes : List (Nat × Bool)) : (∀ n ≤ outcomes.length, TripLaw cfg rate inner outcomes n) ↔
      ¬ FirstWindowEndsWell cfg rate outcomes := by
  have positive := rated_size cfg rate
  constructor
  · rintro law ⟨reached, ended⟩
    have within : (rated cfg rate).windowSize ≤ outcomes.length := by
      simpa [failures] using reached.within
    obtain ⟨k, before, later, failed⟩ := (opened_iff reset outcomes _).mp
      ((law _ within).mpr ⟨_, le_rfl, reached⟩)
    obtain rfl := le_antisymm before later.full
    rw [ended] at failed
    cases failed
  · intro regular n _
    rw [TripLaw, opened_iff reset]
    refine ⟨fun ⟨k, before, reached, _⟩ => ⟨k, before, reached⟩, fun ⟨k, before, reached⟩ => ?_⟩
    -- back through windows that successes end, to one that a failure ends
    induction k with
    | zero =>
      have full := reached.full
      omega
    | succ k ih =>
      have within := reached.within
      cases ended : (failures outcomes)[k]? with
      | none =>
        rw [List.getElem?_eq_none_iff] at ended
        omega
      | some failed =>
        cases failed with
        | true => exact ⟨k + 1, before, reached, ended⟩
        | false =>
          by_cases first : (rated cfg rate).windowSize ≤ k
          · exact ih (by omega) (reached.before positive first ended)
          · have full := reached.full
            have size : (rated cfg rate).windowSize = k + 1 := by omega
            exact absurd ⟨size ▸ reached, by rw [size]; exact ended⟩ regular

def pair : CircuitConfig where
  windowSize := 2

def failedThenFine : List (Nat × Bool) := [(0, true), (1, false)]

theorem success_hides_threshold : ¬ ∀ (cfg : CircuitConfig) (rate : ℚ) (outcomes : List (Nat × Bool)),
    ∀ n ≤ outcomes.length, TripLaw cfg rate {} outcomes n := by
  intro all
  have law := all pair (1 / 2) failedThenFine 2 le_rfl
  have closed : ((rated pair (1 / 2)).report {} (failedThenFine.take 2)).state = .closed := by decide
  rw [TripLaw, closed] at law
  have reached : AtThreshold (1 / 2) (rated pair (1 / 2)).windowSize (failures failedThenFine) 2 :=
    ⟨le_rfl, le_rfl, by
      have size : (rated pair (1 / 2)).windowSize = 2 := rfl
      have counted : (slice 2 2 (failures failedThenFine)).count true = 1 := by decide
      rw [size, counted]
      norm_num⟩
  exact absurd (law.mpr ⟨2, le_rfl, reached⟩) (by decide)

theorem pair_law : TripLaw pair (1 / 2) {} [(0, false), (1, true)] 2 := by
  refine (trip_law_iff pair (1 / 2) ⟨rfl, rfl⟩ [(0, false), (1, true)]).mpr ?_ 2 le_rfl
  rintro ⟨-, ended⟩
  exact absurd ended (by decide)

end Firefly.Resilience.CircuitBreaker
