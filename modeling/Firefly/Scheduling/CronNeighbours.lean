import Firefly.Scheduling.CronSearch

set_option autoImplicit false

namespace Firefly.Scheduling.CronExpr

open Calendar

variable {e : CronExpr}

def firstWhere (p : Int → Bool) (move : Int → Option Int) : Nat → Int → Option Int
  | 0, _ => none
  | rounds + 1, t => if p t then some t else (move t).bind (firstWhere p move rounds)

def Strides (move : Int → Option Int) (stride : Int) (inside : Int → Prop) : Prop :=
  ∀ t, inside (t + stride) ∧ move t = some (t + stride) ∨ ¬ inside (t + stride) ∧ move t = none

theorem add_strides : Strides checkedAddMinute 60 (· ≤ maxSeconds) := by
  intro t
  rw [checkedAddMinute]
  split <;> simp_all

theorem sub_strides : Strides checkedSubMinute (-60) (minSeconds ≤ ·) := by
  intro t
  rw [checkedSubMinute, ← Int.sub_eq_add_neg]
  split <;> simp_all

theorem firstWhere_eq_some {p : Int → Bool} {move : Int → Option Int} {stride : Int}
    {inside : Int → Prop} (strides : Strides move stride inside) {rounds : Nat} {t u : Int}
    (start : inside t) (found : firstWhere p move rounds t = some u) :
    ∃ k : Nat, u = t + stride * k ∧ k < rounds ∧ inside u ∧ p u ∧
      ∀ j : Nat, j < k → p (t + stride * j) = false := by
  induction rounds generalizing t with
  | zero => cases found
  | succ rounds ih =>
    rw [firstWhere] at found
    split at found
    · rename_i here
      obtain rfl := Option.some.inj found
      exact ⟨0, by simp, by omega, start, here, by simp⟩
    · rename_i other
      obtain ⟨next, moved, found⟩ := Option.bind_eq_some_iff.mp found
      rcases strides t with ⟨goes, same⟩ | ⟨-, ended⟩
      · obtain rfl := Option.some.inj (same.symm.trans moved)
        obtain ⟨k, rfl, within, last, accepted, before⟩ := ih goes found
        refine ⟨k + 1, by push_cast; ring, by omega, last, accepted, fun j earlier => ?_⟩
        cases j with
        | zero => simpa using other
        | succ j =>
          have shifted : t + stride * ((j + 1 : Nat) : Int) = t + stride + stride * j := by
            push_cast
            ring
          rw [shifted]
          exact before j (by omega)
      · rw [ended] at moved
        cases moved

theorem firstWhere_eq_none {p : Int → Bool} {move : Int → Option Int} {stride : Int}
    {inside : Int → Prop} (strides : Strides move stride inside) {rounds : Nat} {t : Int}
    (missing : firstWhere p move rounds t = none) (k : Nat) (within : k < rounds)
    (through : ∀ j : Nat, j ≤ k → inside (t + stride * j)) : p (t + stride * k) = false := by
  induction rounds generalizing t k with
  | zero => omega
  | succ rounds ih =>
    rw [firstWhere] at missing
    split at missing
    · cases missing
    · rename_i other
      cases k with
      | zero => simpa using other
      | succ k =>
        have shifted : ∀ j : Nat, t + stride * ((j + 1 : Nat) : Int) = t + stride + stride * j := by
          intro j
          push_cast
          ring
        rcases strides t with ⟨-, same⟩ | ⟨stops, -⟩
        · rw [same, Option.bind_some] at missing
          rw [shifted]
          refine ih missing k (by omega) fun j earlier => ?_
          rw [← shifted]
          exact through (j + 1) (by omega)
        · have one := through 1 (by omega)
          exact absurd (by simpa using one) stops

theorem search_firstWhere (rounds : Nat) (t : Int) : e.search rounds t =
    (firstWhere e.matchesTime checkedAddMinute rounds t).bind fun t => e.second.head?.bind (withSecond t) := by
  induction rounds generalizing t with
  | zero => rfl
  | succ rounds ih =>
    rw [search, firstWhere]
    split
    · rfl
    · cases checkedAddMinute t with
      | none => rfl
      | some next => exact ih next

theorem searchBack_firstWhere (rounds : Nat) (t : Int) : e.searchBack rounds t =
    (firstWhere e.matchesTime checkedSubMinute rounds t).bind fun t =>
      e.second.getLast?.bind (withSecond t) := by
  induction rounds generalizing t with
  | zero => rfl
  | succ rounds ih =>
    rw [searchBack, firstWhere]
    split
    · rfl
    · cases checkedSubMinute t with
      | none => rfl
      | some next => exact ih next

theorem minute_second (t : Int) : t = floorMinute t + secondOf t := by
  simp only [floorMinute, secondOf]
  omega

theorem floorMinute_add {m : Int} {s : Nat} (onMinute : m % 60 = 0) (inMinute : s < 60) :
    floorMinute (m + s) = m ∧ secondOf (m + s) = s := by
  simp only [floorMinute, secondOf]
  omega

theorem fires_iff {m : Int} {s : Nat} (onMinute : m % 60 = 0) (inMinute : s < 60) :
    e.Fires (m + s) ↔ s ∈ e.second ∧ e.matchesTime m := by
  obtain ⟨floor, second⟩ := floorMinute_add onMinute inMinute
  have same : e.matchesTime (m + s) = e.matchesTime m := by
    refine matchesTime_minute ?_
    rw [floor, floorMinute, onMinute, sub_zero]
  rw [Fires, second, same]

theorem find?_first {xs : List Nat} {r : Nat → Nat → Prop} {p : Nat → Bool} {s : Nat}
    (sorted : xs.Pairwise r) (found : xs.find? p = some s) : ∀ x ∈ xs, p x → x = s ∨ r s x := by
  obtain ⟨-, before, after, rfl, other⟩ := List.find?_eq_some_iff_append.mp found
  intro x among accepted
  rcases List.mem_append.mp among with early | late
  · have rejected := other x early
    simp [accepted] at rejected
  · rcases List.mem_cons.mp late with same | later
    · exact .inl same
    · exact .inr (List.rel_of_pairwise_cons (List.pairwise_append.mp sorted).2.1 later)

theorem head_first {xs : List Nat} {r : Nat → Nat → Prop} {s : Nat} (sorted : xs.Pairwise r)
    (first : xs.head? = some s) : ∀ x ∈ xs, x = s ∨ r s x := by
  obtain ⟨rest, rfl⟩ := List.head?_eq_some_iff.mp first
  intro x among
  rcases List.mem_cons.mp among with same | later
  · exact .inl same
  · exact .inr (List.rel_of_pairwise_cons sorted later)

theorem floorMinute_le {t v : Int} (after : t ≤ v) : floorMinute t ≤ v := by
  simp only [floorMinute]
  omega

theorem own_minute {t v : Int} (begun : floorMinute t ≤ v) (ends : v < floorMinute t + 60)
    (fires : e.Fires v) : v = floorMinute t + secondOf v ∧ secondOf v ∈ e.second ∧
      e.matchesTime (floorMinute t) := by
  have same : floorMinute v = floorMinute t := by
    simp only [floorMinute] at *
    omega
  have whole := minute_second v
  rw [same] at whole
  exact ⟨whole, fires.1, same ▸ fires_floor fires⟩

def firingsAfter (e : CronExpr) (t : DateTime) : Set Int :=
  {u | t.seconds < u ∧ u ≤ horizon t.seconds ∧ u ≤ maxSeconds ∧ e.Fires u}

theorem onward_eq_some (fields : FieldOk 0 59 e.second) {start u : Int}
    (found : (checkedAddMinute (floorMinute start)).bind (e.search maxSearchMinutes) = some u) :
    floorMinute start + 60 ≤ u ∧ u ≤ horizon start ∧ u ≤ maxSeconds ∧ e.Fires u ∧
      ∀ v, floorMinute start + 60 ≤ v → e.Fires v → u ≤ v := by
  obtain ⟨first, added, found⟩ := Option.bind_eq_some_iff.mp found
  have onMinute : (floorMinute start + 60) % 60 = 0 := by
    simp only [floorMinute]
    omega
  rcases add_strides (floorMinute start) with ⟨goes, same⟩ | ⟨-, ended⟩
  swap
  · rw [ended] at added
    cases added
  obtain rfl := Option.some.inj (same.symm.trans added)
  rw [search_firstWhere] at found
  obtain ⟨m, minute, found⟩ := Option.bind_eq_some_iff.mp found
  obtain ⟨s, head, second⟩ := Option.bind_eq_some_iff.mp found
  obtain ⟨k, rfl, rounds, last, accepted, before⟩ := firstWhere_eq_some add_strides goes minute
  have member : s ∈ e.second := List.mem_of_head? head
  have inMinute : s < 60 := by
    have bound := fields.bounds s member
    omega
  have here : (floorMinute start + 60 + 60 * k) % 60 = 0 := by omega
  rw [withSecond_eq inMinute, show floorMinute (floorMinute start + 60 + 60 * k) = _ by
    rw [floorMinute, here, sub_zero]] at second
  obtain rfl := Option.some.inj second
  have ends := maxSeconds_minute
  refine ⟨by omega, ?_, by omega, (fires_iff here inMinute).mpr ⟨member, accepted⟩, fun v late fires => ?_⟩
  · simp only [horizon, maxSearchMinutes] at *
    omega
  · -- the minute of `v` is not before the one found
    obtain ⟨j, place⟩ : ∃ j : Nat, floorMinute v = floorMinute start + 60 + 60 * j := by
      refine ⟨((floorMinute v - floorMinute start) / 60 - 1).toNat, ?_⟩
      simp only [floorMinute] at *
      omega
    have order : k ≤ j := by
      by_contra early
      have rejected := before j (by omega)
      rw [← place, fires_floor fires] at rejected
      cases rejected
    have whole := minute_second v
    rcases Nat.eq_or_lt_of_le order with rfl | later
    · rcases head_first fields.sorted head (secondOf v) fires.1 with same | later <;> omega
    · omega

theorem next_spec (fields : FieldOk 0 59 e.second) {t : DateTime} (inRange : t.seconds ≤ maxSeconds) :
    match e.next t with
    | some r => r.nanosecond = 0 ∧ IsLeast (e.firingsAfter t) r.seconds
    | none => e.firingsAfter t = ∅ := by
  cases found : e.next t with
  | none =>
    have never := (next_eq_none fields inRange).mp found
    refine Set.eq_empty_of_forall_notMem fun u => ?_
    rintro ⟨after, within, ofClock, fires⟩
    exact never u after within ofClock fires
  | some r =>
    have ends := maxSeconds_minute
    have floored := floorMinute_floorMinute t.seconds
    have onMinute : floorMinute t.seconds % 60 = 0 := by
      simp only [floorMinute]
      omega
    rw [next] at found
    obtain ⟨u, reached, rfl⟩ := Option.map_eq_some_iff.mp found
    clear found
    refine ⟨rfl, ?_⟩
    change IsLeast (e.firingsAfter t) u
    have whole := minute_second t.seconds
    have onward : (e.matchesTime (floorMinute t.seconds) = true →
        e.second.find? (fun s => secondOf t.seconds < s) = none) →
        (checkedAddMinute (floorMinute t.seconds)).bind (e.search maxSearchMinutes) = some u →
          IsLeast (e.firingsAfter t) u := by
      intro nothing found
      obtain ⟨after, within, ofClock, fires, least⟩ := onward_eq_some fields found
      refine ⟨⟨by simp only [floorMinute] at *; omega, within, ofClock, fires⟩, fun v member => ?_⟩
      obtain ⟨later, -, -, firesToo⟩ := member
      by_cases soon : v < floorMinute t.seconds + 60
      · obtain ⟨place, listed, matched⟩ := own_minute (floorMinute_le later.le) soon firesToo
        have rejected := List.find?_eq_none.mp (nothing matched) _ listed
        have above : secondOf t.seconds < secondOf v := by omega
        simp [above] at rejected
      · exact least v (by omega) firesToo
    split at reached
    · rename_i matched
      split at reached
      · rename_i s chosen
        have member := List.mem_of_find?_eq_some chosen
        have later : secondOf t.seconds < s := by simpa using List.find?_some chosen
        have inMinute : s < 60 := by
          have bound := fields.bounds s member
          omega
        rw [withSecond_eq inMinute, floored] at reached
        obtain rfl := Option.some.inj reached
        refine ⟨⟨by omega, by simp only [horizon]; omega, by omega,
          (fires_iff onMinute inMinute).mpr ⟨member, matched⟩⟩, fun v among => ?_⟩
        obtain ⟨after, -, -, fires⟩ := among
        by_cases soon : v < floorMinute t.seconds + 60
        · obtain ⟨place, listed, -⟩ := own_minute (floorMinute_le after.le) soon fires
          have above : secondOf t.seconds < secondOf v := by omega
          rcases find?_first fields.sorted chosen _ listed (by simpa using above) with same | greater <;>
            omega
        · omega
      · rename_i none_
        exact onward (fun _ => none_) reached
    · rename_i other
      exact onward (fun matched => absurd matched other) reached

def firingsBefore (e : CronExpr) (t : DateTime) : Set Int :=
  {u | (u < t.seconds ∨ u = t.seconds ∧ 0 < t.nanosecond) ∧
    floorMinute t.seconds - 366 * 86400 ≤ u ∧ minSeconds ≤ u ∧ e.Fires u}

theorem minSeconds_minute : minSeconds % 60 = 0 := by decide

theorem back_eq_some (fields : FieldOk 0 59 e.second) {start u : Int}
    (found : (checkedSubMinute (floorMinute start)).bind (e.searchBack maxSearchMinutes) = some u) :
    u < floorMinute start ∧ floorMinute start - 366 * 86400 ≤ u ∧ minSeconds ≤ u ∧ e.Fires u ∧
      ∀ v, v < floorMinute start → e.Fires v → v ≤ u := by
  obtain ⟨first, moved, found⟩ := Option.bind_eq_some_iff.mp found
  have onMinute : (floorMinute start + -60) % 60 = 0 := by
    simp only [floorMinute]
    omega
  rcases sub_strides (floorMinute start) with ⟨goes, same⟩ | ⟨-, ended⟩
  swap
  · rw [ended] at moved
    cases moved
  obtain rfl := Option.some.inj (same.symm.trans moved)
  rw [searchBack_firstWhere] at found
  obtain ⟨m, minute, found⟩ := Option.bind_eq_some_iff.mp found
  obtain ⟨s, last, second⟩ := Option.bind_eq_some_iff.mp found
  obtain ⟨k, rfl, rounds, inside, accepted, before⟩ := firstWhere_eq_some sub_strides goes minute
  have member : s ∈ e.second := List.mem_of_getLast? last
  have inMinute : s < 60 := by
    have bound := fields.bounds s member
    omega
  have here : (floorMinute start + -60 + -60 * k) % 60 = 0 := by omega
  rw [withSecond_eq inMinute, show floorMinute (floorMinute start + -60 + -60 * k) = _ by
    rw [floorMinute, here, sub_zero]] at second
  obtain rfl := Option.some.inj second
  refine ⟨by omega, by simp only [maxSearchMinutes] at rounds; omega, by omega,
    (fires_iff here inMinute).mpr ⟨member, accepted⟩, fun v early fires => ?_⟩
  -- the minute of `v` is not behind the one found
  obtain ⟨j, place⟩ : ∃ j : Nat, floorMinute v = floorMinute start + -60 + -60 * j := by
    refine ⟨((floorMinute start - floorMinute v) / 60 - 1).toNat, ?_⟩
    simp only [floorMinute] at *
    omega
  have order : k ≤ j := by
    by_contra late
    have rejected := before j (by omega)
    rw [← place, fires_floor fires] at rejected
    cases rejected
  have whole := minute_second v
  have bound := fields.bounds _ fires.1
  rcases Nat.eq_or_lt_of_le order with rfl | earlier
  · rw [← List.head?_reverse] at last
    rcases head_first (List.pairwise_reverse.mpr fields.sorted) last (secondOf v)
      (List.mem_reverse.mpr fires.1) with same | less <;> omega
  · omega

theorem back_eq_none (fields : FieldOk 0 59 e.second) {start v : Int}
    (missing : (checkedSubMinute (floorMinute start)).bind (e.searchBack maxSearchMinutes) = none)
    (early : v < floorMinute start) (within : floorMinute start - 366 * 86400 ≤ v)
    (ofClock : minSeconds ≤ v) : ¬ e.Fires v := by
  intro fires
  have begins := minSeconds_minute
  obtain ⟨j, place⟩ : ∃ j : Nat, floorMinute v = floorMinute start + -60 + -60 * j := by
    refine ⟨((floorMinute start - floorMinute v) / 60 - 1).toNat, ?_⟩
    simp only [floorMinute] at *
    omega
  have inside : minSeconds ≤ floorMinute v := by
    simp only [floorMinute]
    omega
  rcases sub_strides (floorMinute start) with ⟨-, same⟩ | ⟨stops, -⟩
  swap
  · omega
  rw [same, Option.bind_some, searchBack_firstWhere] at missing
  cases minute : firstWhere e.matchesTime checkedSubMinute maxSearchMinutes (floorMinute start + -60) with
  | none =>
    have rejected := firstWhere_eq_none sub_strides minute j
      (by simp only [maxSearchMinutes, floorMinute] at *; omega) fun i before => by omega
    rw [← place, fires_floor fires] at rejected
    cases rejected
  | some m =>
    obtain ⟨first, rest, shape⟩ := List.exists_cons_of_ne_nil fields.nonempty
    obtain ⟨last, isLast⟩ := Option.isSome_iff_exists.mp
      (List.getLast?_isSome.mpr fields.nonempty)
    have bound := fields.bounds last (List.mem_of_getLast? isLast)
    rw [minute, Option.bind_some, isLast, Option.bind_some, withSecond_eq (by omega)] at missing
    cases missing

theorem prev_spec (fields : FieldOk 0 59 e.second) {t : DateTime} (inRange : minSeconds ≤ t.seconds) :
    match e.prev t with
    | some r => r.nanosecond = 0 ∧ IsGreatest (e.firingsBefore t) r.seconds
    | none => e.firingsBefore t = ∅ := by
  have begins := minSeconds_minute
  have floored := floorMinute_floorMinute t.seconds
  have whole := minute_second t.seconds
  have short : secondOf t.seconds < 60 := by
    simp only [secondOf]
    omega
  have onMinute : floorMinute t.seconds % 60 = 0 := by
    simp only [floorMinute]
    omega
  -- what fires before `t` in its own minute has its second below the cutoff
  have late : ∀ v ∈ e.firingsBefore t, floorMinute t.seconds ≤ v →
      v = floorMinute t.seconds + secondOf v ∧ secondOf v ∈ e.second ∧
        e.matchesTime (floorMinute t.seconds) ∧
        secondOf v < (if 0 < t.nanosecond then secondOf t.seconds + 1 else secondOf t.seconds) := by
    rintro v ⟨before, -, -, fires⟩ begun
    obtain ⟨place, listed, matched⟩ := own_minute begun
      (by simp only [floorMinute] at *; omega) fires
    refine ⟨place, listed, matched, ?_⟩
    split <;> omega
  generalize cut : (if 0 < t.nanosecond then secondOf t.seconds + 1 else secondOf t.seconds) = cutoff at *
  have nothing : (e.matchesTime (floorMinute t.seconds) = true →
      e.second.reverse.find? (fun s => s < cutoff) = none) →
        ∀ v ∈ e.firingsBefore t, v < floorMinute t.seconds := by
    intro none_ v member
    by_contra begun
    obtain ⟨-, listed, matched, below⟩ := late v member (by omega)
    have rejected := List.find?_eq_none.mp (none_ matched) _ (List.mem_reverse.mpr listed)
    simp [below] at rejected
  have back : (e.matchesTime (floorMinute t.seconds) = true →
      e.second.reverse.find? (fun s => s < cutoff) = none) →
      match ((checkedSubMinute (floorMinute t.seconds)).bind (e.searchBack maxSearchMinutes)).map
        fun seconds => (⟨seconds, 0⟩ : DateTime) with
      | some r => r.nanosecond = 0 ∧ IsGreatest (e.firingsBefore t) r.seconds
      | none => e.firingsBefore t = ∅ := by
    intro none_
    cases found : (checkedSubMinute (floorMinute t.seconds)).bind (e.searchBack maxSearchMinutes) with
    | none =>
      refine Set.eq_empty_of_forall_notMem fun v member => ?_
      exact back_eq_none fields found (nothing none_ v member) member.2.1 member.2.2.1 member.2.2.2
    | some u =>
      obtain ⟨before, within, ofClock, fires, greatest⟩ := back_eq_some fields found
      have earlier : u < t.seconds := by omega
      exact ⟨rfl, ⟨⟨.inl earlier, within, ofClock, fires⟩, fun v member =>
        greatest v (nothing none_ v member) member.2.2.2⟩⟩
  rw [prev]
  simp only [cut]
  by_cases matched : e.matchesTime (floorMinute t.seconds) = true
  · rw [if_pos matched]
    cases chosen : e.second.reverse.find? fun s => decide (s < cutoff) with
    | none => exact back fun _ => chosen
    | some s =>
      have member : s ∈ e.second := List.mem_reverse.mp (List.mem_of_find?_eq_some chosen)
      have below : s < cutoff := by simpa using List.find?_some chosen
      have inMinute : s < 60 := by
        have bound := fields.bounds s member
        omega
      dsimp only
      rw [withSecond_eq inMinute, floored]
      refine ⟨rfl, ?_⟩
      change IsGreatest (e.firingsBefore t) (floorMinute t.seconds + (s : Int))
      refine ⟨⟨?_, by omega, by omega, (fires_iff onMinute inMinute).mpr ⟨member, matched⟩⟩,
        fun v among => ?_⟩
      · split at cut <;> omega
      · by_cases begun : floorMinute t.seconds ≤ v
        · obtain ⟨place, listed, -, under⟩ := late v among begun
          rcases find?_first (List.pairwise_reverse.mpr fields.sorted) chosen _
            (List.mem_reverse.mpr listed) (by simpa using under) with same | less <;> omega
        · omega
  · rw [if_neg matched]
    exact back fun yes => absurd yes matched

structure Adjacent (e : CronExpr) (a b : DateTime) : Prop where
  later : a.seconds < b.seconds
  whole : b.nanosecond = 0
  none : ∀ u, a.seconds < u → u < b.seconds → ¬ e.Fires u

theorem next_adjacent (fields : FieldOk 0 59 e.second) {a b : DateTime} (inRange : a.seconds ≤ maxSeconds)
    (found : e.next a = some b) : e.Adjacent a b ∧ b.seconds ≤ maxSeconds := by
  have spec := next_spec fields inRange
  rw [found] at spec
  obtain ⟨whole, ⟨later, within, ofClock, -⟩, least⟩ := spec
  refine ⟨⟨later, whole, fun u after before fires => ?_⟩, ofClock⟩
  have first := least ⟨after, by omega, by omega, fires⟩
  omega

theorem nextN_complete (fields : FieldOk 0 59 e.second) (n : Nat) {t : DateTime}
    (inRange : t.seconds ≤ maxSeconds) (short : (e.nextN n t).length < n) :
    e.firingsAfter ((e.nextN n t).getLastD t) = ∅ := by
  induction n generalizing t with
  | zero => simp at short
  | succ n ih =>
    rw [nextN] at short ⊢
    cases found : e.next t with
    | none =>
      have spec := next_spec fields inRange
      rwa [found] at spec
    | some b =>
      rw [found] at short
      have later := ih (next_adjacent fields inRange found).2 (by simpa using short)
      rwa [List.getLastD_cons]

theorem nextN_chain (fields : FieldOk 0 59 e.second) (n : Nat) {t : DateTime}
    (inRange : t.seconds ≤ maxSeconds) : (t :: e.nextN n t).IsChain e.Adjacent := by
  induction n generalizing t with
  | zero => simp [nextN]
  | succ n ih =>
    rw [nextN]
    cases found : e.next t with
    | none => simp
    | some b =>
      obtain ⟨adjacent, ofClock⟩ := next_adjacent fields inRange found
      exact List.isChain_cons_cons.mpr ⟨adjacent, ih ofClock⟩

structure Exact (e : CronExpr) (t : DateTime) : Prop where
  next : match e.next t with
    | some r => r.nanosecond = 0 ∧ IsLeast (e.firingsAfter t) r.seconds
    | none => e.firingsAfter t = ∅
  prev : match e.prev t with
    | some r => r.nanosecond = 0 ∧ IsGreatest (e.firingsBefore t) r.seconds
    | none => e.firingsBefore t = ∅
  between : ∀ r p, e.next t = some r → e.prev r = some p →
    ∀ u, p.seconds < u → u < r.seconds → ¬ e.Fires u
  chain : ∀ n, (t :: e.nextN n t).IsChain e.Adjacent
  complete : ∀ n, (e.nextN n t).length < n → e.firingsAfter ((e.nextN n t).getLastD t) = ∅

theorem neighbours_exact {text : String} (parsed : parseCron text = .ok e) {t : DateTime}
    (begun : minSeconds ≤ t.seconds) (inRange : t.seconds ≤ maxSeconds) : e.Exact t := by
  have fields := (parseCron_wellFormed parsed).second
  refine ⟨next_spec fields inRange, prev_spec fields begun, ?_, fun n => nextN_chain fields n inRange,
    fun n => nextN_complete fields n inRange⟩
  intro r p found back u after before fires
  have later := (next_adjacent fields inRange found).1.later
  have spec := prev_spec fields (t := r) (by omega)
  rw [back] at spec
  obtain ⟨-, ⟨-, within, ofClock, -⟩, greatest⟩ := spec
  have last := greatest ⟨.inl before, by omega, by omega, fires⟩
  omega

theorem quarter_hours_exact : ∃ e, parseCron "*/15 * * * *" = .ok e ∧
    e.Exact ⟨63000000007, 500000000⟩ ∧
    e.next ⟨63000000007, 500000000⟩ = some ⟨63000000900, 0⟩ ∧
    e.prev ⟨63000000007, 500000000⟩ = some ⟨63000000000, 0⟩ := by
  have parsed : parseCron "*/15 * * * *" =
      .ok ⟨[0], [0, 15, 30, 45], List.range 24, List.range' 1 31, List.range' 1 12, List.range 7⟩ := by
    decide
  exact ⟨_, parsed, neighbours_exact parsed (by decide) (by decide), by decide, by decide⟩

end Firefly.Scheduling.CronExpr
