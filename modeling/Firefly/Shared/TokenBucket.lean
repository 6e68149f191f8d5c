import Mathlib

set_option autoImplicit false

/-!
# The token bucket

A bucket holds at most `burst` tokens and fills at `rate` tokens for each unit of time, without a step in
between. It is full in the beginning, and a call takes one token. The calls that took a token are listed
with the latest first.
-/

namespace Firefly

variable {K : Type*} [Field K] [LinearOrder K] [IsStrictOrderedRing K]

structure TokenBucket (K : Type*) where
  rate : K
  burst : K

namespace TokenBucket

variable (tb : TokenBucket K) {s t u held : K} {taken : List K}

def filled (held elapsed : K) : K := min tb.burst (held + tb.rate * elapsed)

def level : List K → K → K
  | [], _ => tb.burst
  | last :: earlier, t => tb.filled (level earlier last - 1) (t - last)

def since (s : K) (taken : List K) : Nat := taken.countP (s ≤ ·)

omit [IsStrictOrderedRing K] in
theorem level_le_burst (taken : List K) (t : K) : tb.level taken t ≤ tb.burst := by
  cases taken with
  | nil => exact le_refl _
  | cons last earlier => exact min_le_left _ _

theorem filled_filled (rate : 0 ≤ tb.rate) {first second : K} (forward : 0 ≤ second) :
    tb.filled (tb.filled held first) second = tb.filled held (first + second) := by
  have grows : 0 ≤ tb.rate * second := mul_nonneg rate forward
  rw [filled, filled, filled, min_add, ← min_assoc, min_eq_left (le_add_of_nonneg_right grows), mul_add,
    add_assoc]

omit [IsStrictOrderedRing K] in
theorem filled_zero (full : held ≤ tb.burst) : tb.filled held 0 = held := by
  rw [filled, mul_zero, add_zero, min_eq_right full]

theorem level_later (rate : 0 ≤ tb.rate) (forward : t ≤ u) :
    tb.filled (tb.level taken t) (u - t) = tb.level taken u := by
  cases taken with
  | nil =>
    have grows : 0 ≤ tb.rate * (u - t) := mul_nonneg rate (sub_nonneg.mpr forward)
    exact min_eq_left (by rw [level]; linarith)
  | cons last earlier =>
    rw [level, level, tb.filled_filled rate (sub_nonneg.mpr forward), sub_add_sub_cancel']

theorem level_taken : tb.level (t :: taken) t = tb.level taken t - 1 := by
  have full := tb.level_le_burst taken t
  rw [level, sub_self, tb.filled_zero (by linarith)]

def Served : List K → Prop
  | [] => True
  | last :: earlier => 1 ≤ tb.level earlier last ∧ Served earlier

theorem level_nonneg (rate : 0 ≤ tb.rate) (burst : 0 ≤ tb.burst) (served : tb.Served taken)
    (late : ∀ a ∈ taken, a ≤ t) : 0 ≤ tb.level taken t := by
  cases taken with
  | nil => exact burst
  | cons last earlier =>
    have grows : 0 ≤ tb.rate * (t - last) := mul_nonneg rate (sub_nonneg.mpr (late last (.head _)))
    have found := served.1
    exact le_min burst (by linarith)

omit [Field K] [IsStrictOrderedRing K] in
theorem since_eq_zero (early : ∀ a ∈ taken, a < s) : since s taken = 0 :=
  List.countP_eq_zero.mpr fun a member => by simpa using early a member

theorem level_add_since (rate : 0 ≤ tb.rate) (ordered : taken.Pairwise (· ≥ ·))
    (late : ∀ a ∈ taken, a ≤ t) (interval : s ≤ t) :
    tb.level taken t + since s taken ≤ tb.burst + tb.rate * (t - s) := by
  have grows : 0 ≤ tb.rate * (t - s) := mul_nonneg rate (sub_nonneg.mpr interval)
  have nothing_since (none_ : since s taken = 0) :
      tb.level taken t + since s taken ≤ tb.burst + tb.rate * (t - s) := by
    have full := tb.level_le_burst taken t
    rw [none_, Nat.cast_zero]
    linarith
  induction taken generalizing t with
  | nil => exact nothing_since rfl
  | cons last earlier ih =>
    obtain ⟨latest, ordered⟩ := List.pairwise_cons.mp ordered
    by_cases early : last < s
    · refine nothing_since (since_eq_zero fun a member => ?_)
      rcases List.mem_cons.mp member with rfl | member
      · exact early
      · exact (latest a member).trans_lt early
    · have inside : s ≤ last := not_lt.mp early
      have before : 0 ≤ tb.rate * (last - s) := mul_nonneg rate (sub_nonneg.mpr inside)
      have bound := ih ordered latest inside before fun none_ => by
        have full := tb.level_le_burst earlier last
        rw [none_, Nat.cast_zero]
        linarith
      have counted : since s (last :: earlier) = since s earlier + 1 := by
        simp [since, inside]
      have left : tb.level (last :: earlier) t ≤ tb.level earlier last - 1 + tb.rate * (t - last) :=
        min_le_right _ _
      rw [counted, Nat.cast_add, Nat.cast_one]
      have split : tb.rate * (t - s) = tb.rate * (t - last) + tb.rate * (last - s) := by ring
      linarith

theorem served_in_interval (rate : 0 ≤ tb.rate) (burst : 0 ≤ tb.burst) (served : tb.Served taken)
    (ordered : taken.Pairwise (· ≥ ·)) (interval : s ≤ t) :
    (taken.countP fun a => s ≤ a ∧ a ≤ t : K) ≤ tb.burst + tb.rate * (t - s) := by
  have grows : 0 ≤ tb.rate * (t - s) := mul_nonneg rate (sub_nonneg.mpr interval)
  induction taken with
  | nil =>
    rw [List.countP_nil, Nat.cast_zero]
    linarith
  | cons last earlier ih =>
    obtain ⟨latest, rest⟩ := List.pairwise_cons.mp ordered
    by_cases inside : last ≤ t
    · have late : ∀ a ∈ last :: earlier, a ≤ t := by
        intro a member
        rcases List.mem_cons.mp member with rfl | member
        · exact inside
        · exact (latest a member).trans inside
      have left := tb.level_nonneg rate burst served late
      have bound := tb.level_add_since rate ordered late interval
      have counted : (last :: earlier).countP (fun a => decide (s ≤ a ∧ a ≤ t)) =
          since s (last :: earlier) :=
        List.countP_congr fun a member => by simp [late a member]
      rw [counted]
      linarith
    · rw [List.countP_cons_of_neg (by simp [inside])]
      exact ih served.2 rest

end TokenBucket

end Firefly
