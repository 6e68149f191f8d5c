import Firefly.Shared.Double

set_option autoImplicit false

/-!
# Durations

Whole nanoseconds, of fewer than `2 ^ 64` seconds. A number of seconds is rounded to the nearest nanosecond.
-/

namespace Firefly

@[ext]
structure Duration where
  nanos : Nat
  bounded : nanos < 2 ^ 64 * 10 ^ 9
deriving DecidableEq

namespace Duration

instance : LE Duration := ⟨fun a b => a.nanos ≤ b.nanos⟩

instance (a b : Duration) : Decidable (a ≤ b) := inferInstanceAs (Decidable (a.nanos ≤ b.nanos))

def zero : Duration := ⟨0, by decide⟩

def asSecs (d : Duration) : ℚ := d.nanos / 10 ^ 9

def tryFromSecs (secs : ℚ) : Option Duration :=
  let nanos := (Double.halfEven (secs * 10 ^ 9)).toNat
  if secs < 0 then none
  else if bounded : nanos < 2 ^ 64 * 10 ^ 9 then some ⟨nanos, bounded⟩
  else none

/-- Half a nanosecond less than `2 ^ 64` seconds is rounded up to them. -/
def TooLong (nanos : ℚ) : Prop := 2 ^ 64 * 10 ^ 9 - 1 / 2 ≤ nanos

theorem limit_le_halfEven_iff {q : ℚ} : 2 ^ 64 * 10 ^ 9 ≤ Double.halfEven q ↔ TooLong q := by
  have half : Double.halfEven (2 ^ 64 * 10 ^ 9 - 1 / 2) = 2 ^ 64 * 10 ^ 9 := by decide +kernel
  constructor
  · intro large
    by_contra short
    have below : q < 2 ^ 64 * 10 ^ 9 - 1 / 2 := not_le.mp short
    have floor : (q.floor : ℚ) ≤ q := Rat.floor_le q
    have whole : ((2 ^ 64 * 10 ^ 9 : Int) : ℚ) = 2 ^ 64 * 10 ^ 9 := by norm_cast
    rcases Double.halfEven_cases q with ⟨down, -⟩ | ⟨up, high⟩
    · have reach : ((2 ^ 64 * 10 ^ 9 : Int) : ℚ) ≤ q.floor := by
        exact_mod_cast down ▸ large
      rw [whole] at reach
      linarith
    · have reach : ((2 ^ 64 * 10 ^ 9 : Int) : ℚ) ≤ (q.floor + 1 : Int) := by
        exact_mod_cast up ▸ large
      rw [whole, Int.cast_add, Int.cast_one] at reach
      linarith
  · intro long
    rw [← half]
    exact Double.halfEven_mono long

theorem halfEven_nonneg {q : ℚ} (nonneg : 0 ≤ q) : 0 ≤ Double.halfEven q := by
  rw [← Double.halfEven_int 0]
  exact Double.halfEven_mono (by exact_mod_cast nonneg)

theorem halfEven_eq_zero_iff {q : ℚ} (nonneg : 0 ≤ q) : Double.halfEven q = 0 ↔ q ≤ 1 / 2 := by
  have half : Double.halfEven (1 / 2) = 0 := by decide +kernel
  constructor
  · intro none_
    by_contra more
    have above : 1 / 2 < q := not_le.mp more
    rcases Double.halfEven_cases q with ⟨down, low⟩ | ⟨up, -⟩
    · rw [← down, none_, Int.cast_zero, sub_zero] at low
      exact more low
    · have floor : (0 : Int) ≤ q.floor := Rat.le_floor_iff.mpr (by exact_mod_cast nonneg)
      omega
  · intro small
    have top := Double.halfEven_mono small
    rw [half] at top
    exact le_antisymm top (halfEven_nonneg nonneg)

theorem nanos_ofSecs {secs : ℚ} (nonneg : 0 ≤ secs) : ((tryFromSecs secs).getD zero).nanos =
    if 2 ^ 64 * 10 ^ 9 ≤ Double.halfEven (secs * 10 ^ 9) then 0
    else (Double.halfEven (secs * 10 ^ 9)).toNat := by
  have scaled := halfEven_nonneg (mul_nonneg nonneg (by norm_num : (0 : ℚ) ≤ 10 ^ 9))
  rw [tryFromSecs, if_neg (not_lt.mpr nonneg)]
  split_ifs with fits large large
  · omega
  · rfl
  · rfl
  · omega

end Duration

end Firefly
