import Mathlib

set_option autoImplicit false

/-!
# Finite doubles at their exact values

Rounding to the nearest double, ties to even, and the shortest decimal that rounds back.
-/

namespace Firefly.Double

def halfEven (q : ℚ) : Int :=
  let below := q.floor
  let rest := q - below
  if rest < 1 / 2 then below
  else if 1 / 2 < rest then below + 1
  else if below % 2 = 0 then below else below + 1

def floorLog (base : Nat) (q : ℚ) : Int :=
  let guess := (Nat.log base q.num.natAbs : Int) - Nat.log base q.den
  if q < (base : ℚ) ^ guess then guess - 1 else guess

/-- `none` past the largest finite double. -/
def nearest (q : ℚ) : Option ℚ :=
  if q = 0 then some 0
  else
    let unit : ℚ := 2 ^ max (floorLog 2 |q| - 52) (-1074)
    let rounded := halfEven (q / unit) * unit
    if (2 : ℚ) ^ (1024 : Int) ≤ |rounded| then none else some rounded

def candidates (q : ℚ) (count : Nat) : List Nat :=
  let scaled := q / 10 ^ (floorLog 10 q - count + 1)
  let below := scaled.floor.toNat
  let both := if scaled - below ≤ 1 / 2 then [below, below + 1] else [below + 1, below]
  both.filter fun digits => nearest (digits * 10 ^ (floorLog 10 q - count + 1)) = some q

/-- Seventeen digits tell any two doubles apart. -/
def shortest (q : ℚ) : Nat → Nat → Nat × Int
  | 0, count => (halfEven (q / 10 ^ (floorLog 10 q - count + 1)) |>.toNat,
      floorLog 10 q - count + 1)
  | turns + 1, count =>
    match candidates q count with
    | digits :: _ => (digits, floorLog 10 q - count + 1)
    | [] => shortest q turns (count + 1)

def scientific (q : ℚ) : List Char × Int :=
  let (value, scale) := shortest q 17 1
  let digits := Nat.toDigits 10 value
  (digits.rdropWhile (· = '0'), scale + digits.length - 1)

end Firefly.Double

-- A larger number is never rounded to a smaller double.

namespace Firefly.Double

theorem halfEven_cases (q : ℚ) :
    halfEven q = q.floor ∧ q - q.floor ≤ 1 / 2 ∨ halfEven q = q.floor + 1 ∧ 1 / 2 ≤ q - q.floor := by
  rw [halfEven]
  split
  · rename_i below
    exact .inl ⟨rfl, below.le⟩
  · rename_i notBelow
    split
    · rename_i above
      exact .inr ⟨rfl, above.le⟩
    · rename_i notAbove
      have half : q - q.floor = 1 / 2 := le_antisymm (not_lt.mp notAbove) (not_lt.mp notBelow)
      split
      · exact .inl ⟨rfl, half.le⟩
      · exact .inr ⟨rfl, half.ge⟩

theorem halfEven_int (n : Int) : halfEven n = n := by
  simp [halfEven, Rat.floor_intCast]

theorem halfEven_mono : Monotone halfEven := by
  intro p q order
  have floors : p.floor ≤ q.floor := Rat.floor_monotone order
  rcases halfEven_cases p with ⟨down, low⟩ | ⟨up, high⟩
  · rcases halfEven_cases q with ⟨same, -⟩ | ⟨same, -⟩ <;> omega
  · rcases halfEven_cases q with ⟨same, low⟩ | ⟨same, -⟩
    · -- Two numbers over the same integer: both lie in the middle, or `q` is over a later one.
      rcases floors.lt_or_eq with later | level
      · omega
      · have rest : p - p.floor ≤ q - q.floor := by
          rw [level]
          linarith
        have both : p = q := by
          rw [level] at rest high
          linarith
        rw [both]
    · omega

theorem floor_neg_of_not_int {q : ℚ} (part : (q.floor : ℚ) < q) : (-q).floor = -q.floor - 1 := by
  have above : q < ((q.floor + 1 : Int) : ℚ) := Rat.lt_floor_add_one q
  push_cast at above
  apply le_antisymm
  · have bound : (-q).floor < -q.floor := by
      rw [Rat.floor_lt_iff]
      push_cast
      linarith
    omega
  · rw [Rat.le_floor_iff]
    push_cast
    linarith

theorem halfEven_neg (q : ℚ) : halfEven (-q) = -halfEven q := by
  rcases (Rat.floor_le q).eq_or_lt with whole | part
  · rw [← whole, ← Int.cast_neg, halfEven_int, halfEven_int]
  · have floor := floor_neg_of_not_int part
    have rest : -q - ((-q.floor - 1 : Int) : ℚ) = 1 - (q - q.floor) := by
      push_cast
      ring
    simp only [halfEven, floor, rest]
    -- The middle goes to the even neighbour on both sides of zero.
    split_ifs <;> first | omega | linarith

theorem floorLog_spec {q : ℚ} (positive : 0 < q) :
    (2 : ℚ) ^ floorLog 2 q ≤ q ∧ q < (2 : ℚ) ^ (floorLog 2 q + 1) := by
  have num : 0 < q.num := Rat.num_pos.mpr positive
  have den : (0 : ℚ) < q.den := by exact_mod_cast q.den_pos
  have fraction : q = (q.num.natAbs : ℚ) / q.den := by
    have whole : ((q.num.natAbs : Int) : ℚ) = q.num := by
      rw [Int.natAbs_of_nonneg num.le]
    calc q = q.num / q.den := (Rat.num_div_den q).symm
      _ = (q.num.natAbs : ℚ) / q.den := by rw [← whole, Int.cast_natCast]
  have numLow : ((2 : ℚ) ^ Nat.log 2 q.num.natAbs) ≤ q.num.natAbs := by
    exact_mod_cast Nat.pow_log_le_self 2 (by omega)
  have numHigh : (q.num.natAbs : ℚ) < 2 ^ (Nat.log 2 q.num.natAbs + 1) := by
    exact_mod_cast Nat.lt_pow_succ_log_self (by decide) _
  have denLow : ((2 : ℚ) ^ Nat.log 2 q.den) ≤ q.den := by
    exact_mod_cast Nat.pow_log_le_self 2 q.den_nz
  have denHigh : (q.den : ℚ) < 2 ^ (Nat.log 2 q.den + 1) := by
    exact_mod_cast Nat.lt_pow_succ_log_self (by decide) _
  have two : (2 : ℚ) ≠ 0 := by norm_num
  -- The guess is off by at most one.
  have low : (2 : ℚ) ^ ((Nat.log 2 q.num.natAbs : Int) - Nat.log 2 q.den - 1) ≤ q := by
    rw [zpow_sub₀ two, zpow_sub₀ two, zpow_natCast, zpow_natCast, zpow_one, div_div, ← pow_succ]
    exact (div_le_div₀ (by positivity) numLow den denHigh.le).trans_eq fraction.symm
  have high : q < (2 : ℚ) ^ ((Nat.log 2 q.num.natAbs : Int) - Nat.log 2 q.den + 1) := by
    rw [zpow_add₀ two, zpow_sub₀ two, zpow_natCast, zpow_natCast, zpow_one, div_mul_eq_mul_div, ← pow_succ]
    exact fraction.trans_lt (div_lt_div₀ numHigh denLow (by positivity) (by positivity))
  rw [floorLog]
  simp only [Nat.cast_ofNat]
  split
  · rename_i below
    exact ⟨low, by simpa using below⟩
  · rename_i above
    exact ⟨not_lt.mp above, high⟩

theorem floorLog_mono {p q : ℚ} (positive : 0 < p) (order : p ≤ q) : floorLog 2 p ≤ floorLog 2 q := by
  have low := (floorLog_spec positive).1
  have high := (floorLog_spec (positive.trans_le order)).2
  have powers : (2 : ℚ) ^ floorLog 2 p < 2 ^ (floorLog 2 q + 1) := low.trans_lt (order.trans_lt high)
  have exponents := (zpow_lt_zpow_iff_right₀ (by norm_num)).mp powers
  omega

def lastPlace (q : ℚ) : Int := max (floorLog 2 |q| - 52) (-1074)

def rounded (q : ℚ) : ℚ := halfEven (q / 2 ^ lastPlace q) * 2 ^ lastPlace q

@[simp] theorem rounded_zero : rounded 0 = 0 := by
  rw [rounded, zero_div]
  have nothing : halfEven 0 = 0 := halfEven_int 0
  simp [nothing]

theorem rounded_neg (q : ℚ) : rounded (-q) = -rounded q := by
  rw [rounded, rounded, lastPlace, lastPlace, abs_neg, neg_div, halfEven_neg, Int.cast_neg, neg_mul]

theorem power_pos (e : Int) : (0 : ℚ) < 2 ^ e := zpow_pos (by norm_num) e

theorem rounded_le {q : ℚ} {e : Int} (place : lastPlace q ≤ e) (below : q ≤ 2 ^ e) : rounded q ≤ 2 ^ e := by
  obtain ⟨k, apart⟩ := Int.le.dest place
  have whole : (2 : ℚ) ^ e = ((2 ^ k : Int) : ℚ) * 2 ^ lastPlace q := by
    rw [← apart, zpow_add₀ (by norm_num), mul_comm, zpow_natCast]
    push_cast
    rfl
  rw [whole] at below ⊢
  have scaled := halfEven_mono ((div_le_iff₀ (power_pos _)).mpr below)
  rw [halfEven_int] at scaled
  exact mul_le_mul_of_nonneg_right (by exact_mod_cast scaled) (power_pos _).le

theorem le_rounded {q : ℚ} {e : Int} (place : lastPlace q ≤ e) (above : 2 ^ e ≤ q) : 2 ^ e ≤ rounded q := by
  obtain ⟨k, apart⟩ := Int.le.dest place
  have whole : (2 : ℚ) ^ e = ((2 ^ k : Int) : ℚ) * 2 ^ lastPlace q := by
    rw [← apart, zpow_add₀ (by norm_num), mul_comm, zpow_natCast]
    push_cast
    rfl
  rw [whole] at above ⊢
  have scaled := halfEven_mono ((le_div_iff₀ (power_pos _)).mpr above)
  rw [halfEven_int] at scaled
  exact mul_le_mul_of_nonneg_right (by exact_mod_cast scaled) (power_pos _).le

theorem rounded_nonneg {q : ℚ} (nonneg : 0 ≤ q) : 0 ≤ rounded q := by
  have scaled := halfEven_mono (div_nonneg nonneg (power_pos (lastPlace q)).le)
  rw [show (0 : ℚ) = ((0 : Int) : ℚ) by rfl, halfEven_int] at scaled
  exact mul_nonneg (by exact_mod_cast scaled) (power_pos _).le

theorem nearest_some {q r : ℚ} (near : nearest q = some r) : r = rounded q := by
  rw [nearest] at near
  split at near
  · rename_i zero
    rw [zero, rounded_zero]
    exact (Option.some.inj near).symm
  · simp only [ite_eq_iff, reduceCtorEq, and_false, Option.some.injEq, false_or] at near
    exact near.2.symm

theorem rounded_pos {q : ℚ} (one : 1 ≤ q) : 0 < rounded q := by
  have positive : 0 < q := by linarith
  have log : 0 ≤ floorLog 2 q := by
    have above := one.trans_lt (floorLog_spec positive).2
    rw [← zpow_zero (2 : ℚ), zpow_lt_zpow_iff_right₀ (by norm_num)] at above
    omega
  refine (power_pos _).trans_le (le_rounded ?_ (floorLog_spec positive).1)
  simp only [lastPlace, abs_of_pos positive]
  omega

theorem rounded_int_eq_zero {n : Int} : rounded n = 0 ↔ n = 0 := by
  constructor
  · intro none_
    rcases lt_trichotomy n 0 with negative | zero | positive
    · have one : (1 : ℚ) ≤ -n := by exact_mod_cast (by omega : (1 : Int) ≤ -n)
      have above := rounded_pos one
      rw [rounded_neg, none_, neg_zero] at above
      exact absurd above (lt_irrefl _)
    · exact zero
    · have one : (1 : ℚ) ≤ n := by exact_mod_cast positive
      exact absurd none_ (rounded_pos one).ne'
  · rintro rfl
    rw [Int.cast_zero, rounded_zero]

theorem rounded_mono_pos {p q : ℚ} (positive : 0 < p) (order : p ≤ q) : rounded p ≤ rounded q := by
  have larger := positive.trans_le order
  have logs := floorLog_mono positive order
  by_cases same : lastPlace p = lastPlace q
  · rw [rounded, rounded, same]
    have scaled := halfEven_mono (div_le_div_of_nonneg_right order (power_pos (lastPlace q)).le)
    exact mul_le_mul_of_nonneg_right (by exact_mod_cast scaled) (power_pos _).le
  · -- A power of two lies between the two numbers.
    simp only [lastPlace, abs_of_pos positive, abs_of_pos larger] at same
    have between : rounded p ≤ 2 ^ floorLog 2 q := by
      refine rounded_le ?_ ?_
      · simp only [lastPlace, abs_of_pos positive]
        omega
      · refine (floorLog_spec positive).2.le.trans (zpow_le_zpow_right₀ (by norm_num) ?_)
        omega
    refine between.trans (le_rounded ?_ (floorLog_spec larger).1)
    simp only [lastPlace, abs_of_pos larger]
    omega

theorem rounded_mono : Monotone rounded := by
  intro p q order
  rcases lt_trichotomy 0 p with positive | zero | negative
  · exact rounded_mono_pos positive order
  · subst zero
    rw [rounded_zero]
    exact rounded_nonneg order
  · by_cases sign : 0 ≤ q
    · have below : 0 ≤ rounded (-p) := rounded_nonneg (by linarith)
      rw [rounded_neg] at below
      linarith [rounded_nonneg sign]
    · have mirrored := rounded_mono_pos (p := -q) (q := -p) (by linarith) (by linarith)
      rw [rounded_neg, rounded_neg] at mirrored
      linarith

end Firefly.Double
