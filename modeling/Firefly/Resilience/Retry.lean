import Firefly.Shared.Duration
import Firefly.Shared.Usize

set_option autoImplicit false

-- A double is read as the rational number it stands for, and no operation rounds but the conversion
-- to a duration.

namespace Firefly.Resilience

structure RetryConfig where
  maxAttempts : Usize := 3
  delay : Duration := .zero
  backoff : ℚ := 1
  maxDelay : Option Duration := none
  jitter : ℚ := 0

namespace RetryConfig

variable {config : RetryConfig} {a b : Usize}

def asI32 (attempt : Usize) : Int := (attempt.toNat : Int).bmod (2 ^ 32)

def waitWith (config : RetryConfig) (attempt : Usize) (sample : ℚ) : Duration :=
  let base := config.delay.asSecs
  let computed := base * config.backoff ^ asI32 attempt
  let computed := if config.jitter ≠ 0 then computed + sample * computed else computed
  let capped := match config.maxDelay with
    | some cap => min computed cap.asSecs
    | none => computed
  -- Every rational number is finite.
  (Duration.tryFromSecs (max capped 0)).getD .zero

def delayFor (config : RetryConfig) (attempt : Usize) : Duration := config.waitWith attempt 0

def growth (config : RetryConfig) (attempt : Usize) : ℚ :=
  config.delay.nanos * config.backoff ^ asI32 attempt

def scheduled (config : RetryConfig) (attempt : Usize) : ℚ :=
  match config.maxDelay with
  | some cap => min (config.growth attempt) cap.nanos
  | none => config.growth attempt

def Outgrown (config : RetryConfig) (attempt : Usize) : Prop :=
  config.maxDelay = none ∧ Duration.TooLong (config.growth attempt)

theorem growth_nonneg (backoff : 1 ≤ config.backoff) : 0 ≤ config.growth a :=
  mul_nonneg (Nat.cast_nonneg _) (zpow_nonneg (by linarith) _)

theorem growth_mono (backoff : 1 ≤ config.backoff) (order : asI32 a ≤ asI32 b) :
    config.growth a ≤ config.growth b :=
  mul_le_mul_of_nonneg_left (zpow_le_zpow_right₀ backoff order) (Nat.cast_nonneg _)

theorem scheduled_nonneg (backoff : 1 ≤ config.backoff) : 0 ≤ config.scheduled a := by
  rw [scheduled]
  split
  · exact le_min (growth_nonneg backoff) (Nat.cast_nonneg _)
  · exact growth_nonneg backoff

theorem scheduled_mono (backoff : 1 ≤ config.backoff) (order : asI32 a ≤ asI32 b) :
    config.scheduled a ≤ config.scheduled b := by
  have grows := growth_mono backoff order
  rw [scheduled, scheduled]
  split
  · exact min_le_min_right _ grows
  · exact grows

theorem too_long_iff : 2 ^ 64 * 10 ^ 9 ≤ Double.halfEven (config.scheduled a) ↔ config.Outgrown a := by
  rw [scheduled, Outgrown]
  cases config.maxDelay with
  | none => simp only [Duration.limit_le_halfEven_iff, true_and]
  | some cap =>
    have below := Double.halfEven_mono (min_le_right (config.growth a) cap.nanos)
    have whole : Double.halfEven cap.nanos = cap.nanos := Double.halfEven_int cap.nanos
    have bounded := cap.bounded
    rw [whole] at below
    constructor
    · intro large
      simp only at large
      omega
    · rintro ⟨none_, -⟩
      cases none_

theorem waitWith_secs (backoff : 1 ≤ config.backoff) :
    config.delayFor a = (Duration.tryFromSecs (config.scheduled a / 10 ^ 9)).getD .zero := by
  have nonneg := scheduled_nonneg (a := a) backoff
  have secs : config.delay.asSecs * config.backoff ^ asI32 a = config.growth a / 10 ^ 9 := by
    rw [Duration.asSecs, growth, div_mul_eq_mul_div]
  have capped : (match config.maxDelay with
      | some cap => min (config.growth a / 10 ^ 9) cap.asSecs
      | none => config.growth a / 10 ^ 9) = config.scheduled a / 10 ^ 9 := by
    rw [scheduled]
    split
    · exact (min_div_div_right (by norm_num) _ _)
    · rfl
  rw [delayFor, waitWith]
  simp only [zero_mul, add_zero, ite_self, secs]
  rw [capped, max_eq_left (div_nonneg nonneg (by norm_num))]

theorem delayFor_nanos (backoff : 1 ≤ config.backoff) : (config.delayFor a).nanos =
    if 2 ^ 64 * 10 ^ 9 ≤ Double.halfEven (config.scheduled a) then 0
    else (Double.halfEven (config.scheduled a)).toNat := by
  have nonneg : 0 ≤ config.scheduled a / 10 ^ 9 := div_nonneg (scheduled_nonneg backoff) (by norm_num)
  rw [waitWith_secs backoff, Duration.nanos_ofSecs nonneg, div_mul_cancel₀ _ (by norm_num)]

theorem delayFor_eq_zero_iff (backoff : 1 ≤ config.backoff) :
    config.delayFor a = .zero ↔ config.scheduled a ≤ 1 / 2 ∨ config.Outgrown a := by
  have first := scheduled_nonneg (a := a) backoff
  have low := Duration.halfEven_nonneg first
  have nanos : config.delayFor a = .zero ↔ (config.delayFor a).nanos = 0 :=
    ⟨fun none_ => none_ ▸ rfl, fun none_ => Duration.ext none_⟩
  rw [nanos, delayFor_nanos backoff, ← too_long_iff, ← Duration.halfEven_eq_zero_iff first]
  split_ifs <;> omega

theorem delayFor_le_iff (backoff : 1 ≤ config.backoff) : config.delayFor a ≤ config.delayFor b ↔
    config.delayFor a = .zero ∨ ¬ config.Outgrown b ∧ (asI32 a ≤ asI32 b ∨
      Double.halfEven (config.scheduled a) = Double.halfEven (config.scheduled b)) := by
  have first := scheduled_nonneg (a := a) backoff
  have second := scheduled_nonneg (a := b) backoff
  have low := Duration.halfEven_nonneg first
  have high := Duration.halfEven_nonneg second
  rw [delayFor_eq_zero_iff backoff]
  change (config.delayFor a).nanos ≤ (config.delayFor b).nanos ↔ _
  rw [delayFor_nanos backoff, delayFor_nanos backoff, ← too_long_iff, ← too_long_iff,
    ← Duration.halfEven_eq_zero_iff first]
  rcases le_total (asI32 a) (asI32 b) with kept | wrapped
  · have grows := Double.halfEven_mono (scheduled_mono backoff kept)
    simp only [kept, true_or, and_true]
    split_ifs <;> omega
  · have shrinks := Double.halfEven_mono (scheduled_mono backoff wrapped)
    have same (ordered : asI32 a ≤ asI32 b) :
        Double.halfEven (config.scheduled a) = Double.halfEven (config.scheduled b) :=
      le_antisymm (Double.halfEven_mono (scheduled_mono backoff ordered)) shrinks
    have either : (asI32 a ≤ asI32 b ∨
        Double.halfEven (config.scheduled a) = Double.halfEven (config.scheduled b)) ↔
        Double.halfEven (config.scheduled a) = Double.halfEven (config.scheduled b) :=
      ⟨fun one => one.elim same id, .inr⟩
    rw [either]
    split_ifs <;> omega

theorem backoff_iff (config : RetryConfig) (backoff : 1 ≤ config.backoff) (a b : Usize) :
    (config.delayFor a ≤ config.delayFor b ↔
      (config.scheduled a ≤ 1 / 2 ∨ config.Outgrown a) ∨
      ¬ config.Outgrown b ∧ (asI32 a ≤ asI32 b ∨
        Double.halfEven (config.scheduled a) = Double.halfEven (config.scheduled b))) ∧
    (config.delayFor a = .zero ↔ config.scheduled a ≤ 1 / 2 ∨ config.Outgrown a) := by
  have none_ := delayFor_eq_zero_iff (a := a) backoff
  refine ⟨?_, none_⟩
  rw [← none_]
  exact delayFor_le_iff backoff

def tenfold : RetryConfig := { delay := ⟨10 ^ 9, by decide⟩, backoff := 10 }

theorem tenfold_grows : tenfold.delayFor 18 ≤ tenfold.delayFor 19 := by
  refine (backoff_iff tenfold (by decide) 18 19).1.mpr (.inr ⟨?_, .inl (by decide)⟩)
  rintro ⟨-, long⟩
  revert long
  rw [Duration.TooLong]
  decide +kernel

theorem tenfold_collapses : (1 : ℚ) ≤ tenfold.backoff ∧ tenfold.jitter = 0 ∧
    ¬ tenfold.delayFor 19 ≤ tenfold.delayFor 20 ∧ tenfold.delayFor 20 = .zero := by
  exact ⟨by decide, rfl, by decide +kernel, by decide +kernel⟩

end RetryConfig

end Firefly.Resilience
