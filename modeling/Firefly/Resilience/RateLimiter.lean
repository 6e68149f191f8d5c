import Firefly.Shared.TokenBucket

set_option autoImplicit false

-- Rates, tokens and instants are rational numbers, an instant in seconds.

namespace Firefly.Resilience

structure Bucket where
  tokens : ℚ
  lastTick : ℚ
deriving DecidableEq

structure RateLimiter where
  rate : ℚ
  -- From a `usize`.
  burst : Nat

namespace RateLimiter

variable (rl : RateLimiter) {start s t : ℚ} {calls : List ℚ}

def newBucket (now : ℚ) : Bucket := ⟨rl.burst, now⟩

def refill (now : ℚ) (bucket : Bucket) : Bucket :=
  -- `duration_since` saturates at zero
  let elapsed := max 0 (now - bucket.lastTick)
  let tokens := bucket.tokens + elapsed * rl.rate
  { tokens := if tokens > rl.burst then rl.burst else tokens, lastTick := now }

def allow (now : ℚ) (bucket : Bucket) : Bool × Bucket :=
  let bucket := rl.refill now bucket
  if bucket.tokens < 1 then (false, bucket)
  else (true, { bucket with tokens := bucket.tokens - 1 })

structure Traffic where
  bucket : Bucket
  admitted : List ℚ

def Traffic.call (traffic : Traffic) (now : ℚ) : Traffic :=
  let (ok, bucket) := rl.allow now traffic.bucket
  ⟨bucket, if ok then now :: traffic.admitted else traffic.admitted⟩

def traffic (start : ℚ) (calls : List ℚ) : Traffic :=
  calls.foldl (Traffic.call rl) ⟨rl.newBucket start, []⟩

def continuous : TokenBucket ℚ := ⟨rl.rate, rl.burst⟩

structure Traffic.Lazy (now : ℚ) (traffic : Traffic) : Prop where
  past : traffic.bucket.lastTick ≤ now
  ordered : traffic.admitted.Pairwise (· ≥ ·)
  ticked : ∀ a ∈ traffic.admitted, a ≤ traffic.bucket.lastTick
  served : rl.continuous.Served traffic.admitted
  tokens : traffic.bucket.tokens = rl.continuous.level traffic.admitted traffic.bucket.lastTick

variable {rl} {u : ℚ} {traffic : Traffic}

theorem refill_lastTick (bucket : Bucket) : (rl.refill t bucket).lastTick = t := rfl

theorem refill_tokens (rate : 0 ≤ rl.rate) (inv : traffic.Lazy rl t) :
    (rl.refill t traffic.bucket).tokens = rl.continuous.level traffic.admitted t := by
  have later : rl.continuous.filled (rl.continuous.level traffic.admitted traffic.bucket.lastTick)
      (t - traffic.bucket.lastTick) = rl.continuous.level traffic.admitted t :=
    rl.continuous.level_later rate inv.past
  rw [← later, ← inv.tokens, TokenBucket.filled, refill, max_eq_right (sub_nonneg.mpr inv.past), mul_comm]
  simp only [continuous, gt_iff_lt]
  split
  · rename_i full
    exact (min_eq_left full.le).symm
  · rename_i room
    exact (min_eq_right (not_lt.mp room)).symm

theorem allow_iff (rate : 0 ≤ rl.rate) (inv : traffic.Lazy rl t) :
    (rl.allow t traffic.bucket).1 = true ↔ 1 ≤ rl.continuous.level traffic.admitted t := by
  rw [← refill_tokens rate inv, allow]
  by_cases low : (rl.refill t traffic.bucket).tokens < 1
  · simp [low, not_le.mpr low]
  · simp [low, not_lt.mp low]

theorem call_lazy (rate : 0 ≤ rl.rate) (inv : traffic.Lazy rl t) (forward : t ≤ u) :
    (traffic.call rl t).Lazy rl u := by
  have late : ∀ a ∈ traffic.admitted, a ≤ t := fun a member => (inv.ticked a member).trans inv.past
  by_cases low : (rl.refill t traffic.bucket).tokens < 1
  · have call : traffic.call rl t = ⟨rl.refill t traffic.bucket, traffic.admitted⟩ := by
      simp [Traffic.call, allow, low]
    rw [call]
    exact ⟨forward, inv.ordered, late, inv.served, refill_tokens rate inv⟩
  · have call : traffic.call rl t =
        ⟨⟨(rl.refill t traffic.bucket).tokens - 1, t⟩, t :: traffic.admitted⟩ := by
      simp [Traffic.call, allow, low, refill_lastTick]
    rw [refill_tokens rate inv] at call low
    rw [call]
    constructor
    · exact forward
    · exact List.pairwise_cons.mpr ⟨late, inv.ordered⟩
    · exact List.forall_mem_cons.mpr ⟨le_refl t, late⟩
    · exact ⟨not_lt.mp low, inv.served⟩
    · exact rl.continuous.level_taken.symm

theorem new_lazy (forward : start ≤ t) : (Traffic.mk (rl.newBucket start) []).Lazy rl t :=
  ⟨forward, .nil, List.forall_mem_nil _, trivial, rfl⟩

theorem calls_lazy (rate : 0 ≤ rl.rate) (inv : traffic.Lazy rl s) (forward : (s :: calls).Pairwise (· ≤ ·))
    (past : ∀ a ∈ s :: calls, a ≤ t) :
    (calls.foldl (Traffic.call rl) traffic).Lazy rl t := by
  induction calls generalizing traffic s with
  | nil => exact ⟨inv.past.trans (past s (.head _)), inv.ordered, inv.ticked, inv.served, inv.tokens⟩
  | cons now calls ih =>
    obtain ⟨ahead, forward⟩ := List.pairwise_cons.mp forward
    have moved : traffic.Lazy rl now :=
      ⟨inv.past.trans (ahead now (.head _)), inv.ordered, inv.ticked, inv.served, inv.tokens⟩
    exact ih (call_lazy rate moved (le_refl now)) forward fun a member => past a (.tail _ member)

theorem traffic_lazy (rate : 0 ≤ rl.rate) (forward : (start :: calls).Pairwise (· ≤ ·))
    (past : ∀ a ∈ start :: calls, a ≤ t) : (rl.traffic start calls).Lazy rl t :=
  calls_lazy rate (new_lazy (le_refl start)) forward past

theorem tokens_bounded (rate : 0 ≤ rl.rate) (inv : traffic.Lazy rl t) :
    0 ≤ traffic.bucket.tokens ∧ traffic.bucket.tokens ≤ rl.burst := by
  rw [inv.tokens]
  exact ⟨rl.continuous.level_nonneg rate rl.burst.cast_nonneg inv.served inv.ticked,
    rl.continuous.level_le_burst _ _⟩

theorem admissions_conform (rl : RateLimiter) (rate : 0 ≤ rl.rate) (start : ℚ) (calls : List ℚ)
    (forward : (start :: calls).Pairwise (· ≤ ·)) :
    (∀ s t, s ≤ t → ((rl.traffic start calls).admitted.countP fun a => s ≤ a ∧ a ≤ t : ℚ) ≤
      rl.burst + rl.rate * (t - s)) ∧
    (0 ≤ (rl.traffic start calls).bucket.tokens ∧ (rl.traffic start calls).bucket.tokens ≤ rl.burst) ∧
    ∀ t, (∀ a ∈ start :: calls, a ≤ t) → ((rl.allow t (rl.traffic start calls).bucket).1 = false ↔
      rl.continuous.level (rl.traffic start calls).admitted t < 1) := by
  have reached (t : ℚ) (past : ∀ a ∈ start :: calls, a ≤ t) := traffic_lazy rate forward past
  obtain ⟨last, past⟩ : ∃ t, ∀ a ∈ start :: calls, a ≤ t := by
    simpa only [List.mem_toFinset] using (start :: calls).toFinset.exists_le
  refine ⟨fun s t interval => ?_, tokens_bounded rate (reached last past), fun t past => ?_⟩
  · exact rl.continuous.served_in_interval rate rl.burst.cast_nonneg (reached last past).served
      (reached last past).ordered interval
  · rw [← not_le, ← allow_iff rate (reached t past), Bool.not_eq_true]

def twoAtOnce : RateLimiter := ⟨1, 2⟩

theorem third_call_rejected :
    (twoAtOnce.traffic 0 [0, 0, 0, 1]).admitted = [1, 0, 0] ∧
    ((twoAtOnce.traffic 0 [0, 0, 0, 1]).admitted.countP fun a => 0 ≤ a ∧ a ≤ 1 : ℚ) ≤
      (2 : Nat) + 1 * (1 - 0) ∧
    ((twoAtOnce.allow 1 (twoAtOnce.traffic 0 [0, 0, 0, 1]).bucket).1 = false ↔
      twoAtOnce.continuous.level (twoAtOnce.traffic 0 [0, 0, 0, 1]).admitted 1 < 1) := by
  have both := admissions_conform twoAtOnce (by decide) 0 [0, 0, 0, 1] (by decide)
  exact ⟨by decide +kernel, both.1 0 1 (by decide), both.2.2 1 (by decide)⟩

end RateLimiter

end Firefly.Resilience
