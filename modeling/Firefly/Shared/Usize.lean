import Mathlib

set_option autoImplicit false

/-!
# The arithmetic of `usize` on 64-bit targets
-/

namespace Firefly

abbrev Usize := UInt64

inductive Build where
  | debug
  | release
deriving DecidableEq, Repr

namespace Usize

def maxValue : Usize := 18446744073709551615

def saturatingSub (a b : Usize) : Usize := if a ≤ b then 0 else a - b

def saturatingMul (a b : Usize) : Usize := if a.toNat * b.toNat < 2 ^ 64 then a * b else maxValue

/-- `none` is a panic. -/
def mul (build : Build) (a b : Usize) : Option Usize :=
  if build = .release ∨ a.toNat * b.toNat < 2 ^ 64 then some (a * b) else none

def add (build : Build) (a b : Usize) : Option Usize :=
  if build = .release ∨ a.toNat + b.toNat < 2 ^ 64 then some (a + b) else none

theorem toNat_saturatingSub_one (a : Usize) : (saturatingSub a 1).toNat = a.toNat - 1 := by
  rw [saturatingSub]
  split
  · rename_i small
    have bound : a.toNat ≤ 1 := small
    have zero : (0 : Usize).toNat = 0 := rfl
    omega
  · rename_i large
    have above : ¬ a.toNat ≤ 1 := large
    rw [UInt64.toNat_sub_of_le a 1 (by rw [UInt64.le_iff_toNat_le]; change 1 ≤ a.toNat; omega)]
    rfl

theorem toNat_saturatingMul (a b : Usize) :
    (saturatingMul a b).toNat = min (a.toNat * b.toNat) (2 ^ 64 - 1) := by
  rw [saturatingMul]
  split
  · rename_i fits
    rw [UInt64.toNat_mul, Nat.mod_eq_of_lt fits]
    exact (min_eq_left (by omega)).symm
  · rename_i large
    change 2 ^ 64 - 1 = _
    exact (min_eq_right (by omega)).symm

theorem mul_eq_exact {build : Build} {a b product : Usize} (exact : product.toNat = a.toNat * b.toNat) :
    mul build a b = some product := by
  have fits : a.toNat * b.toNat < 2 ^ 64 := exact ▸ product.toNat_lt
  rw [mul, if_pos (.inr fits)]
  congr 1
  rw [← UInt64.toNat_inj, UInt64.toNat_mul, Nat.mod_eq_of_lt fits, exact]

theorem toNat_add_of_fits {a b : Usize} (fits : a.toNat + b.toNat < 2 ^ 64) :
    (a + b).toNat = a.toNat + b.toNat := by
  rw [UInt64.toNat_add, Nat.mod_eq_of_lt fits]

theorem toNat_min (a b : Usize) : (min a b).toNat = min a.toNat b.toNat := by
  change (if a ≤ b then a else b).toNat = _
  split
  · rename_i less
    exact (min_eq_left less).symm
  · rename_i greater
    exact (min_eq_right (not_le.mp greater).le).symm

end Usize

end Firefly
