import Firefly.Shared.Usize
import Firefly.Validators.Acceptance

set_option autoImplicit false

-- The digits are summed up from the right, every second one doubled. The sum is a `u32`.

namespace Firefly.Validators

def addU32 (build : Build) (a b : Nat) : Option Nat :=
  if build = .release ∨ a + b < 2 ^ 32 then some ((a + b) % 2 ^ 32) else none

def luhnDigit (double : Bool) (d : Nat) : Nat :=
  if double then (if 9 < d * 2 then d * 2 - 9 else d * 2) else d

def luhnLoop (build : Build) : Nat → Bool → List UInt8 → Option (Except String Nat)
  | sum, _, [] => some (.ok sum)
  | sum, double, c :: rest =>
    if ¬ isDigitByte c then some (.error "luhn: non-digit")
    else
      match addU32 build sum (luhnDigit double (digitOf c)) with
      | none => none
      | some sum => luhnLoop build sum (!double) rest

def validateLuhn (build : Build) (s : Text) : Option (Except String Unit) :=
  let clean := bytes (remove [' ', '-'] s)
  if clean.length < 2 then some (.error "luhn: too short")
  else
    match luhnLoop build 0 false clean.reverse with
    | none => none
    | some (.error reason) => some (.error reason)
    | some (.ok sum) => if sum % 10 ≠ 0 then some (.error "luhn: checksum") else some (.ok ())

def luhnFrom : Bool → List UInt8 → Nat
  | _, [] => 0
  | double, c :: rest => luhnDigit double (digitOf c) + luhnFrom (!double) rest

def luhnSum (s : Text) : Nat := luhnFrom false (bytes (remove [' ', '-'] s)).reverse

def kept (build : Build) (sum : Nat) : Option Nat :=
  if build = .release ∨ sum < 2 ^ 32 then some (sum % 2 ^ 32) else none

section Loop

variable {build : Build} {s : Text} {digits : List UInt8} {sum : Nat} {double : Bool}

theorem luhnLoop_digits (only : ∀ c ∈ digits, isDigitByte c = true) (small : sum < 2 ^ 32) :
    luhnLoop build sum double digits = (kept build (sum + luhnFrom double digits)).map .ok := by
  induction digits generalizing sum double with
  | nil =>
    rw [luhnLoop, luhnFrom, Nat.add_zero, kept, if_pos (.inr small), Nat.mod_eq_of_lt small]
    rfl
  | cons c rest ih =>
    have tail : ∀ c ∈ rest, isDigitByte c = true := fun d among => only d (by simp [among])
    rw [luhnLoop, if_neg (by simp [only c (by simp)]), luhnFrom, ← Nat.add_assoc, addU32]
    by_cases fits : build = .release ∨ sum + luhnDigit double (digitOf c) < 2 ^ 32
    · rw [if_pos fits]
      simp only
      rw [ih tail (Nat.mod_lt _ (by decide))]
      rcases fits with rfl | fits
      · simp [kept]
      · rw [Nat.mod_eq_of_lt fits]
    · rw [if_neg fits, kept, if_neg]
      · rfl
      · exact fun later => fits (later.imp_right fun bound => by omega)

theorem luhnLoop_ok {total : Nat} (read : luhnLoop build sum double digits = some (.ok total)) :
    ∀ c ∈ digits, isDigitByte c = true := by
  induction digits generalizing sum double with
  | nil => simp
  | cons c rest ih =>
    rw [luhnLoop] at read
    split at read
    · cases read
    · rename_i digit
      split at read
      · cases read
      · intro d among
        rcases List.mem_cons.mp among with rfl | later
        · simpa using digit
        · exact ih read d later

structure LuhnShape (s : Text) : Prop where
  long : 2 ≤ (bytes (remove [' ', '-'] s)).length
  digits : ∀ c ∈ bytes (remove [' ', '-'] s), isDigitByte c = true

theorem luhn_digits (shape : LuhnShape s) : validateLuhn build s =
    (kept build (luhnSum s)).map fun sum => if sum % 10 ≠ 0 then .error "luhn: checksum" else .ok () := by
  have only : ∀ c ∈ (bytes (remove [' ', '-'] s)).reverse, isDigitByte c = true :=
    fun c among => shape.digits c (List.mem_reverse.mp among)
  rw [validateLuhn, if_neg (by have := shape.long; omega), luhnLoop_digits only (by decide), Nat.zero_add,
    luhnSum]
  cases kept build (luhnFrom false (bytes (remove [' ', '-'] s)).reverse) with
  | none => rfl
  | some sum =>
    simp only [Option.map_some]
    split <;> rfl

theorem luhn_ok_iff (shape : LuhnShape s) : validateLuhn build s = some (.ok ()) ↔
    (build = .release ∨ luhnSum s < 2 ^ 32) ∧ luhnSum s % 2 ^ 32 % 10 = 0 := by
  rw [luhn_digits shape, kept]
  by_cases fits : build = .release ∨ luhnSum s < 2 ^ 32
  · rw [if_pos fits]
    by_cases even : luhnSum s % 2 ^ 32 % 10 = 0
    · simp only [Option.map_some, even, fits, ne_eq, not_true, if_false, and_self]
    · simp only [Option.map_some, even, ne_eq, not_false_eq_true, if_true, and_false]
      exact iff_of_false (by simp) id
  · rw [if_neg fits]
    exact iff_of_false (by simp) fun both => fits both.1

theorem luhn_error_iff (shape : LuhnShape s) : (∃ reason, validateLuhn build s = some (.error reason)) ↔
    (build = .release ∨ luhnSum s < 2 ^ 32) ∧ luhnSum s % 2 ^ 32 % 10 ≠ 0 := by
  rw [luhn_digits shape, kept]
  by_cases fits : build = .release ∨ luhnSum s < 2 ^ 32
  · rw [if_pos fits]
    by_cases even : luhnSum s % 2 ^ 32 % 10 = 0
    · simp only [Option.map_some, even, ne_eq, not_true, if_false, and_false]
      exact iff_of_false (by simp) id
    · simp only [Option.map_some, even, fits, ne_eq, not_false_eq_true, if_true, and_self]
      exact iff_of_true ⟨_, rfl⟩ trivial
  · rw [if_neg fits]
    exact iff_of_false (by simp) fun both => fits both.1

theorem luhn_accepted (accepted : validateLuhn build s = some (.ok ())) : LuhnShape s := by
  rw [validateLuhn] at accepted
  split at accepted
  · cases accepted
  · rename_i long
    split at accepted
    · cases accepted
    · cases accepted
    · rename_i sum read
      exact ⟨by omega, fun c among => luhnLoop_ok read c (List.mem_reverse.mpr among)⟩

end Loop

end Firefly.Validators
