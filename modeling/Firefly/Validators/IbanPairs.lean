import Firefly.Shared.Decimal
import Firefly.Validators.Acceptance

set_option autoImplicit false

namespace Firefly.Validators

open CheckDigits

section Expansion

variable {c : Char} {s t : Text}

def expand (c : Char) : List Nat :=
  if c.isDigit then [c.toNat - 48] else [(c.toNat - 55) / 10, (c.toNat - 55) % 10]

def expansion (s : Text) : List Nat := s.flatMap expand

def number (s : Text) : Nat := decimal (expansion s)

theorem not_isDigit_of_isUpper (upper : c.isUpper = true) : c.isDigit = false := by
  have high := isUpper_bounds upper
  cases digit : c.isDigit with
  | false => rfl
  | true =>
    have low := isDigit_bounds digit
    omega

theorem decimal_pair (digits : List Nat) (a b : Nat) :
    decimal (digits ++ [a, b]) = decimal digits * 100 + (a * 10 + b) := by
  have two : decimal [a, b] = a * 10 + b := by
    rw [show [a, b] = [a] ++ [b] from rfl, decimal_concat, decimal_singleton]
  rw [decimal_append, two]
  rfl

theorem number_append_digit (digit : c.isDigit = true) (digits : List Nat) :
    decimal (digits ++ expand c) = decimal digits * 10 + (c.toNat - 48) := by
  rw [expand, if_pos digit, decimal_concat]

theorem number_append_letter (upper : c.isUpper = true) (digits : List Nat) :
    decimal (digits ++ expand c) = decimal digits * 100 + (c.toNat - 55) := by
  rw [expand, not_isDigit_of_isUpper upper, if_neg (by simp), decimal_pair]
  omega

theorem remainder_from (digits : List Nat) (alnum : ∀ c ∈ s, isUpperAlnum c = true) :
    remainder (decimal digits % 97) s = some (decimal (digits ++ expansion s) % 97) := by
  induction s generalizing digits with
  | nil => simp [remainder, expansion]
  | cons c s ih =>
    have rest := ih (digits ++ expand c) fun d among => alnum d (by simp [among])
    have whole : digits ++ expansion (c :: s) = digits ++ expand c ++ expansion s := by simp [expansion]
    rw [whole, ← rest]
    rcases Bool.or_eq_true_iff.mp (alnum c (by simp)) with upper | digit
    · have high := isUpper_bounds upper
      rw [remainder, if_neg (by simp [not_isDigit_of_isUpper upper]), if_pos upper,
        number_append_letter upper]
      congr 1
      change (decimal digits % 97 * 100 + (c.toNat - 65) + 10) % 97 = _
      omega
    · rw [remainder, if_pos digit, number_append_digit digit]
      congr 1
      change (decimal digits % 97 * 10 + (c.toNat - 48)) % 97 = _
      omega

theorem remainder_eq (alnum : ∀ c ∈ s, isUpperAlnum c = true) : remainder 0 s = some (number s % 97) :=
  remainder_from [] alnum

theorem number_digits (s : Text) {a b : Char} (first : a.isDigit = true) (second : b.isDigit = true) :
    number (s ++ [a, b]) = number s * 100 + ((a.toNat - 48) * 10 + (b.toNat - 48)) := by
  have pair : expansion (s ++ [a, b]) = expansion s ++ [a.toNat - 48, b.toNat - 48] := by
    simp [expansion, expand, first, second]
  rw [number, pair, decimal_pair]
  rfl

end Expansion

theorem registered_shape : ∀ entry ∈ IBAN_COUNTRY_LENGTHS,
    entry.1.toList.length = 2 ∧ entry.1.toList.all Char.isUpper = true ∧
      ibanCountryLength entry.1.toList = some entry.2 := by
  decide +kernel

theorem iban_pairs (u : UpperCase) (country : String) (want : Nat)
    (registered : (country, want) ∈ IBAN_COUNTRY_LENGTHS) (bban : Text)
    (alnum : ∀ c ∈ bban, isUpperAlnum c = true) (long : bban.length + 4 = want) (a b : Char)
    (upperCase : normalise u [' '] [a, b] = [a, b]) :
    (validateIban u (country.toList ++ [a, b] ++ bban) = .ok () ↔
      isUpperAlnum a = true ∧ isUpperAlnum b = true ∧
        number (bban ++ country.toList ++ [a, b]) % 97 = 1) ∧
    (a.isDigit = true → b.isDigit = true →
      2 ≤ (a.toNat - 48) * 10 + (b.toNat - 48) → (a.toNat - 48) * 10 + (b.toNat - 48) ≤ 98 →
      (validateIban u (country.toList ++ [a, b] ++ bban) = .ok () ↔
        (a.toNat - 48) * 10 + (b.toNat - 48) = 98 - number (bban ++ country.toList ++ ['0', '0']) % 97)) ∧
    (isUpperAlnum a = true → isUpperAlnum b = true →
      ∀ first rest, bban ++ country.toList ++ [a, b] = first ++ rest →
        remainder 0 first = some (number first % 97)) := by
  obtain ⟨two, letters, known⟩ := registered_shape _ registered
  have upper : ∀ c ∈ country.toList, isUpperAlnum c = true := fun c among =>
    Bool.or_eq_true_iff.mpr (.inl (List.all_eq_true.mp letters c among))
  have plain : ∀ c ∈ [' '], isUpperAlnum c = false := by simp; rfl
  have normal : normalise u [' '] (country.toList ++ [a, b] ++ bban) = country.toList ++ [a, b] ++ bban := by
    rw [normalise_append, normalise_append, normalise_alnum plain upper, upperCase,
      normalise_alnum plain alnum]
  have front : (country.toList ++ [a, b] ++ bban).take 4 = country.toList ++ [a, b] :=
    List.take_left' (by simp [two])
  have back : (country.toList ++ [a, b] ++ bban).drop 4 = bban := List.drop_left' (by simp [two])
  have code : (country.toList ++ [a, b] ++ bban).take 2 = country.toList := by
    rw [List.append_assoc]
    exact List.take_left' two
  have size : (country.toList ++ [a, b] ++ bban).length = want := by
    simp only [List.length_append, two, List.length_cons, List.length_nil]
    omega
  have every : isUpperAlnum a = true → isUpperAlnum b = true →
      ∀ c ∈ bban ++ country.toList ++ [a, b], isUpperAlnum c = true := by
    intro first second c among
    rcases List.mem_append.mp among with own | pair
    · exact (List.mem_append.mp own).elim (alnum c) (upper c)
    · rcases List.mem_cons.mp pair with rfl | pair
      · exact first
      · obtain rfl := List.mem_singleton.mp pair
        exact second
  have moved : (country.toList ++ [a, b] ++ bban).Perm (bban ++ country.toList ++ [a, b]) := by
    rw [List.append_assoc bban]
    exact List.perm_append_comm
  have accepted : validateIban u (country.toList ++ [a, b] ++ bban) = .ok () ↔
      isUpperAlnum a = true ∧ isUpperAlnum b = true ∧
        number (bban ++ country.toList ++ [a, b]) % 97 = 1 := by
    rw [iban_accepted_iff, normal, front, back, code, size, known, ← List.append_assoc]
    constructor
    · rintro ⟨all, -, -, streamed⟩
      have pair : isUpperAlnum a = true ∧ isUpperAlnum b = true := ⟨all a (by simp), all b (by simp)⟩
      rw [remainder_eq (every pair.1 pair.2)] at streamed
      exact ⟨pair.1, pair.2, Option.some.inj streamed⟩
    · rintro ⟨first, second, one⟩
      refine ⟨fun c among => every first second c (moved.subset among), by omega, rfl, ?_⟩
      rw [remainder_eq (every first second), one]
  refine ⟨accepted, fun first second low high => ?_, fun first second start rest split => ?_⟩
  · have pair : number (bban ++ country.toList ++ [a, b]) =
        number (bban ++ country.toList ++ ['0', '0']) + ((a.toNat - 48) * 10 + (b.toNat - 48)) := by
      rw [number_digits _ first second, number_digits _ rfl rfl]
      rfl
    have digits : isUpperAlnum a = true ∧ isUpperAlnum b = true :=
      ⟨Bool.or_eq_true_iff.mpr (.inr first), Bool.or_eq_true_iff.mpr (.inr second)⟩
    rw [accepted, pair]
    constructor
    · rintro ⟨-, -, one⟩
      omega
    · intro same
      exact ⟨digits.1, digits.2, by omega⟩
  · refine remainder_eq fun c among => every first second c ?_
    rw [split]
    exact List.mem_append_left rest among

def plainUpper : UpperCase where
  upper c := if c.toNat < 128 then [c.toUpper] else (foldedIntoAscii.lookup c).getD [c]
  ascii c low := if_pos low
  folded := by decide +kernel
  beyond c high unfolded := by
    rw [if_neg (by omega), List.lookup_eq_none_iff.mpr, Option.getD_none]
    · exact ⟨c, by simp, high⟩
    · exact fun entry listed => bne_iff_ne.mpr (Ne.symm (unfolded entry listed))

theorem norwegian_pair :
    validateIban plainUpper ("NO".toList ++ ['9', '8'] ++ "00000000022".toList) = .ok () :=
  ((iban_pairs plainUpper "NO" 15 (by simp [IBAN_COUNTRY_LENGTHS]) "00000000022".toList
    (by simp [isUpperAlnum, Char.isDigit]) (by simp) '9' '8' (by decide +kernel)).2.1
    rfl rfl (by decide) (by decide)).mpr (by decide +kernel)

theorem two_norwegian_pairs : ¬ ∃! pair : Char × Char,
    validateIban plainUpper ("NO".toList ++ [pair.1, pair.2] ++ "00000000022".toList) = .ok () := by
  rintro ⟨pair, -, unique⟩
  have canonical := unique ('9', '8') (by rfl)
  have other := unique ('0', '1') (by rfl)
  exact absurd (canonical.trans other.symm) (by decide)

end Firefly.Validators
