import Firefly.Validators.Identifiers

set_option autoImplicit false

namespace Firefly.Validators

open Encoding

section Characters

variable {c : Char}

theorem isDigit_bounds (digit : c.isDigit = true) : 48 ≤ c.toNat ∧ c.toNat ≤ 57 :=
  Char.isDigit_iff_toNat.mp digit

theorem isUpper_bounds (upper : c.isUpper = true) : 65 ≤ c.toNat ∧ c.toNat ≤ 90 := by
  simpa [Char.isUpper, UInt32.le_iff_toNat_le] using upper

theorem isLower_bounds (lower : c.isLower = true) : 97 ≤ c.toNat ∧ c.toNat ≤ 122 := by
  simpa [Char.isLower, UInt32.le_iff_toNat_le] using lower

theorem isUpperAlnum_lt (alnum : isUpperAlnum c = true) : c.toNat < 128 := by
  rcases Bool.or_eq_true_iff.mp alnum with upper | digit
  · have := isUpper_bounds upper
    omega
  · have := isDigit_bounds digit
    omega

theorem toUpper_of_isUpperAlnum (alnum : isUpperAlnum c = true) : c.toUpper = c := by
  refine Char.toUpper_eq_of_not_isLower fun lower => ?_
  have := isLower_bounds lower
  rcases Bool.or_eq_true_iff.mp alnum with upper | digit
  · have := isUpper_bounds upper
    omega
  · have := isDigit_bounds digit
    omega

end Characters

section Normal

variable {u : UpperCase} {separators : List Char} {s t : Text} {c : Char}

@[simp] theorem normalise_append (s t : Text) :
    normalise u separators (s ++ t) = normalise u separators s ++ normalise u separators t := by
  simp [normalise, remove, UpperCase.toUppercase]

theorem normalise_cons (c : Char) (s : Text) :
    normalise u separators (c :: s) = normalise u separators [c] ++ normalise u separators s :=
  normalise_append [c] s

theorem normalise_separator (listed : c ∈ separators) : normalise u separators [c] = [] := by
  simp [normalise, remove, UpperCase.toUppercase, listed]

theorem normalise_single (plain : c ∉ separators) : normalise u separators [c] = u.upper c := by
  simp [normalise, remove, UpperCase.toUppercase, plain]

theorem upper_of_alnum (u : UpperCase) (alnum : isUpperAlnum c = true) : u.upper c = [c] := by
  rw [u.ascii c (isUpperAlnum_lt alnum), toUpper_of_isUpperAlnum alnum]

theorem normalise_alnum (plain : ∀ c ∈ separators, isUpperAlnum c = false)
    (alnum : ∀ c ∈ s, isUpperAlnum c = true) : normalise u separators s = s := by
  induction s with
  | nil => rfl
  | cons c s ih =>
    have own := alnum c (by simp)
    have unlisted : c ∉ separators := fun listed => by simp [plain c listed] at own
    rw [normalise_cons, normalise_single unlisted, upper_of_alnum u own,
      ih fun d among => alnum d (by simp [among])]
    rfl

theorem bytes_cons (c : Char) (s : Text) : bytes (c :: s) = String.utf8EncodeChar c ++ bytes s := rfl

theorem length_utf8EncodeChar (ascii : c.toNat < 128) : (String.utf8EncodeChar c).length = 1 := by
  have single := congrArg List.length (asChar_ascii ascii)
  simpa using single

theorem length_bytes (ascii : ∀ c ∈ s, c.toNat < 128) : (bytes s).length = s.length := by
  induction s with
  | nil => rfl
  | cons c s ih =>
    rw [bytes_cons, List.length_append, length_utf8EncodeChar (ascii c (by simp)),
      ih fun d among => ascii d (by simp [among]), List.length_cons, Nat.add_comm]

end Normal

section Accepted

variable {u : UpperCase} {s : Text}

theorem iban_accepted_iff (u : UpperCase) (s : Text) : validateIban u s = .ok () ↔
    (∀ c ∈ normalise u [' '] s, isUpperAlnum c = true) ∧ 4 ≤ (normalise u [' '] s).length ∧
      ibanCountryLength ((normalise u [' '] s).take 2) = some (normalise u [' '] s).length ∧
      remainder 0 ((normalise u [' '] s).drop 4 ++ (normalise u [' '] s).take 4) = some 1 := by
  rw [validateIban]
  generalize normalise u [' '] s = input
  simp only
  by_cases alnum : ∀ c ∈ input, isUpperAlnum c = true
  · have size := length_bytes fun c among => isUpperAlnum_lt (alnum c among)
    have all : input.all isUpperAlnum = true := List.all_eq_true.mpr alnum
    rw [size]
    by_cases short : input.length < 4
    · rw [if_pos short]
      simp; omega
    · rw [if_neg short]
      have present : input.isEmpty = false := by
        cases input with
        | nil => simp at short
        | cons => rfl
      rw [if_neg (by simp [present, all])]
      cases known : ibanCountryLength (input.take 2) with
      | none => simp
      | some want =>
        by_cases long : input.length = want
        · subst long
          cases streamed : remainder 0 (input.drop 4 ++ input.take 4) with
          | none => simp
          | some rem =>
            by_cases one : rem = 1
            · subst one
              have long : 4 ≤ input.length := by omega
              simpa [long] using alnum
            · simp [one]
        · simp [long, Ne.symm long]
  · refine iff_of_false (fun accepted => ?_) fun all => alnum all.1
    split at accepted
    · cases accepted
    · rw [if_pos (.inr (by simpa using alnum))] at accepted
      cases accepted

theorem check_ok_iff {format : Bool} {reason : String} :
    (if format = true then .ok () else .error reason : Except String Unit) = .ok () ↔ format = true := by
  cases format <;> simp

theorem mem_take_or_drop {α : Type} {xs : List α} {x : α} (count : Nat) (among : x ∈ xs) :
    x ∈ xs.take count ∨ x ∈ xs.drop count := by
  rw [← List.take_append_drop count xs] at among
  exact List.mem_append.mp among

theorem alnum_of_parts {text : Text} (count : Nat) (letters : ∀ c ∈ text.take count, c.isUpper = true)
    (rest : ∀ c ∈ text.drop count, isUpperAlnum c = true) : ∀ c ∈ text, isUpperAlnum c = true := by
  intro c among
  rcases mem_take_or_drop count among with front | back
  · exact Bool.or_eq_true_iff.mpr (.inl (letters c front))
  · exact rest c back

theorem bic_alnum (accepted : validateBic u s = .ok ()) :
    ∀ c ∈ normalise u [' '] s, isUpperAlnum c = true := by
  have format := check_ok_iff.mp accepted
  simp only [bicFormat, Bool.and_eq_true, List.all_eq_true] at format
  exact alnum_of_parts 6 format.1.2 format.2

theorem vat_alnum (accepted : validateVat u s = .ok ()) :
    ∀ c ∈ normalise u [' '] s, isUpperAlnum c = true := by
  have format := check_ok_iff.mp accepted
  simp only [vatFormat, Bool.and_eq_true, List.all_eq_true] at format
  exact alnum_of_parts 2 format.1.2 format.2

theorem taxId_alnum (accepted : validateTaxId u s = .ok ()) :
    ∀ c ∈ normalise u [] s, isUpperAlnum c = true := by
  have format := check_ok_iff.mp accepted
  simp only [taxIdFormat, Bool.and_eq_true, List.all_eq_true] at format
  exact format.2

theorem isAlphanum_of_isUpperAlnum {c : Char} (alnum : isUpperAlnum c = true) : c.isAlphanum = true := by
  rcases Bool.or_eq_true_iff.mp alnum with upper | digit
  · simp [Char.isAlphanum, Char.isAlpha, upper]
  · simp [Char.isAlphanum, digit]

theorem isAsciiAlphanumeric_bounds {b : UInt8} (alnum : isAsciiAlphanumeric b = true) :
    48 ≤ b.toNat ∧ b.toNat ≤ 57 ∨ 65 ≤ b.toNat ∧ b.toNat ≤ 90 ∨ 97 ≤ b.toNat ∧ b.toNat ≤ 122 := by
  simp only [isAsciiAlphanumeric, Bool.or_eq_true, Bool.and_eq_true, decide_eq_true_eq,
    UInt8.le_iff_toNat_le] at alnum
  change ((48 ≤ b.toNat ∧ b.toNat ≤ 57) ∨ 65 ≤ b.toNat ∧ b.toNat ≤ 90) ∨
    97 ≤ b.toNat ∧ b.toNat ≤ 122 at alnum
  omega

theorem isAlphanum_of_bounds {c : Char}
    (bounds : 48 ≤ c.toNat ∧ c.toNat ≤ 57 ∨ 65 ≤ c.toNat ∧ c.toNat ≤ 90 ∨
      97 ≤ c.toNat ∧ c.toNat ≤ 122) : c.isAlphanum = true := by
  simp only [Char.isAlphanum, Char.isAlpha, Char.isUpper, Char.isLower, Bool.or_eq_true, Bool.and_eq_true,
    decide_eq_true_eq, Char.isDigit_iff_toNat, UInt32.le_iff_toNat_le]
  change ((65 ≤ c.toNat ∧ c.toNat ≤ 90) ∨ 97 ≤ c.toNat ∧ c.toNat ≤ 122) ∨
    48 ≤ c.toNat ∧ c.toNat ≤ 57
  omega

theorem alphanum_of_bytes {text : Text} (alnum : ∀ b ∈ bytes text, isAsciiAlphanumeric b = true) :
    ∀ c ∈ text, c.isAlphanum = true := by
  intro c among
  have own : ∀ b ∈ String.utf8EncodeChar c, isAsciiAlphanumeric b = true := fun b inside =>
    alnum b (List.mem_flatMap.mpr ⟨c, among, inside⟩)
  by_cases ascii : c.toNat < 128
  · have single := asChar_ascii ascii
    obtain ⟨b, encoded⟩ : ∃ b, String.utf8EncodeChar c = [b] := List.length_eq_one_iff.mp
      (length_utf8EncodeChar ascii)
    have here := isAsciiAlphanumeric_bounds (own b (by simp [encoded]))
    rw [encoded, List.map_singleton] at single
    have same : b.toNat = c.toNat := by
      rw [← List.singleton_injective single, asChar_toNat]
    exact isAlphanum_of_bounds (same ▸ here)
  · obtain ⟨long, wide⟩ := utf8_wide (Nat.not_lt.mp ascii)
    obtain ⟨b, inside⟩ := List.exists_mem_of_length_pos (Nat.lt_of_lt_of_le Nat.zero_lt_two long)
    have high := wide b inside
    have low := isAsciiAlphanumeric_bounds (own b inside)
    omega

theorem nationalId_alphanum (accepted : validateNationalId u s = .ok ()) :
    ∀ c ∈ normalise u [' ', '-'] s, c.isAlphanum = true := by
  apply alphanum_of_bytes
  rw [validateNationalId] at accepted
  split at accepted
  · cases accepted
  · rename_i fine
    have alnum : ¬ ¬ (bytes (normalise u [' ', '-'] s)).all isAsciiAlphanumeric = true :=
      fun odd => fine (.inr (.inr odd))
    exact List.all_eq_true.mp (not_not.mp alnum)

section Spanish

variable {input rest : List UInt8} {n m : Nat}

def isDigitByte (d : UInt8) : Bool := byte '0' ≤ d && d ≤ byte '9'

def digitOf (d : UInt8) : Nat := d.toNat - (byte '0').toNat

theorem dniNumber_ok (read : dniNumber n input = .ok m) : ∀ d ∈ input, isDigitByte d = true := by
  induction input generalizing n with
  | nil => simp
  | cons d input ih =>
    rw [dniNumber] at read
    split at read
    · rename_i digit
      intro e among
      rcases List.mem_cons.mp among with rfl | later
      · simpa [isDigitByte] using digit
      · exact ih read e later
    · cases read

theorem dniLetter_ok (accepted : dniLetter input = .ok ()) :
    ∃ n, dniNumber 0 (input.take 8) = .ok n ∧ DNI_LETTERS[n % 23]? = input[8]? := by
  rw [dniLetter] at accepted
  cases read : dniNumber 0 (input.take 8) with
  | error reason => simp [read, Bind.bind, Except.bind] at accepted
  | ok n =>
    simp only [read, Bind.bind, Except.bind] at accepted
    split at accepted
    · cases accepted
    · rename_i same
      exact ⟨n, rfl, not_not.mp same⟩

theorem isAsciiAlphanumeric_of_isDigitByte {d : UInt8} (digit : isDigitByte d = true) :
    isAsciiAlphanumeric d = true := by
  have digit : (decide (byte '0' ≤ d) && decide (d ≤ byte '9')) = true := digit
  rw [isAsciiAlphanumeric, digit]
  rfl

theorem dniLetter_alnum (long : input.length = 9) (accepted : dniLetter input = .ok ()) :
    ∀ b ∈ input, isAsciiAlphanumeric b = true := by
  obtain ⟨n, read, letter⟩ := dniLetter_ok accepted
  intro b among
  rcases mem_take_or_drop 8 among with front | back
  · exact isAsciiAlphanumeric_of_isDigitByte (dniNumber_ok read b front)
  · have letters : ∀ b ∈ DNI_LETTERS, isAsciiAlphanumeric b = true := by decide +kernel
    have last : input.drop 8 = [input[8]] := by
      rw [List.drop_eq_getElem_cons (by omega), List.drop_eq_nil_of_le (by omega)]
    rw [last, List.mem_singleton] at back
    have here : input[8]? = some b := by rw [List.getElem?_eq_getElem (by omega), back]
    exact letters b (List.mem_of_getElem? (letter.trans here))

theorem spanish_ok {nie : Bool} (accepted : spanishCheck u s nie = .ok ()) :
    (bytes (normalise u [' '] s)).length = 9 ∧
      if nie then ∃ digits, nieDigits (bytes (normalise u [' '] s)) = .ok digits ∧ dniLetter digits = .ok ()
      else dniLetter (bytes (normalise u [' '] s)) = .ok () := by
  rw [spanishCheck] at accepted
  split at accepted
  · cases accepted
  · rename_i long
    refine ⟨not_not.mp long, ?_⟩
    cases nie with
    | false => exact accepted
    | true =>
      cases read : nieDigits (bytes (normalise u [' '] s)) with
      | error reason => simp [read, Bind.bind, Except.bind] at accepted
      | ok digits =>
        simp only [read, Bind.bind, Except.bind] at accepted
        exact ⟨digits, rfl, accepted⟩

theorem nieDigits_ok {digits : List UInt8} (read : nieDigits input = .ok digits) :
    ∃ first digit rest, input = first :: rest ∧ digits = digit :: rest ∧ nieDigit first = .ok digit := by
  cases input with
  | nil => cases read
  | cons first rest =>
    rw [nieDigits] at read
    cases prefixed : nieDigit first with
    | error reason => simp [prefixed, Bind.bind, Except.bind] at read
    | ok digit =>
      simp only [prefixed, Bind.bind, Except.bind, pure, Except.pure, Except.ok.injEq] at read
      exact ⟨first, digit, rest, rfl, read.symm, prefixed⟩

theorem nieDigit_ok {first digit : UInt8} (read : nieDigit first = .ok digit) :
    first = byte 'X' ∨ first = byte 'Y' ∨ first = byte 'Z' := by
  unfold nieDigit at read
  split_ifs at read with x y z
  · exact .inl x
  · exact .inr (.inl y)
  · exact .inr (.inr z)

theorem spanish_alphanum {nie : Bool} (accepted : spanishCheck u s nie = .ok ()) :
    ∀ c ∈ normalise u [' '] s, c.isAlphanum = true := by
  apply alphanum_of_bytes
  obtain ⟨long, checked⟩ := spanish_ok accepted
  cases nie with
  | false => exact dniLetter_alnum long checked
  | true =>
    obtain ⟨digits, read, checked⟩ := checked
    obtain ⟨first, digit, rest, split, rfl, prefixed⟩ := nieDigits_ok read
    rw [split] at long ⊢
    intro b among
    rcases List.mem_cons.mp among with rfl | later
    · rcases nieDigit_ok prefixed with rfl | rfl | rfl <;> decide +kernel
    · exact dniLetter_alnum (by simpa using long) checked b (by simp [later])

end Spanish

end Accepted

end Firefly.Validators
