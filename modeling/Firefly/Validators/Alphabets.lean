import Firefly.Validators.IbanPairs

set_option autoImplicit false

namespace Firefly.Validators

inductive Validator where
  | iban
  | bic
  | vat
  | dni
  | nie
  | nationalId
  | taxId

namespace Validator

def validate (u : UpperCase) (s : Text) : Validator → Except String Unit
  | iban => validateIban u s
  | bic => validateBic u s
  | vat => validateVat u s
  | dni => validateDni u s
  | nie => validateNie u s
  | nationalId => validateNationalId u s
  | taxId => validateTaxId u s

def separators : Validator → List Char
  | nationalId => [' ', '-']
  | taxId => []
  | _ => [' ']

def Alphabet (v : Validator) (s : Text) : Prop := ∀ c ∈ s, c.isAlphanum = true ∨ c ∈ v.separators

def asciiNormal (v : Validator) (s : Text) : Text := (remove v.separators s).map Char.toUpper

end Validator

def Folded (s : Text) : Prop := ∃ entry ∈ foldedIntoAscii, entry.1 ∈ s

open Validator

section Characters

variable {c : Char}

theorem isAlphanum_lt (alnum : c.isAlphanum = true) : c.toNat < 128 := by
  simp only [Char.isAlphanum, Char.isAlpha, Bool.or_eq_true] at alnum
  rcases alnum with (upper | lower) | digit
  · have := isUpper_bounds upper
    omega
  · have := isLower_bounds lower
    omega
  · have := isDigit_bounds digit
    omega

theorem isAlphanum_of_toUpper (alnum : c.toUpper.isAlphanum = true) : c.isAlphanum = true := by
  cases lower : c.isLower with
  | true => simp [Char.isAlphanum, Char.isAlpha, lower]
  | false => rwa [Char.toUpper_eq_of_not_isLower (by simp [lower])] at alnum

end Characters

section Accepted

variable {u : UpperCase} {v : Validator} {s t : Text}

theorem accepted_alphanum (accepted : v.validate u s = .ok ()) :
    ∀ c ∈ normalise u v.separators s, c.isAlphanum = true := by
  cases v with
  | iban => exact fun c among => isAlphanum_of_isUpperAlnum (((iban_accepted_iff u s).mp accepted).1 c among)
  | bic => exact fun c among => isAlphanum_of_isUpperAlnum (bic_alnum accepted c among)
  | vat => exact fun c among => isAlphanum_of_isUpperAlnum (vat_alnum accepted c among)
  | dni => exact spanish_alphanum accepted
  | nie => exact spanish_alphanum accepted
  | nationalId => exact nationalId_alphanum accepted
  | taxId => exact fun c among => isAlphanum_of_isUpperAlnum (taxId_alnum accepted c among)

theorem mem_normalise {c d : Char} {separators : List Char} (among : c ∈ s) (plain : c ∉ separators)
    (cased : d ∈ u.upper c) : d ∈ normalise u separators s :=
  List.mem_flatMap.mpr ⟨c, List.mem_filter.mpr ⟨among, decide_eq_true plain⟩, cased⟩

theorem folded_foreign (v : Validator) :
    ∀ entry ∈ foldedIntoAscii, ¬ (entry.1.isAlphanum = true ∨ entry.1 ∈ v.separators) := by
  cases v <;> decide +kernel

theorem alphabet_iff (accepted : v.validate u s = .ok ()) : v.Alphabet s ↔ ¬ Folded s := by
  constructor
  · rintro within ⟨entry, listed, among⟩
    exact folded_foreign v entry listed (within entry.1 among)
  · intro unfolded c among
    by_cases separator : c ∈ v.separators
    · exact .inr separator
    · left
      have normal : ∀ d ∈ u.upper c, d.isAlphanum = true := fun d cased =>
        accepted_alphanum accepted d (mem_normalise among separator cased)
      rcases Nat.lt_or_ge c.toNat 128 with low | high
      · rw [u.ascii c low] at normal
        exact isAlphanum_of_toUpper (normal c.toUpper (by simp))
      · obtain ⟨d, cased, wide⟩ := u.beyond c high fun entry listed same =>
          unfolded ⟨entry, listed, same ▸ among⟩
        have := isAlphanum_lt (normal d cased)
        omega

theorem normalise_eq_asciiNormal (within : v.Alphabet s) :
    normalise u v.separators s = v.asciiNormal s := by
  rw [normalise, UpperCase.toUppercase, Validator.asciiNormal, List.map_eq_flatMap]
  refine List.flatMap_congr fun c kept => u.ascii c ?_
  obtain ⟨among, plain⟩ := List.mem_filter.mp kept
  exact isAlphanum_lt ((within c among).resolve_right (of_decide_eq_true plain))

theorem alphabet_exactly (u : UpperCase) (v : Validator) (s t : Text)
    (first : v.validate u s = .ok ()) (second : v.validate u t = .ok ()) :
    (v.Alphabet s ∧ v.Alphabet t ∧
      (normalise u v.separators s = normalise u v.separators t ↔ v.asciiNormal s = v.asciiNormal t)) ↔
    ¬ Folded s ∧ ¬ Folded t := by
  rw [← alphabet_iff first, ← alphabet_iff second]
  constructor
  · rintro ⟨one, other, -⟩
    exact ⟨one, other⟩
  · rintro ⟨one, other⟩
    refine ⟨one, other, ?_⟩
    rw [normalise_eq_asciiNormal one, normalise_eq_asciiNormal other]

theorem dni_alphabet :
    Validator.dni.Alphabet "00000015s".toList ∧ Validator.dni.Alphabet "0000 0015 S".toList ∧
      (normalise plainUpper [' '] "00000015s".toList = normalise plainUpper [' '] "0000 0015 S".toList ↔
        Validator.dni.asciiNormal "00000015s".toList = Validator.dni.asciiNormal "0000 0015 S".toList) :=
  (alphabet_exactly plainUpper .dni "00000015s".toList "0000 0015 S".toList (by rfl) (by rfl)).mpr
    ⟨by unfold Folded; decide +kernel, by unfold Folded; decide +kernel⟩

def lookalikes : Validator → Text × Text
  | iban => ("Lı4900000000000000000".toList, "LI4900000000000000000".toList)
  | bic => ("DEUTDEﬀ".toList, "DEUTDEFF".toList)
  | vat => ("DEﬀ1".toList, "DEFF1".toList)
  | dni => ("00000015ſ".toList, "00000015S".toList)
  | nie => ("X0000015ſ".toList, "X0000015S".toList)
  | nationalId => ("ſſſſſ".toList, "SSSSS".toList)
  | taxId => ("ſab".toList, "SAB".toList)

theorem accepted_beyond_ascii : ∃ spellings : Validator → Text × Text, ∀ v : Validator,
    v.validate plainUpper (spellings v).1 = .ok () ∧ v.validate plainUpper (spellings v).2 = .ok () ∧
      ¬ v.Alphabet (spellings v).1 ∧
      normalise plainUpper v.separators (spellings v).1 = normalise plainUpper v.separators (spellings v).2 ∧
      v.asciiNormal (spellings v).1 ≠ v.asciiNormal (spellings v).2 := by
  refine ⟨lookalikes, fun v => ?_⟩
  have first : v.validate plainUpper (lookalikes v).1 = .ok () := by cases v <;> decide +kernel
  have folded : Folded (lookalikes v).1 := by
    unfold Folded
    cases v <;> decide +kernel
  have outside : ¬ v.Alphabet (lookalikes v).1 := fun within => (alphabet_iff first).mp within folded
  refine ⟨first, ?_, outside, ?_, ?_⟩
  · cases v <;> decide +kernel
  · cases v <;> decide +kernel
  · cases v <;> decide +kernel

end Accepted

end Firefly.Validators
