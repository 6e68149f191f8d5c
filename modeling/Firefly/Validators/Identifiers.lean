import Firefly.Shared.Encoding

set_option autoImplicit false

-- Each removes its separators, upper-cases what is left and checks the result.

namespace Firefly.Validators

abbrev Text := List Char

def foldedIntoAscii : List (Char × Text) :=
  [('ı', ['I']), ('ſ', ['S']), ('ß', ['S', 'S']), ('ﬀ', ['F', 'F']), ('ﬁ', ['F', 'I']), ('ﬂ', ['F', 'L']),
    ('ﬃ', ['F', 'F', 'I']), ('ﬄ', ['F', 'F', 'L']), ('ﬅ', ['S', 'T']), ('ﬆ', ['S', 'T'])]

/-- The full upper-case mapping of Unicode, a character at a time. -/
structure UpperCase where
  upper : Char → Text
  ascii : ∀ c : Char, c.toNat < 128 → upper c = [c.toUpper]
  folded : ∀ entry ∈ foldedIntoAscii, upper entry.1 = entry.2
  beyond : ∀ c : Char, 128 ≤ c.toNat → (∀ entry ∈ foldedIntoAscii, entry.1 ≠ c) →
    ∃ d ∈ upper c, 128 ≤ d.toNat

def UpperCase.toUppercase (u : UpperCase) (s : Text) : Text := s.flatMap u.upper

def remove (separators : List Char) (s : Text) : Text := s.filter (· ∉ separators)

def normalise (u : UpperCase) (separators : List Char) (s : Text) : Text :=
  u.toUppercase (remove separators s)

def bytes (s : Text) : List UInt8 := s.flatMap String.utf8EncodeChar

def byte (c : Char) : UInt8 := UInt8.ofNat c.toNat

def isUpperAlnum (c : Char) : Bool := c.isUpper || c.isDigit

def IBAN_COUNTRY_LENGTHS : List (String × Nat) :=
  [("AD", 24), ("AE", 23), ("AL", 28), ("AT", 20), ("AZ", 28), ("BA", 20), ("BE", 16), ("BG", 22),
    ("BH", 22), ("BR", 29), ("CH", 21), ("CR", 22), ("CY", 28), ("CZ", 24), ("DE", 22), ("DK", 18),
    ("DO", 28), ("EE", 20), ("ES", 24), ("FI", 18), ("FO", 18), ("FR", 27), ("GB", 22), ("GE", 22),
    ("GI", 23), ("GL", 18), ("GR", 27), ("GT", 28), ("HR", 21), ("HU", 28), ("IE", 22), ("IL", 23),
    ("IS", 26), ("IT", 27), ("JO", 30), ("KW", 30), ("KZ", 20), ("LB", 28), ("LC", 32), ("LI", 21),
    ("LT", 20), ("LU", 20), ("LV", 21), ("MC", 27), ("MD", 24), ("ME", 22), ("MK", 19), ("MR", 27),
    ("MT", 31), ("MU", 30), ("NL", 18), ("NO", 15), ("PK", 24), ("PL", 28), ("PS", 29), ("PT", 25),
    ("QA", 29), ("RO", 24), ("RS", 22), ("SA", 24), ("SC", 31), ("SE", 24), ("SI", 19), ("SK", 24),
    ("SM", 27), ("ST", 25), ("SV", 28), ("TL", 23), ("TN", 24), ("TR", 26), ("UA", 29), ("VA", 22),
    ("VG", 24), ("XK", 20)]

def ibanCountryLength (country : Text) : Option Nat :=
  (IBAN_COUNTRY_LENGTHS.find? fun entry => entry.1.toList = country).map Prod.snd

-- A binary search finds what is there, since the table is sorted.
example : IBAN_COUNTRY_LENGTHS.Pairwise fun first second => first.1 < second.1 := by decide

def remainder : Nat → Text → Option Nat
  | rem, [] => some rem
  | rem, c :: rest =>
    if c.isDigit then remainder ((rem * 10 + (c.toNat - '0'.toNat)) % 97) rest
    else if c.isUpper then remainder ((rem * 100 + (c.toNat - 'A'.toNat) + 10) % 97) rest
    else none

def validateIban (u : UpperCase) (s : Text) : Except String Unit :=
  let input := normalise u [' '] s
  if (bytes input).length < 4 then .error "iban: too short"
  else if input.isEmpty ∨ ¬ input.all isUpperAlnum then .error "iban: alphabet"
  else
    let country := input.take 2
    match ibanCountryLength country with
    | none => .error ("iban: unknown country " ++ String.ofList country)
    | some want =>
      if (bytes input).length ≠ want then
        .error ("iban: length " ++ toString (bytes input).length ++ ", want " ++ toString want ++ " for " ++
          String.ofList country)
      else
        match remainder 0 (input.drop 4 ++ input.take 4) with
        | none => .error "iban: alphabet"
        | some rem => if rem ≠ 1 then .error "iban: mod-97 mismatch" else .ok ()

-- `^[A-Z]{4}[A-Z]{2}[A-Z0-9]{2}([A-Z0-9]{3})?$`
def bicFormat (input : Text) : Bool :=
  (input.length = 8 || input.length = 11) && (input.take 6).all Char.isUpper &&
    (input.drop 6).all isUpperAlnum

def validateBic (u : UpperCase) (s : Text) : Except String Unit :=
  if bicFormat (normalise u [' '] s) then .ok () else .error "bic: format"

-- `^[A-Z]{2}[A-Z0-9]{2,12}$`
def vatFormat (input : Text) : Bool :=
  4 ≤ input.length && input.length ≤ 14 && (input.take 2).all Char.isUpper &&
    (input.drop 2).all isUpperAlnum

def validateVat (u : UpperCase) (s : Text) : Except String Unit :=
  if vatFormat (normalise u [' '] s) then .ok () else .error "vat: format"

def isAsciiAlphanumeric (b : UInt8) : Bool :=
  (byte '0' ≤ b && b ≤ byte '9') || (byte 'A' ≤ b && b ≤ byte 'Z') || (byte 'a' ≤ b && b ≤ byte 'z')

def validateNationalId (u : UpperCase) (s : Text) : Except String Unit :=
  let normalised := normalise u [' ', '-'] s
  let length := (bytes normalised).length
  if ¬ (5 ≤ length ∧ length ≤ 20) ∨ normalised.isEmpty ∨ ¬ (bytes normalised).all isAsciiAlphanumeric then
    .error "invalid national id"
  else .ok ()

-- `^[A-Z0-9]{3,20}$`
def taxIdFormat (input : Text) : Bool :=
  3 ≤ input.length && input.length ≤ 20 && input.all isUpperAlnum

def validateTaxId (u : UpperCase) (s : Text) : Except String Unit :=
  if taxIdFormat (normalise u [] s) then .ok () else .error "invalid tax id"

def DNI_LETTERS : List UInt8 := "TRWAGMYFPDXBNJZSQVHLCKE".toList.map byte

def nieDigit (first : UInt8) : Except String UInt8 :=
  if first = byte 'X' then .ok (byte '0')
  else if first = byte 'Y' then .ok (byte '1')
  else if first = byte 'Z' then .ok (byte '2')
  else .error "nie: prefix"

def dniNumber : Nat → List UInt8 → Except String Nat
  | n, [] => .ok n
  | n, d :: rest =>
    if byte '0' ≤ d ∧ d ≤ byte '9' then dniNumber (n * 10 + (d.toNat - (byte '0').toNat)) rest
    else .error "dni: digits"

def dniLetter (input : List UInt8) : Except String Unit := do
  let n ← dniNumber 0 (input.take 8)
  if DNI_LETTERS[n % 23]? ≠ input[8]? then .error "dni: checksum" else .ok ()

def nieDigits : List UInt8 → Except String (List UInt8)
  | first :: rest => do return (← nieDigit first) :: rest
  | [] => .error "nie: length"

def spanishCheck (u : UpperCase) (s : Text) (nie : Bool) : Except String Unit :=
  let input := bytes (normalise u [' '] s)
  if input.length ≠ 9 then .error (if nie then "nie: length" else "dni: length")
  else if nie then do dniLetter (← nieDigits input)
  else dniLetter input

def validateDni (u : UpperCase) (s : Text) : Except String Unit := spanishCheck u s false

def validateNie (u : UpperCase) (s : Text) : Except String Unit := spanishCheck u s true

end Firefly.Validators
