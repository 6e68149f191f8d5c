import Mathlib

set_option autoImplicit false

/-!
# Decimal numbers modulo a number coprime to ten

A check digit detects a change of one part of a number when the modulus is coprime to the base: what
stands before and after the part cancels.
-/

namespace Firefly.CheckDigits

variable {m : Nat} {before after first second digits : List Nat}

def decimal (digits : List Nat) : Nat := Nat.ofDigits 10 digits.reverse

@[simp] theorem decimal_nil : decimal [] = 0 := rfl

@[simp] theorem decimal_singleton (d : Nat) : decimal [d] = d := by simp [decimal]

theorem decimal_append (first second : List Nat) :
    decimal (first ++ second) = decimal first * 10 ^ second.length + decimal second := by
  rw [decimal, List.reverse_append, Nat.ofDigits_append, List.length_reverse]
  simp only [decimal]
  ring

theorem decimal_concat (digits : List Nat) (d : Nat) :
    decimal (digits ++ [d]) = decimal digits * 10 + d := by
  rw [decimal_append, decimal_singleton, List.length_singleton, Nat.pow_one]

theorem decimal_congr_iff (coprime : Nat.Coprime 10 m) (same : first.length = second.length) :
    decimal (before ++ first ++ after) ≡ decimal (before ++ second ++ after) [MOD m] ↔
      decimal first ≡ decimal second [MOD m] := by
  have shifted : Nat.gcd m (10 ^ after.length) = 1 := (Nat.Coprime.pow_left _ coprime).symm
  have part : ∀ part : List Nat, decimal (before ++ part ++ after) =
      (decimal before * 10 ^ part.length + decimal part) * 10 ^ after.length + decimal after :=
    fun part => by rw [decimal_append, decimal_append]
  rw [part first, part second, same]
  constructor
  · intro congruent
    exact (Nat.ModEq.cancel_right_of_coprime shifted (Nat.ModEq.add_right_cancel' _ congruent)).add_left_cancel' _
  · intro congruent
    exact ((congruent.add_left _).mul_right _).add_right _

end Firefly.CheckDigits

-- Numbers printed to a minimal width, as in `{:020}`, and read back.

namespace Firefly.Decimal

def digits (n : Nat) : List Char := Nat.toDigits 10 n

def padded (width n : Nat) : List Char :=
  List.replicate (width - (digits n).length) '0' ++ digits n

def paddedString (width n : Nat) : String := String.ofList (padded width n)

def value (chars : List Char) : Nat := Nat.ofDigitChars 10 chars 0

@[simp] theorem value_digits (n : Nat) : value (digits n) = n := Nat.ofDigitChars_ten_toDigits

@[simp] theorem value_padded (width n : Nat) : value (padded width n) = n := by
  rw [value, padded, Nat.ofDigitChars_append, Nat.ofDigitChars_replicate_zero, Nat.mul_zero]
  exact value_digits n

theorem padded_injective (width : Nat) : Function.Injective (padded width) := by
  intro a b same
  have values := congrArg value same
  simpa using values

theorem paddedString_injective (width : Nat) : Function.Injective (paddedString width) := by
  intro a b same
  exact padded_injective width (String.ofList_injective same)

theorem isDigit_of_mem_digits {n : Nat} {c : Char} (member : c ∈ digits n) : c.isDigit :=
  Nat.isDigit_of_mem_toDigits (by decide) (by decide) member

theorem isDigit_of_mem_padded {width n : Nat} {c : Char} (member : c ∈ padded width n) :
    c.isDigit := by
  rcases List.mem_append.mp member with zero | digit
  · rw [List.eq_of_mem_replicate zero]
    rfl
  · exact isDigit_of_mem_digits digit

theorem value_dropZeros (chars : List Char) : value (chars.dropWhile (· = '0')) = value chars := by
  induction chars with
  | nil => rfl
  | cons c chars ih =>
    by_cases zero : c = '0'
    · subst zero
      rw [List.dropWhile_cons_of_pos (by simp), ih]
      simp [value, Nat.ofDigitChars_cons]
    · rw [List.dropWhile_cons_of_neg (by simpa using zero)]

def parseDigits (chars : List Char) : Option Nat :=
  if chars ≠ [] ∧ chars.all Char.isDigit then some (value chars) else none

/-- `str::parse::<i64>`: an optional sign, at least one digit, and the range of the type. -/
def parseI64 : List Char → Option Int
  | '-' :: chars => (parseDigits chars).bind fun n => if n ≤ 2 ^ 63 then some (-(n : Int)) else none
  | '+' :: chars => (parseDigits chars).bind fun n => if n < 2 ^ 63 then some (n : Int) else none
  | chars => (parseDigits chars).bind fun n => if n < 2 ^ 63 then some (n : Int) else none

theorem parseI64_digits {chars : List Char} (nonempty : chars ≠ [])
    (isDigits : ∀ c ∈ chars, c.isDigit) (fits : value chars < 2 ^ 63) :
    parseI64 chars = some (value chars : Int) := by
  have parsed : parseDigits chars = some (value chars) := by
    rw [parseDigits, if_pos ⟨nonempty, by simpa using isDigits⟩]
  rw [parseI64.eq_def]
  split
  · exact absurd (isDigits '-' (by simp)) (by decide)
  · exact absurd (isDigits '+' (by simp)) (by decide)
  · rw [parsed, Option.bind_some, if_pos fits]

theorem parseI64_padded (width : Nat) {n : Nat} (positive : 0 < n) (fits : n < 2 ^ 63) :
    parseI64 ((padded width n).dropWhile (· = '0')) = some (n : Int) := by
  have same : value ((padded width n).dropWhile (· = '0')) = n := by
    rw [value_dropZeros, value_padded]
  have nonempty : (padded width n).dropWhile (· = '0') ≠ [] := by
    intro empty
    rw [empty] at same
    simp [value] at same
    omega
  rw [parseI64_digits nonempty _ (by rwa [same]), same]
  intro c member
  exact isDigit_of_mem_padded (List.dropWhile_subset _ member)

end Firefly.Decimal

-- Zero-padded numbers of one width are ordered as texts just as they are as numbers, and so are
-- rows of such numbers that have the same widths and separators.

namespace Firefly.Decimal

theorem append_lt_append_iff {α : Type} [LinearOrder α] {a b c d : List α}
    (same : a.length = b.length) : a ++ c < b ++ d ↔ a < b ∨ a = b ∧ c < d := by
  induction a generalizing b with
  | nil =>
    obtain rfl : b = [] := by simpa [eq_comm] using same
    simp
  | cons x a ih =>
    cases b with
    | nil => simp at same
    | cons y b =>
      simp only [List.cons_append, List.cons_lt_cons_iff, ih (Nat.succ.inj same), List.cons.injEq]
      tauto

theorem value_cons (c : Char) (chars : List Char) :
    value (c :: chars) = 10 ^ chars.length * (c.toNat - '0'.toNat) + value chars := by
  rw [value, Nat.ofDigitChars_cons, Nat.ofDigitChars_eq_ofDigitChars_zero]
  simp [value]

theorem digit_bounds {c : Char} (digit : c.isDigit) : 48 ≤ c.toNat ∧ c.toNat ≤ 57 := by
  simpa [Char.isDigit, UInt32.le_iff_toNat_le] using digit

theorem value_lt {chars : List Char} (isDigits : ∀ c ∈ chars, c.isDigit) :
    value chars < 10 ^ chars.length := by
  induction chars with
  | nil => simp [value]
  | cons c chars ih =>
    have rest := ih fun d member => isDigits d (List.mem_cons_of_mem c member)
    have digit := digit_bounds (isDigits c List.mem_cons_self)
    have first : c.toNat - '0'.toNat ≤ 9 := by
      have zero : '0'.toNat = 48 := rfl
      omega
    rw [value_cons, List.length_cons, pow_succ]
    calc 10 ^ chars.length * (c.toNat - '0'.toNat) + value chars
        < 10 ^ chars.length * 9 + 10 ^ chars.length :=
          Nat.add_lt_add_of_le_of_lt (Nat.mul_le_mul_left _ first) rest
      _ = 10 ^ chars.length * 10 := by ring

theorem lt_iff_value_lt {one other : List Char} (same : one.length = other.length)
    (digits_one : ∀ c ∈ one, c.isDigit) (digits_other : ∀ c ∈ other, c.isDigit) :
    one < other ↔ value one < value other := by
  induction one generalizing other with
  | nil =>
    obtain rfl : other = [] := by simpa [eq_comm] using same
    simp
  | cons c one ih =>
    cases other with
    | nil => simp at same
    | cons d other =>
      have length : one.length = other.length := Nat.succ.inj same
      have behind_one : ∀ c ∈ one, c.isDigit := fun e member => digits_one e (.tail _ member)
      have behind_other : ∀ c ∈ other, c.isDigit := fun e member => digits_other e (.tail _ member)
      have rest := ih length behind_one behind_other
      have small_one := value_lt behind_one
      have small_other := value_lt behind_other
      have bounds_one := digit_bounds (digits_one c List.mem_cons_self)
      have bounds_other := digit_bounds (digits_other d List.mem_cons_self)
      have zero : '0'.toNat = 48 := rfl
      rw [List.cons_lt_cons_iff, rest, value_cons, value_cons, length, zero]
      rw [length] at small_one
      have order : c < d ↔ c.toNat < d.toNat := Iff.rfl
      rcases lt_trichotomy c.toNat d.toNat with less | equal | more
      · have step : 10 ^ other.length * (c.toNat - 48) + 10 ^ other.length ≤
            10 ^ other.length * (d.toNat - 48) := by
          rw [← Nat.mul_succ]
          exact Nat.mul_le_mul_left _ (by omega)
        simp only [order, less, true_or, true_iff]
        omega
      · have chars : c = d := Char.toNat_inj.mp equal
        simp [chars]
      · have step : 10 ^ other.length * (d.toNat - 48) + 10 ^ other.length ≤
            10 ^ other.length * (c.toNat - 48) := by
          rw [← Nat.mul_succ]
          exact Nat.mul_le_mul_left _ (by omega)
        have apart : c ≠ d := fun same => more.ne (congrArg Char.toNat same.symm)
        simp only [order, not_lt_of_gt more, false_or, apart, false_and, false_iff]
        omega

theorem length_padded {width n : Nat} (positive : 0 < width) (fits : n < 10 ^ width) :
    (padded width n).length = width := by
  have short : (digits n).length ≤ width := (Nat.length_toDigits_le_iff (by decide) positive).mpr fits
  rw [padded, List.length_append, List.length_replicate]
  omega

theorem padded_lt_iff {width m n : Nat} (positive : 0 < width) (fits : m < 10 ^ width)
    (fits' : n < 10 ^ width) : padded width m < padded width n ↔ m < n := by
  rw [lt_iff_value_lt ((length_padded positive fits).trans (length_padded positive fits').symm)
    (fun _ => isDigit_of_mem_padded) fun _ => isDigit_of_mem_padded, value_padded, value_padded]

structure Field where
  width : Nat
  number : Nat
  separator : List Char

def row (fields : List Field) : List Char :=
  fields.flatMap fun field => padded field.width field.number ++ field.separator

def Field.Fits (field : Field) : Prop := 0 < field.width ∧ field.number < 10 ^ field.width

theorem row_lt_iff {one other : List Field} (fits_one : ∀ field ∈ one, field.Fits)
    (fits_other : ∀ field ∈ other, field.Fits)
    (same : one.map (fun field => (field.width, field.separator)) =
      other.map fun field => (field.width, field.separator)) :
    row one < row other ↔ one.map Field.number < other.map Field.number := by
  induction one generalizing other with
  | nil =>
    obtain rfl : other = [] := List.map_eq_nil_iff.mp same.symm
    simp [row]
  | cons field one ih =>
    cases other with
    | nil => simp at same
    | cons field' other =>
      simp only [List.map_cons, List.cons.injEq, Prod.mk.injEq] at same
      obtain ⟨⟨width, separator⟩, rest⟩ := same
      obtain ⟨positive, fits⟩ := fits_one field List.mem_cons_self
      obtain ⟨positive', fits'⟩ := fits_other field' List.mem_cons_self
      have later := ih (fun f member => fits_one f (.tail _ member))
        (fun f member => fits_other f (.tail _ member)) rest
      rw [← width] at fits'
      have length : (padded field.width field.number).length =
          (padded field.width field'.number).length :=
        (length_padded positive fits).trans (length_padded positive fits').symm
      have text (f : Field) (fields : List Field) :
          row (f :: fields) = padded f.width f.number ++ (f.separator ++ row fields) := by
        simp [row]
      rw [text, text, ← width, ← separator, append_lt_append_iff length,
        append_lt_append_iff rfl, padded_lt_iff positive fits fits', later, List.map_cons,
        List.map_cons, List.cons_lt_cons_iff, (padded_injective field.width).eq_iff]
      simp

def readRow : List (Nat × Nat) → List Char → List Nat
  | [], _ => []
  | (width, gap) :: layout, chars =>
    value (chars.take width) :: readRow layout (chars.drop (width + gap))

theorem readRow_row {fields : List Field} (fits : ∀ field ∈ fields, field.Fits) :
    readRow (fields.map fun field => (field.width, field.separator.length)) (row fields) =
      fields.map Field.number := by
  induction fields with
  | nil => rfl
  | cons field fields ih =>
    obtain ⟨positive, small⟩ := fits field List.mem_cons_self
    have length := length_padded positive small
    have text : row (field :: fields) =
        padded field.width field.number ++ (field.separator ++ row fields) := by
      simp [row]
    have head : (row (field :: fields)).take field.width = padded field.width field.number := by
      rw [text, List.take_left' length]
    have tail : (row (field :: fields)).drop (field.width + field.separator.length) =
        row fields := by
      rw [text, ← List.append_assoc, List.drop_left' (by rw [List.length_append, length])]
    rw [List.map_cons, readRow, head, tail, value_padded,
      ih fun f member => fits f (.tail _ member), List.map_cons]

end Firefly.Decimal
