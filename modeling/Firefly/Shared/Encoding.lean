import Mathlib

set_option autoImplicit false

/-!
# Bytes as text

Hexadecimal and padded base64, and text as its UTF-8 bytes. Each keeps apart what it writes.
-/

namespace Firefly.Encoding

def hexDigit (n : Nat) : Char := if n < 10 then Char.ofNat (48 + n) else Char.ofNat (87 + n)

def hex (bytes : List UInt8) : List Char :=
  bytes.flatMap fun byte => [hexDigit (byte.toNat / 16), hexDigit (byte.toNat % 16)]

theorem hexDigit_apart : ∀ m < 16, ∀ n < 16, hexDigit m = hexDigit n → m = n := by decide

theorem hex_injective : Function.Injective hex := by
  intro first
  induction first with
  | nil =>
    intro second same
    cases second with
    | nil => rfl
    | cons byte rest => simp [hex] at same
  | cons byte rest ih =>
    intro second same
    cases second with
    | nil => simp [hex] at same
    | cons byte' rest' =>
      simp only [hex, List.flatMap_cons, List.cons_append, List.nil_append, List.cons.injEq] at same
      obtain ⟨high, low, tails⟩ := same
      have range := byte.toNat_lt
      have range' := byte'.toNat_lt
      have upper := hexDigit_apart _ (by omega) _ (by omega) high
      have lower := hexDigit_apart _ (by omega) _ (by omega) low
      obtain rfl : byte = byte' := UInt8.toNat_inj.mp (by omega)
      rw [ih tails]

example : hex [222, 173, 7] = "dead07".toList := by decide

def base64Digit (n : Nat) : Char :=
  if n < 26 then Char.ofNat (65 + n)
  else if n < 52 then Char.ofNat (71 + n)
  else if n < 62 then Char.ofNat (n - 4)
  else if n = 62 then '+' else '/'

def base64 : List UInt8 → List Char
  | [] => []
  | [a] => [base64Digit (a.toNat / 4), base64Digit (a.toNat % 4 * 16), '=', '=']
  | [a, b] => [base64Digit (a.toNat / 4), base64Digit (a.toNat % 4 * 16 + b.toNat / 16),
      base64Digit (b.toNat % 16 * 4), '=']
  | a :: b :: c :: rest =>
    base64Digit (a.toNat / 4) :: base64Digit (a.toNat % 4 * 16 + b.toNat / 16) ::
      base64Digit (b.toNat % 16 * 4 + c.toNat / 64) :: base64Digit (c.toNat % 64) :: base64 rest

example : base64 [102, 111, 111, 98] = "Zm9vYg==".toList := by decide

def base64Value (c : Char) : Nat :=
  if 'A' ≤ c ∧ c ≤ 'Z' then c.toNat - 65
  else if 'a' ≤ c ∧ c ≤ 'z' then c.toNat - 71
  else if '0' ≤ c ∧ c ≤ '9' then c.toNat + 4
  else if c = '+' then 62 else 63

theorem base64Value_digit : ∀ n < 64, base64Value (base64Digit n) = n ∧ base64Digit n ≠ '=' := by
  decide

theorem base64Digit_apart {m n : Nat} (hm : m < 64) (hn : n < 64)
    (same : base64Digit m = base64Digit n) : m = n := by
  rw [← (base64Value_digit m hm).1, same, (base64Value_digit n hn).1]

theorem base64_injective : Function.Injective base64 := by
  intro first
  -- the third and the fourth character tell how many bytes the group holds
  induction first using base64.induct with
  | case1 =>
    intro second same
    match second with
    | [] => rfl
    | [_] | [_, _] | _ :: _ :: _ :: _ => simp [base64] at same
  | case2 a =>
    have ra := a.toNat_lt
    intro second same
    match second with
    | [] => simp [base64] at same
    | [a'] =>
      have ra' := a'.toNat_lt
      simp only [base64, List.cons.injEq, and_true] at same
      have one := base64Digit_apart (by omega) (by omega) same.1
      have two := base64Digit_apart (by omega) (by omega) same.2
      obtain rfl : a = a' := UInt8.toNat_inj.mp (by omega)
      rfl
    | [a', b'] =>
      simp only [base64, List.cons.injEq] at same
      exact absurd same.2.2.1.symm (base64Value_digit _ (by omega)).2
    | a' :: b' :: c' :: rest =>
      have rc' := c'.toNat_lt
      simp only [base64, List.cons.injEq] at same
      exact absurd same.2.2.1.symm (base64Value_digit _ (by omega)).2
  | case3 a b =>
    have ra := a.toNat_lt
    have rb := b.toNat_lt
    intro second same
    match second with
    | [] => simp [base64] at same
    | [a'] =>
      simp only [base64, List.cons.injEq] at same
      exact absurd same.2.2.1 (base64Value_digit _ (by omega)).2
    | [a', b'] =>
      have ra' := a'.toNat_lt
      have rb' := b'.toNat_lt
      simp only [base64, List.cons.injEq, and_true] at same
      have one := base64Digit_apart (by omega) (by omega) same.1
      have two := base64Digit_apart (by omega) (by omega) same.2.1
      have three := base64Digit_apart (by omega) (by omega) same.2.2
      obtain rfl : a = a' := UInt8.toNat_inj.mp (by omega)
      obtain rfl : b = b' := UInt8.toNat_inj.mp (by omega)
      rfl
    | a' :: b' :: c' :: rest =>
      have rc' := c'.toNat_lt
      simp only [base64, List.cons.injEq] at same
      exact absurd same.2.2.2.1.symm (base64Value_digit _ (by omega)).2
  | case4 a b c rest ih =>
    have ra := a.toNat_lt
    have rb := b.toNat_lt
    have rc := c.toNat_lt
    intro second same
    match second with
    | [] => simp [base64] at same
    | [a'] =>
      simp only [base64, List.cons.injEq] at same
      exact absurd same.2.2.1 (base64Value_digit _ (by omega)).2
    | [a', b'] =>
      simp only [base64, List.cons.injEq] at same
      exact absurd same.2.2.2.1 (base64Value_digit _ (by omega)).2
    | a' :: b' :: c' :: rest' =>
      have ra' := a'.toNat_lt
      have rb' := b'.toNat_lt
      have rc' := c'.toNat_lt
      simp only [base64, List.cons.injEq] at same
      have one := base64Digit_apart (by omega) (by omega) same.1
      have two := base64Digit_apart (by omega) (by omega) same.2.1
      have three := base64Digit_apart (by omega) (by omega) same.2.2.1
      have four := base64Digit_apart (by omega) (by omega) same.2.2.2.1
      obtain rfl : a = a' := UInt8.toNat_inj.mp (by omega)
      obtain rfl : b = b' := UInt8.toNat_inj.mp (by omega)
      obtain rfl : c = c' := UInt8.toNat_inj.mp (by omega)
      rw [ih same.2.2.2.2]

def base64UrlDigit (n : Nat) : Char :=
  if n = 62 then '-' else if n = 63 then '_' else base64Digit n

def base64UrlValue (c : Char) : Option Nat :=
  if c = '-' then some 62
  else if c = '_' then some 63
  else if c.isAlphanum then some (base64Value c) else none

theorem base64UrlValue_digit :
    ∀ n < 64, base64UrlValue (base64UrlDigit n) = some n ∧ base64UrlDigit n ≠ ':' := by decide

def base64Url : List UInt8 → List Char
  | [] => []
  | [a] => [base64UrlDigit (a.toNat / 4), base64UrlDigit (a.toNat % 4 * 16)]
  | [a, b] => [base64UrlDigit (a.toNat / 4), base64UrlDigit (a.toNat % 4 * 16 + b.toNat / 16),
      base64UrlDigit (b.toNat % 16 * 4)]
  | a :: b :: c :: rest =>
    base64UrlDigit (a.toNat / 4) :: base64UrlDigit (a.toNat % 4 * 16 + b.toNat / 16) ::
      base64UrlDigit (b.toNat % 16 * 4 + c.toNat / 64) :: base64UrlDigit (c.toNat % 64) ::
        base64Url rest

def base64UrlBytes : List Nat → Option (List UInt8)
  | [] => some []
  | [_] => none
  | [p, q] => if q % 16 = 0 then some [UInt8.ofNat (p * 4 + q / 16)] else none
  | [p, q, r] =>
    if r % 4 = 0 then some [UInt8.ofNat (p * 4 + q / 16), UInt8.ofNat (q % 16 * 16 + r / 4)]
    else none
  | p :: q :: r :: t :: rest =>
    (base64UrlBytes rest).map fun bytes =>
      UInt8.ofNat (p * 4 + q / 16) :: UInt8.ofNat (q % 16 * 16 + r / 4) ::
        UInt8.ofNat (r % 4 * 64 + t) :: bytes

def base64UrlDecode (text : List Char) : Option (List UInt8) :=
  (text.mapM base64UrlValue).bind base64UrlBytes

def sextets : List UInt8 → List Nat
  | [] => []
  | [a] => [a.toNat / 4, a.toNat % 4 * 16]
  | [a, b] => [a.toNat / 4, a.toNat % 4 * 16 + b.toNat / 16, b.toNat % 16 * 4]
  | a :: b :: c :: rest =>
    a.toNat / 4 :: (a.toNat % 4 * 16 + b.toNat / 16) :: (b.toNat % 16 * 4 + c.toNat / 64) ::
      c.toNat % 64 :: sextets rest

theorem sextets_small (bytes : List UInt8) : ∀ n ∈ sextets bytes, n < 64 := by
  induction bytes using sextets.induct with
  | case1 => simp [sextets]
  | case2 a =>
    have ra := a.toNat_lt
    simp only [sextets, List.forall_mem_cons]
    exact ⟨by omega, by omega, by simp⟩
  | case3 a b =>
    have ra := a.toNat_lt
    have rb := b.toNat_lt
    simp only [sextets, List.forall_mem_cons]
    exact ⟨by omega, by omega, by omega, by simp⟩
  | case4 a b c rest ih =>
    have ra := a.toNat_lt
    have rb := b.toNat_lt
    have rc := c.toNat_lt
    simp only [sextets, List.forall_mem_cons]
    exact ⟨by omega, by omega, by omega, by omega, ih⟩

theorem base64Url_eq (bytes : List UInt8) : base64Url bytes = (sextets bytes).map base64UrlDigit := by
  induction bytes using sextets.induct with
  | case1 => rfl
  | case2 a => rfl
  | case3 a b => rfl
  | case4 a b c rest ih => simp [base64Url, sextets, ih]

theorem base64UrlBytes_sextets (bytes : List UInt8) :
    base64UrlBytes (sextets bytes) = some bytes := by
  induction bytes using sextets.induct with
  | case1 => rfl
  | case2 a =>
    have ra := a.toNat_lt
    have first : a.toNat / 4 * 4 + a.toNat % 4 * 16 / 16 = a.toNat := by omega
    have zero : a.toNat % 4 * 16 % 16 = 0 := by omega
    simp only [sextets, base64UrlBytes, zero, if_true, first, UInt8.ofNat_toNat]
  | case3 a b =>
    have ra := a.toNat_lt
    have rb := b.toNat_lt
    have first : a.toNat / 4 * 4 + (a.toNat % 4 * 16 + b.toNat / 16) / 16 = a.toNat := by omega
    have second : (a.toNat % 4 * 16 + b.toNat / 16) % 16 * 16 + b.toNat % 16 * 4 / 4 = b.toNat := by
      omega
    have zero : b.toNat % 16 * 4 % 4 = 0 := by omega
    simp only [sextets, base64UrlBytes, zero, if_true, first, second, UInt8.ofNat_toNat]
  | case4 a b c rest ih =>
    have ra := a.toNat_lt
    have rb := b.toNat_lt
    have rc := c.toNat_lt
    have first : a.toNat / 4 * 4 + (a.toNat % 4 * 16 + b.toNat / 16) / 16 = a.toNat := by omega
    have second : (a.toNat % 4 * 16 + b.toNat / 16) % 16 * 16 +
        (b.toNat % 16 * 4 + c.toNat / 64) / 4 = b.toNat := by omega
    have third : (b.toNat % 16 * 4 + c.toNat / 64) % 4 * 64 + c.toNat % 64 = c.toNat := by omega
    simp only [sextets, base64UrlBytes, ih, Option.map_some, first, second, third,
      UInt8.ofNat_toNat]

theorem mapM_values (values : List Nat) (small : ∀ n ∈ values, n < 64) :
    (values.map base64UrlDigit).mapM base64UrlValue = some values := by
  induction values with
  | nil => rfl
  | cons n values ih =>
    have here := (base64UrlValue_digit n (small n (by simp))).1
    have later := ih fun m among => small m (by simp [among])
    simp [List.mapM_cons, here, later]

@[simp] theorem base64UrlDecode_encode (bytes : List UInt8) :
    base64UrlDecode (base64Url bytes) = some bytes := by
  rw [base64UrlDecode, base64Url_eq, mapM_values _ (sextets_small bytes), Option.bind_some,
    base64UrlBytes_sextets]

theorem base64Url_injective : Function.Injective base64Url := by
  intro first second same
  have decoded := congrArg base64UrlDecode same
  simpa using decoded

theorem colon_notMem_base64Url (bytes : List UInt8) : ':' ∉ base64Url bytes := by
  rw [base64Url_eq]
  intro among
  obtain ⟨n, known, same⟩ := List.mem_map.mp among
  exact (base64UrlValue_digit n (sextets_small bytes n known)).2 same

def utf8 (text : List Char) : List UInt8 := (String.ofList text).toByteArray.data.toList

def fromUtf8 (bytes : List UInt8) : Option (List Char) :=
  (String.fromUTF8? ⟨bytes.toArray⟩).map String.toList

@[simp] theorem fromUtf8_utf8 (text : List Char) : fromUtf8 (utf8 text) = some text := by
  have bytes : (⟨(utf8 text).toArray⟩ : ByteArray) = (String.ofList text).toByteArray := by
    apply ByteArray.ext
    simp [utf8]
  have valid := (String.ofList text).isValidUTF8
  have read : String.fromUTF8? (String.ofList text).toByteArray = some (String.ofList text) := by
    rw [String.fromUTF8?, dif_pos valid]
    rfl
  rw [fromUtf8, bytes, read]
  simp

theorem utf8_injective : Function.Injective utf8 := by
  intro first second same
  have bytes : (String.ofList first).toByteArray = (String.ofList second).toByteArray :=
    ByteArray.ext (Array.toList_inj.mp same)
  exact String.ofList_inj.mp (String.toByteArray_inj.mp bytes)

def asChar (byte : UInt8) : Char := Char.ofNat byte.toNat

@[simp] theorem asChar_toNat (byte : UInt8) : (asChar byte).toNat = byte.toNat := by
  have range := byte.toNat_lt
  rw [asChar, Char.toNat_ofNat, if_pos]
  left
  omega

theorem utf8_cons (c : Char) (rest : List Char) :
    utf8 (c :: rest) = String.utf8EncodeChar c ++ utf8 rest := by
  simp only [utf8, String.toByteArray_ofList]
  rw [List.utf8Encode_cons, List.utf8Encode_singleton]
  simp

theorem asChar_ascii {c : Char} (ascii : c.toNat < 128) :
    (String.utf8EncodeChar c).map asChar = [c] := by
  have small : c.val.toNat ≤ 127 := Nat.le_of_lt_succ ascii
  have byte : (UInt8.ofNat c.val.toNat).toNat = c.toNat := by
    rw [UInt8.toNat_ofNat']
    exact Nat.mod_eq_of_lt (by show c.toNat < _; omega)
  have same : asChar (UInt8.ofNat c.val.toNat) = c :=
    Char.toNat_inj.mp (by rw [asChar_toNat, byte])
  rw [String.utf8EncodeChar, if_pos small, List.map_singleton, same]

theorem utf8_wide {c : Char} (wide : 128 ≤ c.toNat) :
    2 ≤ (String.utf8EncodeChar c).length ∧ ∀ byte ∈ String.utf8EncodeChar c, 128 ≤ byte.toNat := by
  have large : ¬ c.val.toNat ≤ 127 := by show ¬ c.toNat ≤ 127; omega
  rw [String.utf8EncodeChar, if_neg large]
  split_ifs <;> simp <;> omega

end Firefly.Encoding
