import Firefly.Shared.Decimal
import Firefly.Validators.IbanPairs
import Firefly.Validators.Luhn

set_option autoImplicit false

namespace Firefly.Validators

open CheckDigits Encoding

section Digits

variable {c d : Char}

theorem utf8EncodeChar_ascii (ascii : c.toNat < 128) : String.utf8EncodeChar c = [byte c] := by
  obtain ⟨b, encoded⟩ := List.length_eq_one_iff.mp (length_utf8EncodeChar ascii)
  have single := asChar_ascii ascii
  rw [encoded, List.map_singleton] at single
  have same : b.toNat = c.toNat := by rw [← List.singleton_injective single, asChar_toNat]
  rw [encoded, byte, ← same, UInt8.ofNat_toNat]

theorem isDigit_lt (digit : c.isDigit = true) : c.toNat < 128 := by
  have := isDigit_bounds digit
  omega

theorem toNat_byte (digit : c.isDigit = true) : (byte c).toNat = c.toNat := by
  have := isDigit_lt digit
  rw [byte, UInt8.toNat_ofNat', Nat.mod_eq_of_lt (by omega)]

theorem isDigitByte_byte (digit : c.isDigit = true) : isDigitByte (byte c) = true := by
  have bounds := isDigit_bounds digit
  simp only [isDigitByte, Bool.and_eq_true, decide_eq_true_eq, UInt8.le_iff_toNat_le, toNat_byte digit]
  exact bounds

theorem digitOf_byte (digit : c.isDigit = true) : digitOf (byte c) = c.toNat - 48 := by
  rw [digitOf, toNat_byte digit]
  rfl

theorem digitOf_lt (digit : c.isDigit = true) : digitOf (byte c) < 10 := by
  have := isDigit_bounds digit
  rw [digitOf_byte digit]
  omega

theorem digitOf_ne (first : c.isDigit = true) (second : d.isDigit = true) (apart : c ≠ d) :
    digitOf (byte c) ≠ digitOf (byte d) := by
  have := isDigit_bounds first
  have := isDigit_bounds second
  rw [digitOf_byte first, digitOf_byte second]
  exact fun same => apart (Char.toNat_inj.mp (by omega))

theorem normalise_digit (u : UpperCase) {separators : List Char}
    (plain : ∀ e ∈ separators, isUpperAlnum e = false) (digit : c.isDigit = true) :
    normalise u separators [c] = [c] :=
  normalise_alnum plain (by simp [isUpperAlnum, digit])

end Digits

inductive DigitError : Text → Text → Prop
  | replaced (before after : Text) (c d : Char) : c.isDigit = true → d.isDigit = true → c ≠ d →
      DigitError (before ++ c :: after) (before ++ d :: after)

inductive LuhnError : Text → Text → Prop
  | digit {s t : Text} : DigitError s t → LuhnError s t
  | swap (before between after : Text) (c d : Char) : c.isDigit = true → d.isDigit = true → c ≠ d →
      ¬ (c = '0' ∧ d = '9') → ¬ (c = '9' ∧ d = '0') → (∀ e ∈ between, e ∈ [' ', '-']) →
      LuhnError (before ++ c :: (between ++ d :: after)) (before ++ d :: (between ++ c :: after))

def Near (first second : Nat) : Prop := first ≠ second ∧ first < second + 10 ∧ second < first + 10

section Luhn

variable {s t before between after : Text} {c d : Char}

def clean (s : Text) : List UInt8 := bytes (remove [' ', '-'] s)

theorem clean_append (s t : Text) : clean (s ++ t) = clean s ++ clean t := by
  simp [clean, bytes, remove]

theorem clean_digit (digit : c.isDigit = true) (s : Text) : clean (c :: s) = byte c :: clean s := by
  have plain : c ∉ [' ', '-'] := by
    have := isDigit_bounds digit
    rintro among
    rcases List.mem_cons.mp among with rfl | among
    · cases digit
    · obtain rfl := List.mem_singleton.mp among
      cases digit
  have kept : remove [' ', '-'] (c :: s) = c :: remove [' ', '-'] s :=
    List.filter_cons_of_pos (decide_eq_true plain)
  rw [clean, kept, bytes_cons,
    utf8EncodeChar_ascii (isDigit_lt digit)]
  rfl

theorem clean_separators (only : ∀ e ∈ between, e ∈ [' ', '-']) : clean between = [] := by
  rw [clean, remove, List.filter_eq_nil_iff.mpr fun e among => by simp [only e among]]
  rfl

-- Whether a digit is doubled depends on the number of digits to its right.
theorem luhnFrom_append (double : Bool) (count : Nat) : ∃ later, ∀ right left, right.length = count →
    luhnFrom double (right ++ left) = luhnFrom double right + luhnFrom later left := by
  induction count generalizing double with
  | zero =>
    refine ⟨double, fun right left size => ?_⟩
    rw [List.length_eq_zero_iff.mp size]
    simp [luhnFrom]
  | succ count ih =>
    obtain ⟨later, split⟩ := ih (!double)
    refine ⟨later, fun right left size => ?_⟩
    obtain ⟨c, right, rfl⟩ := List.exists_cons_of_length_eq_add_one size
    rw [List.cons_append, luhnFrom, luhnFrom, split right left (by simpa using size), Nat.add_assoc]

section Replaced

variable {left old new right : List UInt8}

theorem LuhnShape.replaced (shape : LuhnShape s) (read : clean s = left ++ (old ++ right))
    (reread : clean t = left ++ (new ++ right)) (size : new.length = old.length)
    (digits : ∀ e ∈ new, isDigitByte e = true) : LuhnShape t := by
  have long : 2 ≤ (clean s).length := shape.long
  have only : ∀ e ∈ clean s, isDigitByte e = true := shape.digits
  refine ⟨?_, ?_⟩
  · change 2 ≤ (clean t).length
    rw [read] at long
    rw [reread]
    simpa [size] using long
  · change ∀ e ∈ clean t, isDigitByte e = true
    rw [read] at only
    rw [reread]
    simp only [List.mem_append] at only ⊢
    rintro e (before | inside | after)
    · exact only e (.inl before)
    · exact digits e inside
    · exact only e (.inr (.inr after))

theorem luhnSum_near (read : clean s = left ++ (old ++ right)) (reread : clean t = left ++ (new ++ right))
    (size : new.length = old.length)
    (near : ∀ double, Near (luhnFrom double old.reverse) (luhnFrom double new.reverse)) :
    Near (luhnSum s) (luhnSum t) := by
  change Near (luhnFrom false (clean s).reverse) (luhnFrom false (clean t).reverse)
  obtain ⟨double, behind⟩ := luhnFrom_append false right.length
  obtain ⟨later, inside⟩ := luhnFrom_append double old.length
  have sum : ∀ part : List UInt8, part.length = old.length →
      luhnFrom false (left ++ (part ++ right)).reverse =
        luhnFrom false right.reverse + (luhnFrom double part.reverse + luhnFrom later left.reverse) := by
    intro part same
    rw [List.reverse_append, List.reverse_append, List.append_assoc, behind _ _ List.length_reverse,
      inside _ _ (List.length_reverse.trans same)]
  have changed := near double
  rw [read, reread, sum old rfl, sum new size]
  unfold Near at changed ⊢
  omega

end Replaced

theorem luhnDigit_near (double : Bool) {x y : Nat} (first : x < 10) (second : y < 10) (apart : x ≠ y) :
    Near (luhnDigit double x) (luhnDigit double y) := by
  unfold Near luhnDigit
  cases double with
  | false => exact ⟨apart, by simp only [Bool.false_eq_true, if_false]; omega⟩
  | true =>
    simp only [if_true]
    split_ifs <;> omega

theorem luhnDigit_swap_near (double : Bool) {x y : Nat} (first : x < 10) (second : y < 10) (apart : x ≠ y)
    (low : ¬ (x = 0 ∧ y = 9)) (high : ¬ (x = 9 ∧ y = 0)) :
    Near (luhnDigit double y + luhnDigit (!double) x) (luhnDigit double x + luhnDigit (!double) y) := by
  unfold Near luhnDigit
  cases double with
  | false =>
    simp only [Bool.not_false, if_true, Bool.false_eq_true, if_false]
    split_ifs <;> omega
  | true =>
    simp only [Bool.not_true, if_true, Bool.false_eq_true, if_false]
    split_ifs <;> omega

theorem near_of_digit (error : DigitError s t) (shape : LuhnShape s) :
    LuhnShape t ∧ Near (luhnSum s) (luhnSum t) := by
  obtain ⟨before, after, c, d, first, second, apart⟩ := error
  have read : ∀ x : Char, x.isDigit = true →
      clean (before ++ x :: after) = clean before ++ ([byte x] ++ clean after) := by
    intro x digit
    rw [clean_append, clean_digit digit, List.singleton_append]
  refine ⟨shape.replaced (read c first) (read d second) rfl ?_,
    luhnSum_near (read c first) (read d second) rfl fun double => ?_⟩
  · simpa using isDigitByte_byte second
  · have near := luhnDigit_near double (digitOf_lt first) (digitOf_lt second) (digitOf_ne first second apart)
    simpa [luhnFrom] using near

theorem near_of_swap (first : c.isDigit = true) (second : d.isDigit = true) (apart : c ≠ d)
    (low : ¬ (c = '0' ∧ d = '9')) (high : ¬ (c = '9' ∧ d = '0'))
    (separators : ∀ e ∈ between, e ∈ [' ', '-'])
    (shape : LuhnShape (before ++ c :: (between ++ d :: after))) :
    LuhnShape (before ++ d :: (between ++ c :: after)) ∧
      Near (luhnSum (before ++ c :: (between ++ d :: after)))
        (luhnSum (before ++ d :: (between ++ c :: after))) := by
  have read : ∀ x y : Char, x.isDigit = true → y.isDigit = true →
      clean (before ++ x :: (between ++ y :: after)) = clean before ++ ([byte x, byte y] ++ clean after) := by
    intro x y one other
    rw [clean_append, clean_digit one, clean_append, clean_separators separators, clean_digit other]
    rfl
  have value : ∀ {x y : Char}, x.isDigit = true → y.isDigit = true →
      digitOf (byte x) = digitOf (byte y) → x = y := fun one other same =>
    by_contra fun distinct => digitOf_ne one other distinct same
  refine ⟨shape.replaced (read c d first second) (read d c second first) rfl ?_,
    luhnSum_near (read c d first second) (read d c second first) rfl fun double => ?_⟩
  · simpa using ⟨isDigitByte_byte second, isDigitByte_byte first⟩
  · have near := luhnDigit_swap_near double (digitOf_lt first) (digitOf_lt second)
      (digitOf_ne first second apart)
      (fun pair => low ⟨value first (y := '0') rfl pair.1, value second (y := '9') rfl pair.2⟩)
      (fun pair => high ⟨value first (y := '9') rfl pair.1, value second (y := '0') rfl pair.2⟩)
    simpa [luhnFrom] using near

theorem near_of_error (error : LuhnError s t) (shape : LuhnShape s) :
    LuhnShape t ∧ Near (luhnSum s) (luhnSum t) := by
  cases error with
  | digit wrong => exact near_of_digit wrong shape
  | swap before between after c d first second apart low high separators =>
    exact near_of_swap first second apart low high separators shape

def Undetected : Build → Nat → Nat → Prop
  | .debug, _, after => 2 ^ 32 ≤ after
  | .release, before, after =>
    before / 2 ^ 32 ≠ after / 2 ^ 32 ∧ (after = before + 6 ∨ before = after + 6)

-- Ten divides 2^32 with the remainder six.
theorem release_detected {before after : Nat} (near : Near before after)
    (even : before % 2 ^ 32 % 10 = 0) :
    after % 2 ^ 32 % 10 ≠ 0 ↔ ¬ Undetected .release before after := by
  obtain ⟨apart, above, below⟩ := near
  simp only [Undetected]
  have first := Nat.div_add_mod before (2 ^ 32)
  have second := Nat.div_add_mod after (2 ^ 32)
  have small := Nat.mod_lt before (show 0 < 2 ^ 32 by decide)
  have bounded := Nat.mod_lt after (show 0 < 2 ^ 32 by decide)
  generalize before / 2 ^ 32 = p at *
  generalize after / 2 ^ 32 = q at *
  generalize before % 2 ^ 32 = r at *
  generalize after % 2 ^ 32 = k at *
  rcases Nat.lt_trichotomy p q with up | same | down
  · obtain rfl : q = p + 1 := by omega
    omega
  · subst same
    omega
  · obtain rfl : p = q + 1 := by omega
    omega

theorem luhn_rejected_iff (build : Build) (error : LuhnError s t)
    (accepted : validateLuhn build s = some (.ok ())) :
    (∃ reason, validateLuhn build t = some (.error reason)) ↔
      ¬ Undetected build (luhnSum s) (luhnSum t) := by
  have shape := luhn_accepted accepted
  obtain ⟨other, apart, above, below⟩ := near_of_error error shape
  obtain ⟨fits, even⟩ := (luhn_ok_iff shape).mp accepted
  rw [luhn_error_iff other]
  cases build with
  | debug =>
    have small : luhnSum s < 2 ^ 32 := fits.resolve_left (by simp)
    rw [Nat.mod_eq_of_lt small] at even
    simp only [reduceCtorEq, false_or, Undetected, not_le]
    refine and_iff_left_of_imp fun bounded => ?_
    rw [Nat.mod_eq_of_lt bounded]
    omega
  | release => exact (and_iff_right (.inl rfl)).trans (release_detected ⟨apart, above, below⟩ even)

end Luhn

theorem rejected {outcome : Except String Unit} (unaccepted : outcome ≠ .ok ()) :
    ∃ reason, outcome = .error reason := by
  cases outcome with
  | error reason => exact ⟨reason, rfl⟩
  | ok => exact absurd rfl unaccepted

inductive IbanError (u : UpperCase) : Text → Text → Prop
  | digit {s t : Text} : DigitError s t → IbanError u s t
  | letter (before after : Text) (c d : Char) : 4 ≤ (normalise u [' '] before).length →
      c.isDigit = false → d.isDigit = false → normalise u [' '] [c] ≠ normalise u [' '] [d] →
      IbanError u (before ++ c :: after) (before ++ d :: after)

section Iban

variable {u : UpperCase} {s t front part other back : Text} {c : Char} {count : Nat}

theorem expansion_append (s t : Text) : expansion (s ++ t) = expansion s ++ expansion t := by
  simp [expansion]

variable (back) in
-- The part keeps its neighbours wherever the rotation cuts.
theorem rotated_part (apart : 4 ≤ front.length ∨ front.length + count ≤ 4) :
    ∃ left right, ∀ part : Text, part.length = count →
      (front ++ (part ++ back)).drop 4 ++ (front ++ (part ++ back)).take 4 = left ++ part ++ right := by
  rcases apart with behind | before
  · refine ⟨front.drop 4, back ++ front.take 4, fun part _ => ?_⟩
    rw [List.drop_append_of_le_length behind, List.take_append_of_le_length behind]
    simp only [List.append_assoc]
  · refine ⟨back.drop (4 - (front.length + count)) ++ front, back.take (4 - (front.length + count)),
      fun part same => ?_⟩
    have size : (front ++ part).length = front.length + count := by rw [List.length_append, same]
    rw [← List.append_assoc front part back, List.drop_append, List.take_append, size,
      List.drop_eq_nil_of_le (by omega), List.take_of_length_le (by omega)]
    simp only [List.append_assoc, List.nil_append]

theorem iban_congruent (first : validateIban u s = .ok ()) (second : validateIban u t = .ok ())
    (left : normalise u [' '] s = front ++ (part ++ back))
    (right : normalise u [' '] t = front ++ (other ++ back))
    (same : other.length = part.length) (wide : (expansion part).length = (expansion other).length)
    (apart : 4 ≤ front.length ∨ front.length + part.length ≤ 4) :
    number part ≡ number other [MOD 97] := by
  obtain ⟨allFirst, -, -, one⟩ := (iban_accepted_iff u s).mp first
  obtain ⟨allSecond, -, -, also⟩ := (iban_accepted_iff u t).mp second
  have rotate : ∀ (c : Char) (input : Text), c ∈ input.drop 4 ++ input.take 4 → c ∈ input :=
    fun c input among => (List.mem_append.mp among).elim List.mem_of_mem_drop List.mem_of_mem_take
  rw [remainder_eq fun c among => allFirst c (rotate c _ among)] at one
  rw [remainder_eq fun c among => allSecond c (rotate c _ among)] at also
  obtain ⟨prior, later, parts⟩ := rotated_part back apart
  rw [left, parts part rfl] at one
  rw [right, parts other same] at also
  have congruent : number (prior ++ part ++ later) ≡ number (prior ++ other ++ later) [MOD 97] :=
    (Option.some.inj one).trans (Option.some.inj also).symm
  simp only [number, expansion_append] at congruent
  exact (decimal_congr_iff (by decide) wide).mp congruent

def letterForms : List Text :=
  [] :: (List.range 26).map (fun i => [Char.ofNat (65 + i)]) ++ foldedIntoAscii.map Prod.snd

theorem letterForms_apart : ∀ first ∈ letterForms, ∀ second ∈ letterForms,
    second.length = first.length → (expansion first).length = (expansion second).length ∧
      (number first % 97 = number second % 97 → first = second) := by
  decide +kernel

theorem mem_letterForms (letter : c.isDigit = false)
    (alnum : ∀ d ∈ normalise u [' '] [c], isUpperAlnum d = true) :
    normalise u [' '] [c] ∈ letterForms := by
  by_cases space : c ∈ [' ']
  · rw [normalise_separator space]
    exact List.mem_append_left _ (List.mem_cons_self ..)
  · rw [normalise_single space] at alnum ⊢
    rcases Nat.lt_or_ge c.toNat 128 with low | high
    · rw [u.ascii c low] at alnum ⊢
      have own := alnum c.toUpper (by simp)
      have raised : c.toUpper.isUpper = true := by
        cases lower : c.isLower with
        | true => simp [Char.isAlpha, lower]
        | false =>
          rw [Char.toUpper_eq_of_not_isLower (by simp [lower])] at own ⊢
          exact (Bool.or_eq_true_iff.mp own).resolve_right (by simp [letter])
      have bounds := isUpper_bounds raised
      refine List.mem_append_left _ (List.mem_cons_of_mem _ (List.mem_map.mpr ?_))
      refine ⟨c.toUpper.toNat - 65, ?_, ?_⟩
      · exact List.mem_range.mpr (by omega)
      · rw [Nat.add_sub_cancel' bounds.1, Char.ofNat_toNat]
    · by_cases known : ∃ entry ∈ foldedIntoAscii, entry.1 = c
      · obtain ⟨entry, listed, rfl⟩ := known
        rw [u.folded entry listed]
        exact List.mem_append_right _ (List.mem_map_of_mem listed)
      · obtain ⟨d, cased, wide⟩ := u.beyond c high fun entry listed same => known ⟨entry, listed, same⟩
        have := isUpperAlnum_lt (alnum d cased)
        omega

theorem iban_rejected (error : IbanError u s t) (accepted : validateIban u s = .ok ()) :
    ∃ reason, validateIban u t = .error reason := by
  refine rejected fun also => ?_
  have plain : ∀ e ∈ [' '], isUpperAlnum e = false := by simp; rfl
  cases error with
  | digit wrong =>
    obtain ⟨before, after, c, d, first, second, apart⟩ := wrong
    have form : ∀ {e : Char}, e.isDigit = true → normalise u [' '] (before ++ e :: after) =
        normalise u [' '] before ++ ([e] ++ normalise u [' '] after) := fun digit => by
      rw [normalise_append, normalise_cons, normalise_digit u plain digit]
    have value : ∀ {e : Char}, e.isDigit = true → number [e] = e.toNat - 48 := fun digit => by
      simp [number, expansion, expand, digit]
    have congruent := iban_congruent accepted also (form first) (form second) rfl
      (by simp [expansion, expand, first, second]) (by simp only [List.length_singleton]; omega)
    rw [value first, value second] at congruent
    have low := isDigit_bounds first
    have high := isDigit_bounds second
    have equal := congruent.eq_of_lt_of_lt (by omega) (by omega)
    exact apart (Char.toNat_inj.mp (by omega))
  | letter before after c d bban first second apart =>
    have form : ∀ e : Char, normalise u [' '] (before ++ e :: after) =
        normalise u [' '] before ++ (normalise u [' '] [e] ++ normalise u [' '] after) := fun e => by
      rw [normalise_append, normalise_cons]
    obtain ⟨allFirst, -, length, -⟩ := (iban_accepted_iff u _).mp accepted
    obtain ⟨allSecond, -, also', -⟩ := (iban_accepted_iff u _).mp also
    rw [form] at allFirst length allSecond also'
    rw [List.take_append_of_le_length (by omega)] at length also'
    have size := Option.some.inj (length.symm.trans also')
    simp only [List.length_append] at size
    have left := mem_letterForms first fun e among => allFirst e
      (List.mem_append_right _ (List.mem_append_left _ among))
    have right := mem_letterForms second fun e among => allSecond e
      (List.mem_append_right _ (List.mem_append_left _ among))
    have same : (normalise u [' '] [d]).length = (normalise u [' '] [c]).length := by omega
    obtain ⟨wide, different⟩ := letterForms_apart _ left _ right same
    exact apart (different (iban_congruent accepted also (form c) (form d) same wide (.inl bban)))

end Iban

section Spanish

variable {u : UpperCase} {s t before after : Text} {front back input : List UInt8} {x y : UInt8} {n m : Nat}

theorem dniNumber_eq {digits : List Nat} (read : dniNumber (decimal digits) input = .ok m) :
    m = decimal (digits ++ input.map digitOf) := by
  induction input generalizing digits with
  | nil =>
    obtain rfl := Except.ok.inj read
    simp
  | cons d input ih =>
    rw [dniNumber] at read
    split at read
    · have step : decimal (digits ++ [digitOf d]) = decimal digits * 10 + (d.toNat - (byte '0').toNat) :=
        decimal_concat digits (digitOf d)
      rw [← step] at read
      rw [ih read]
      simp
    · cases read

theorem dni_letters_apart : ∀ i < 23, ∀ j < 23, DNI_LETTERS[i]? = DNI_LETTERS[j]? → i = j := by
  decide +kernel

-- A digit is no check letter, so that it stands among the first eight.
theorem dni_congruent (long : (front ++ x :: back).length = 9) (digit : isDigitByte x = true)
    (first : dniLetter (front ++ x :: back) = .ok ()) (second : dniLetter (front ++ y :: back) = .ok ()) :
    digitOf x ≡ digitOf y [MOD 23] := by
  obtain ⟨n, read, letter⟩ := dniLetter_ok first
  obtain ⟨m, also, same⟩ := dniLetter_ok second
  rw [List.length_append, List.length_cons] at long
  rcases Nat.lt_or_ge front.length 8 with inside | last
  · obtain ⟨rest, eight⟩ : ∃ rest, 8 - front.length = rest + 1 := ⟨7 - front.length, by omega⟩
    have taken : ∀ z : UInt8, (front ++ z :: back).take 8 = front ++ z :: back.take rest := fun z => by
      rw [List.take_append, List.take_of_length_le (by omega), eight, List.take_succ_cons]
    have ninth : ∀ z : UInt8, (front ++ z :: back)[8]? = back[rest]? := fun z => by
      rw [List.getElem?_append_right (by omega), eight, List.getElem?_cons_succ]
    rw [taken] at read also
    rw [ninth] at letter same
    have equal := dni_letters_apart _ (Nat.mod_lt n (by decide)) _ (Nat.mod_lt m (by decide))
      (letter.trans same.symm)
    have value : ∀ z : UInt8, (front ++ z :: back.take rest).map digitOf =
        front.map digitOf ++ [digitOf z] ++ (back.take rest).map digitOf := fun z => by simp
    have whole : decimal (front.map digitOf ++ [digitOf x] ++ (back.take rest).map digitOf) ≡
        decimal (front.map digitOf ++ [digitOf y] ++ (back.take rest).map digitOf) [MOD 23] := by
      rw [← value, ← value]
      have left : n = decimal ([] ++ (front ++ x :: back.take rest).map digitOf) := dniNumber_eq read
      have right : m = decimal ([] ++ (front ++ y :: back.take rest).map digitOf) := dniNumber_eq also
      rw [List.nil_append] at left right
      rw [← left, ← right]
      exact equal
    have coprime : Nat.Coprime 10 23 := by decide
    have single : [digitOf x].length = [digitOf y].length := rfl
    simpa using (decimal_congr_iff coprime single).mp whole
  · have none : ∀ b ∈ DNI_LETTERS, isDigitByte b = false := by decide +kernel
    obtain eight : front.length = 8 := by omega
    rw [List.getElem?_append_right (by omega), eight] at letter
    have listed := none x (List.mem_of_getElem? letter)
    simp [digit] at listed

theorem nieDigit_unmarked (prefixed : nieDigit x = .ok y) : isDigitByte x = false := by
  rcases nieDigit_ok prefixed with rfl | rfl | rfl <;> decide +kernel

theorem spanish_rejected {nie : Bool} (error : DigitError s t) (accepted : spanishCheck u s nie = .ok ()) :
    ∃ reason, spanishCheck u t nie = .error reason := by
  refine rejected fun also => ?_
  have plain : ∀ e ∈ [' '], isUpperAlnum e = false := by simp; rfl
  obtain ⟨before, after, c, d, first, second, apart⟩ := error
  have form : ∀ {e : Char}, e.isDigit = true → bytes (normalise u [' '] (before ++ e :: after)) =
      bytes (normalise u [' '] before) ++ byte e :: bytes (normalise u [' '] after) := fun {e} digit => by
    rw [normalise_append, normalise_cons, normalise_digit u plain digit]
    simp [bytes, utf8EncodeChar_ascii (isDigit_lt digit)]
  obtain ⟨long, checked⟩ := spanish_ok accepted
  obtain ⟨-, rechecked⟩ := spanish_ok also
  rw [form first] at long checked
  rw [form second] at rechecked
  have congruent : digitOf (byte c) ≡ digitOf (byte d) [MOD 23] := by
    cases nie with
    | false => exact dni_congruent long (isDigitByte_byte first) checked rechecked
    | true =>
      obtain ⟨digits, read, checked⟩ := checked
      obtain ⟨others, reread, rechecked⟩ := rechecked
      obtain ⟨head, digit, rest, split, rfl, prefixed⟩ := nieDigits_ok read
      obtain ⟨head', digit', rest', split', rfl, prefixed'⟩ := nieDigits_ok reread
      generalize bytes (normalise u [' '] before) = front at *
      cases front with
      | nil =>
        obtain ⟨rfl, -⟩ := List.cons.inj split
        have marked := isDigitByte_byte first
        rw [nieDigit_unmarked prefixed] at marked
        cases marked
      | cons letter front =>
        obtain ⟨rfl, rfl⟩ := List.cons.inj split
        obtain ⟨rfl, rfl⟩ := List.cons.inj split'
        obtain rfl := Except.ok.inj (prefixed.symm.trans prefixed')
        have checked : dniLetter ((digit :: front) ++ byte c :: bytes (normalise u [' '] after)) = .ok () :=
          checked
        exact dni_congruent (by simpa using long) (isDigitByte_byte first) checked rechecked
  exact digitOf_ne first second apart
    (congruent.eq_of_lt_of_lt (by have := digitOf_lt first; omega) (by have := digitOf_lt second; omega))

end Spanish

theorem single_errors_exactly (u : UpperCase) (build : Build) (s t : Text) :
    (LuhnError s t → validateLuhn build s = some (.ok ()) →
      ((∃ reason, validateLuhn build t = some (.error reason)) ↔
        ¬ Undetected build (luhnSum s) (luhnSum t))) ∧
    (IbanError u s t → validateIban u s = .ok () → ∃ reason, validateIban u t = .error reason) ∧
    (DigitError s t → validateDni u s = .ok () → ∃ reason, validateDni u t = .error reason) ∧
    (DigitError s t → validateNie u s = .ok () → ∃ reason, validateNie u t = .error reason) :=
  ⟨luhn_rejected_iff build, iban_rejected, spanish_rejected, spanish_rejected⟩

theorem errors_detected :
    (∃ reason, validateLuhn .release "42-43".toList = some (.error reason)) ∧
    (∃ reason, validateIban plainUpper "NO9800000000032".toList = .error reason) ∧
    (∃ reason, validateDni plainUpper "00000025S".toList = .error reason) ∧
    ∃ reason, validateNie plainUpper "X0000025S".toList = .error reason :=
  ⟨((single_errors_exactly plainUpper .release "42-42".toList "42-43".toList).1
      (.digit (.replaced "42-4".toList [] '2' '3' rfl rfl (by decide))) (by rfl)).mpr
        (by unfold Undetected; decide +kernel),
    (single_errors_exactly plainUpper .release "NO9800000000022".toList "NO9800000000032".toList).2.1
      (.digit (.replaced "NO98000000000".toList ['2'] '2' '3' rfl rfl (by decide))) (by rfl),
    (single_errors_exactly plainUpper .release "00000015S".toList "00000025S".toList).2.2.1
      (.replaced "000000".toList "5S".toList '1' '2' rfl rfl (by decide)) (by rfl),
    (single_errors_exactly plainUpper .release "X0000015S".toList "X0000025S".toList).2.2.2
      (.replaced "X00000".toList "5S".toList '1' '2' rfl rfl (by decide)) (by rfl)⟩

def nines (count : Nat) (last : Char) : Text := List.replicate count '9' ++ ['6', '0', last]

section Nines

variable {count : Nat} {last : Char}

theorem luhnFrom_nines (double : Bool) (count : Nat) :
    luhnFrom double (List.replicate count (byte '9')) = 9 * count := by
  induction count generalizing double with
  | zero => rfl
  | succ count ih =>
    have nine : luhnDigit double (digitOf (byte '9')) = 9 := by cases double <;> rfl
    rw [List.replicate_succ, luhnFrom, nine, ih]
    omega

theorem clean_nines (digit : last.isDigit = true) :
    clean (nines count last) = List.replicate count (byte '9') ++ [byte '6', byte '0', byte last] := by
  rw [nines, clean_append, clean_digit rfl, clean_digit rfl, clean_digit digit]
  congr 1
  induction count with
  | zero => rfl
  | succ count ih => rw [List.replicate_succ, clean_digit rfl, ih, List.replicate_succ]

theorem shape_nines (digit : last.isDigit = true) : LuhnShape (nines count last) where
  long := by
    change 2 ≤ (clean _).length
    rw [clean_nines digit]
    simp
  digits := by
    change ∀ e ∈ clean _, _
    rw [clean_nines digit]
    intro e among
    simp only [List.mem_append, List.mem_cons, List.not_mem_nil, or_false] at among
    rcases among with nine | rfl | rfl | rfl
    · rw [List.eq_of_mem_replicate nine]
      rfl
    · rfl
    · rfl
    · exact isDigitByte_byte digit

theorem luhnSum_nines (digit : last.isDigit = true) :
    luhnSum (nines count last) = last.toNat - 48 + 6 + 9 * count := by
  change luhnFrom false (clean _).reverse = _
  rw [clean_nines digit, List.reverse_append, List.reverse_replicate]
  have zero : luhnDigit true (digitOf (byte '0')) = 0 := rfl
  have six : luhnDigit false (digitOf (byte '6')) = 6 := rfl
  have plain : luhnDigit false (digitOf (byte last)) = last.toNat - 48 := digitOf_byte digit
  simp only [List.reverse_cons, List.reverse_nil, List.nil_append, List.cons_append, luhnFrom, Bool.not_true,
    Bool.not_false, luhnFrom_nines, zero, six, plain]
  omega

theorem nines_accepted (digit : last.isDigit = true)
    (even : (last.toNat - 48 + 6 + 9 * count) % 2 ^ 32 % 10 = 0) :
    validateLuhn .release (nines count last) = some (.ok ()) :=
  (luhn_ok_iff (shape_nines digit)).mpr ⟨.inl rfl, by rwa [luhnSum_nines digit]⟩

end Nines

-- The first sum is 2^32 - 6, the second 2^32.
theorem wrapped_sum_accepted : ∃ s t : Text, LuhnError s t ∧
    validateLuhn .release s = some (.ok ()) ∧ validateLuhn .release t = some (.ok ()) := by
  have wrong : ∀ count, LuhnError (nines count '1') (nines count '7') := fun count => by
    have replaced := LuhnError.digit (.replaced (List.replicate count '9' ++ ['6', '0']) [] '1' '7' rfl rfl
      (by decide))
    simpa [nines] using replaced
  exact ⟨nines 477218587 '1', nines 477218587 '7', wrong _, nines_accepted rfl (by decide),
    nines_accepted rfl (by decide)⟩

end Firefly.Validators
