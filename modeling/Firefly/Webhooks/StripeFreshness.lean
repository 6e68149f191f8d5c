import Firefly.Webhooks.SignedBodies

set_option autoImplicit false

namespace Firefly.Webhooks

open Text Encoding
open Web (HeaderMap)

def checkedSub (a b : Int) : Option Int :=
  if -2 ^ 63 ≤ a - b ∧ a - b < 2 ^ 63 then some (a - b) else none

def checkedAbs (a : Int) : Option Int := if a = -2 ^ 63 then none else some |a|

-- `verify` where an overflow panics, which is `none`.
def StripeValidator.verifyChecked (hmac : Hmac) (v : StripeValidator) (now : Int) (headers : HeaderMap)
    (body : Bytes) : Option (Except WebhookError Unit) :=
  let header := headerStr headers "Stripe-Signature".toList
  if header = [] then some (.error .signatureMismatch)
  else
    let (ts, sigs) := stripeHeader header
    if ts = 0 ∨ sigs = [] then some (.error .signatureMismatch)
    else
      let want := hmac.hex v.secret (stripeSigned ts body)
      let verdict :=
        if sigs.any fun sig => ctEq (utf8 sig) (utf8 want) then .ok () else .error .signatureMismatch
      if v.tolerance = 0 then some verdict
      else
        ((checkedSub now ts).bind checkedAbs).map fun age =>
          if i64 (v.tolerance / 10 ^ 9 : Nat) < age then .error .staleSignature else verdict

def elements (header : List Char) : List (List Char × List Char) :=
  (header.splitOn ',').filterMap (splitOnce ['='])

def valuesOf (key : String) (header : List Char) : List (List Char) :=
  ((elements header).filter (·.1 = key.toList)).map (·.2)

def IsInteger (text : List Char) (t : Int) : Prop :=
  ∃ digits, digits ≠ [] ∧ (∀ c ∈ digits, c.isDigit) ∧
    ((text = digits ∨ text = '+' :: digits) ∧ t = Decimal.value digits ∨
      text = '-' :: digits ∧ t = -(Decimal.value digits : Int))

def TimeIs (header : List Char) (t : Int) : Prop :=
  ∃ text, (valuesOf "t" header).getLast? = some text ∧ IsInteger text t

def Fresh (hmac : Hmac) (v : StripeValidator) (now : Int) (header : List Char) (body : Bytes)
    (t : Int) : Prop :=
  TimeIs header t ∧ |now - t| * 10 ^ 9 ≤ v.tolerance ∧
    hmac.hex v.secret (stripeSigned t body) ∈ valuesOf "v1" header

def FitsI64 (t : Int) : Prop := -2 ^ 63 ≤ t ∧ t < 2 ^ 63

def ExactlyFresh (hmac : Hmac) (v : StripeValidator) (now : Int) (headers : HeaderMap)
    (body : Bytes) : Prop :=
  v.verifyChecked hmac now headers body ≠ none ∧
    (v.verify hmac now headers body = .ok () ↔
      ∃ t, Fresh hmac v now (headerStr headers "Stripe-Signature".toList) body t)

structure InRange (hmac : Hmac) (v : StripeValidator) (now : Int) (header : List Char)
    (body : Bytes) : Prop where
  near : ∀ t, TimeIs header t → t ≠ 0 → FitsI64 t → valuesOf "v1" header ≠ [] →
    -2 ^ 63 < now - t ∧ now - t < 2 ^ 63
  fresh : ∀ t, Fresh hmac v now header body t → t ≠ 0 ∧ FitsI64 t ∧ v.tolerance / 10 ^ 9 < 2 ^ 63

theorem parseDigits_iff {chars : List Char} {n : Nat} : Decimal.parseDigits chars = some n ↔
    chars ≠ [] ∧ (∀ c ∈ chars, c.isDigit) ∧ Decimal.value chars = n := by
  unfold Decimal.parseDigits
  split
  next both => simpa [both.1] using fun _ => List.all_eq_true.mp both.2
  next neither =>
    refine ⟨fun none => (nomatch none), fun ⟨present, digits, _⟩ => ?_⟩
    exact absurd ⟨present, List.all_eq_true.mpr digits⟩ neither

theorem ne_cons_of_digits {digits : List Char} {c : Char} (isDigits : ∀ d ∈ digits, d.isDigit)
    (sign : c.isDigit = false) (rest : List Char) : digits ≠ c :: rest := by
  rintro rfl
  simp [isDigits c List.mem_cons_self] at sign

theorem read_iff {chars : List Char} {t : Int} {fits : Nat → Prop} [DecidablePred fits]
    {signed : Nat → Int} (bound : ∀ n, fits n ↔ FitsI64 (signed n)) :
    ((Decimal.parseDigits chars).bind fun n => if fits n then some (signed n) else none) = some t ↔
      (chars ≠ [] ∧ (∀ c ∈ chars, c.isDigit) ∧ t = signed (Decimal.value chars)) ∧ FitsI64 t := by
  rw [Option.bind_eq_some_iff]
  constructor
  · rintro ⟨n, read, taken⟩
    obtain ⟨present, digits, rfl⟩ := parseDigits_iff.mp read
    obtain ⟨within, same⟩ := Option.ite_none_right_eq_some.mp taken
    obtain rfl := Option.some.inj same
    exact ⟨⟨present, digits, rfl⟩, (bound _).mp within⟩
  · rintro ⟨⟨present, digits, rfl⟩, fits⟩
    exact ⟨_, parseDigits_iff.mpr ⟨present, digits, rfl⟩, if_pos ((bound _).mpr fits)⟩

theorem parseI64_iff {text : List Char} {t : Int} :
    Decimal.parseI64 text = some t ↔ IsInteger text t ∧ FitsI64 t := by
  have above : ∀ n : Nat, n < 2 ^ 63 ↔ FitsI64 n := fun n => by simp only [FitsI64]; omega
  rw [Decimal.parseI64.eq_def]
  split
  next chars =>
    rw [read_iff fun n => by simp only [FitsI64]; omega]
    refine and_congr_left fun _ => ?_
    constructor
    · rintro ⟨present, digits, same⟩
      exact ⟨chars, present, digits, .inr ⟨rfl, same⟩⟩
    · rintro ⟨digits, present, isDigits, ⟨rfl | same, -⟩ | ⟨same, rfl⟩⟩
      · exact absurd rfl (ne_cons_of_digits isDigits (by decide) _)
      · cases same
      · cases same
        exact ⟨present, isDigits, rfl⟩
  next chars =>
    rw [read_iff above]
    refine and_congr_left fun _ => ?_
    constructor
    · rintro ⟨present, digits, same⟩
      exact ⟨chars, present, digits, .inl ⟨.inr rfl, same⟩⟩
    · rintro ⟨digits, present, isDigits, ⟨rfl | same, rfl⟩ | ⟨same, -⟩⟩
      · exact absurd rfl (ne_cons_of_digits isDigits (by decide) _)
      · cases same
        exact ⟨present, isDigits, rfl⟩
      · cases same
  next minus plus =>
    rw [read_iff above]
    refine and_congr_left fun _ => ?_
    constructor
    · rintro ⟨present, digits, same⟩
      exact ⟨text, present, digits, .inl ⟨.inl rfl, same⟩⟩
    · rintro ⟨digits, present, isDigits, ⟨rfl | rfl, rfl⟩ | ⟨rfl, -⟩⟩
      · exact ⟨present, isDigits, rfl⟩
      · exact absurd rfl (plus digits)
      · exact absurd rfl (minus digits)

theorem isInteger_unique {text : List Char} {t u : Int} (first : IsInteger text t)
    (second : IsInteger text u) : t = u := by
  obtain ⟨digits, -, isDigits, ⟨rfl | rfl, rfl⟩ | ⟨rfl, rfl⟩⟩ := first
  · obtain ⟨other, -, -, ⟨rfl | rfl, rfl⟩ | ⟨rfl, -⟩⟩ := second
    · rfl
    · exact absurd rfl (ne_cons_of_digits isDigits (by decide) _)
    · exact absurd rfl (ne_cons_of_digits isDigits (by decide) _)
  · obtain ⟨other, -, others, ⟨rfl | same, rfl⟩ | ⟨same, -⟩⟩ := second
    · exact absurd rfl (ne_cons_of_digits others (by decide) _)
    · rw [(List.cons.inj same).2]
    · cases same
  · obtain ⟨other, -, others, ⟨rfl | same, -⟩ | ⟨same, rfl⟩⟩ := second
    · exact absurd rfl (ne_cons_of_digits others (by decide) _)
    · cases same
    · rw [(List.cons.inj same).2]

def timeOf (header : List Char) : Int :=
  ((valuesOf "t" header).getLast?.bind Decimal.parseI64).getD 0

def stripePair (acc : Int × List (List Char)) (pair : List Char × List Char) :
    Int × List (List Char) :=
  if pair.1 = "t".toList then ((Decimal.parseI64 pair.2).getD 0, acc.2)
  else if pair.1 = "v1".toList then (acc.1, acc.2 ++ [pair.2])
  else acc

-- From the back: the last `t` decides, and each `v1` is added behind.
theorem foldl_stripePair (pairs : List (List Char × List Char)) :
    pairs.foldl stripePair (0, []) =
      ((((pairs.filter (·.1 = "t".toList)).map (·.2)).getLast?.bind Decimal.parseI64).getD 0,
        (pairs.filter (·.1 = "v1".toList)).map (·.2)) := by
  induction pairs using List.reverseRecOn with
  | nil => rfl
  | append_singleton pairs pair ih =>
    rw [List.foldl_concat, ih]
    by_cases time : pair.1 = "t".toList
    · simp [stripePair, time, List.filter_append]
    · by_cases signature : pair.1 = "v1".toList
      · simp [stripePair, signature, List.filter_append]
      · simp only [stripePair, time, signature, if_false, List.filter_append, List.filter_cons,
          decide_false, Bool.false_eq_true, List.filter_nil, List.append_nil]

theorem stripeHeader_eq (header : List Char) :
    stripeHeader header = (timeOf header, valuesOf "v1" header) := by
  have folded : (header.splitOn ',').foldl stripePart (0, []) =
      (elements header).foldl stripePair (0, []) := by
    rw [elements, List.foldl_filterMap]
    congr 1
    funext acc part
    cases parted : splitOnce ['='] part <;> simp [stripePart, stripePair, parted]
  rw [stripeHeader, folded, foldl_stripePair]
  rfl

theorem timeIs_of_timeOf {header : List Char} (present : timeOf header ≠ 0) :
    TimeIs header (timeOf header) ∧ FitsI64 (timeOf header) := by
  unfold timeOf at present ⊢
  cases read : (valuesOf "t" header).getLast?.bind Decimal.parseI64 with
  | none => simp [read] at present
  | some t =>
    obtain ⟨text, last, parsed⟩ := Option.bind_eq_some_iff.mp read
    obtain ⟨integer, fits⟩ := parseI64_iff.mp parsed
    exact ⟨⟨text, last, integer⟩, fits⟩

theorem timeOf_of_timeIs {header : List Char} {t : Int} (time : TimeIs header t) (fits : FitsI64 t) :
    timeOf header = t := by
  obtain ⟨text, last, integer⟩ := time
  simp [timeOf, last, parseI64_iff.mpr ⟨integer, fits⟩]

theorem TimeIs.unique {header : List Char} {t u : Int} (first : TimeIs header t)
    (second : TimeIs header u) : t = u := by
  obtain ⟨text, last, integer⟩ := first
  obtain ⟨other, last', integer'⟩ := second
  obtain rfl := Option.some.inj (last.symm.trans last')
  exact isInteger_unique integer integer'

theorem i64_of_fits {n : Int} (fits : FitsI64 n) : i64 n = n := by
  simp only [FitsI64] at fits
  simp only [i64, Int.bmod]
  split <;> omega

-- From 2^63 on, a number of seconds turns negative.
theorem i64_wrapped {n : Nat} (large : 2 ^ 63 ≤ n) (bounded : n < 2 ^ 64) : i64 n < 0 := by
  simp only [i64, Int.bmod]
  split <;> omega

theorem checkedSub_of_fits {a b : Int} (fits : FitsI64 (a - b)) : checkedSub a b = some (a - b) :=
  if_pos fits

theorem age_none_iff {now ts : Int} : (checkedSub now ts).bind checkedAbs = none ↔
    ¬ (-2 ^ 63 < now - ts ∧ now - ts < 2 ^ 63) := by
  by_cases fits : FitsI64 (now - ts)
  · rw [checkedSub_of_fits fits, Option.bind_some, checkedAbs]
    simp only [FitsI64] at fits
    split
    next least => exact ⟨fun _ within => absurd least (by omega), fun _ => rfl⟩
    next more => exact ⟨fun none => (nomatch none), fun far => absurd fits (by omega)⟩
  · have none : checkedSub now ts = none := if_neg fits
    simp only [FitsI64] at fits
    rw [none]
    exact ⟨fun _ => by omega, fun _ => rfl⟩

theorem age_of_near {now ts : Int} (near : -2 ^ 63 < now - ts ∧ now - ts < 2 ^ 63) :
    i64 |i64 (now - ts)| = |now - ts| := by
  have inner : i64 (now - ts) = now - ts := i64_of_fits ⟨near.1.le, near.2⟩
  have positive := abs_nonneg (now - ts)
  rw [inner, i64_of_fits ⟨by omega, abs_lt.mpr near⟩]

section Builds

variable {hmac : Hmac} {v : StripeValidator} {now : Int} {headers : HeaderMap} {body : Bytes}

theorem unsigned_of_empty {header : List Char} (empty : header = []) : valuesOf "v1" header = [] := by
  subst empty
  decide

theorem matches_iff {sigs : List (List Char)} {want : List Char} :
    (sigs.any fun sig => ctEq (utf8 sig) (utf8 want)) = true ↔ want ∈ sigs := by
  rw [List.any_eq_true]
  constructor
  · rintro ⟨sig, among, equal⟩
    rwa [← utf8_injective (ctEq_iff.mp equal)]
  · exact fun among => ⟨want, among, ctEq_iff.mpr rfl⟩

theorem verify_ok_iff (bounded : v.tolerance ≠ 0) {header : List Char}
    (same : headerStr headers "Stripe-Signature".toList = header) :
    v.verify hmac now headers body = .ok () ↔ timeOf header ≠ 0 ∧
      ¬ i64 (v.tolerance / 10 ^ 9 : Nat) < i64 |i64 (now - timeOf header)| ∧
        hmac.hex v.secret (stripeSigned (timeOf header) body) ∈ valuesOf "v1" header := by
  simp only [StripeValidator.verify, same, stripeHeader_eq]
  by_cases empty : header = []
  · simp [empty, unsigned_of_empty rfl]
  · simp only [empty, if_false]
    by_cases missing : timeOf header = 0 ∨ valuesOf "v1" header = []
    · rw [if_pos missing]
      refine ⟨fun ok => (nomatch ok), fun ⟨present, _, among⟩ => ?_⟩
      exact absurd (missing.resolve_left present) (List.ne_nil_of_mem among)
    · rw [if_neg missing]
      by_cases stale : i64 (v.tolerance / 10 ^ 9 : Nat) < i64 |i64 (now - timeOf header)|
      · rw [if_pos ⟨bounded, stale⟩]
        exact ⟨fun ok => (nomatch ok), fun ⟨_, fresh, _⟩ => absurd stale fresh⟩
      · simp only [stale, and_false, if_false, not_false_eq_true, true_and]
        split
        next found => exact ⟨fun _ => ⟨fun none => missing (.inl none), matches_iff.mp found⟩, fun _ => rfl⟩
        next unmatched =>
          exact ⟨fun ok => (nomatch ok), fun ⟨_, among⟩ => absurd (matches_iff.mpr among) unmatched⟩

theorem verifyChecked_none_iff (bounded : v.tolerance ≠ 0) {header : List Char}
    (same : headerStr headers "Stripe-Signature".toList = header) :
    v.verifyChecked hmac now headers body = none ↔ timeOf header ≠ 0 ∧ valuesOf "v1" header ≠ [] ∧
      ¬ (-2 ^ 63 < now - timeOf header ∧ now - timeOf header < 2 ^ 63) := by
  simp only [StripeValidator.verifyChecked, same, stripeHeader_eq]
  by_cases empty : header = []
  · simp [empty, unsigned_of_empty rfl]
  · simp only [empty, if_false]
    by_cases missing : timeOf header = 0 ∨ valuesOf "v1" header = []
    · rw [if_pos missing]
      refine ⟨fun none => (nomatch none), fun ⟨present, signed, _⟩ => ?_⟩
      exact absurd (missing.resolve_left present) signed
    · rw [if_neg missing, if_neg bounded, Option.map_eq_none_iff, age_none_iff]
      exact ⟨fun far => ⟨fun none => missing (.inl none), fun none => missing (.inr none), far⟩,
        fun ⟨_, _, far⟩ => far⟩

end Builds

theorem whole_seconds {age : Int} {tolerance : Nat} :
    age * 10 ^ 9 ≤ tolerance ↔ age ≤ (tolerance / 10 ^ 9 : Nat) := by
  omega

theorem stripe_fresh_exactly (hmac : Hmac) (v : StripeValidator) (now : Int) (headers : HeaderMap)
    (body : Bytes) (positive : 0 < v.tolerance) (isDuration : v.tolerance / 10 ^ 9 < 2 ^ 64) :
    ExactlyFresh hmac v now headers body ↔
      InRange hmac v now (headerStr headers "Stripe-Signature".toList) body := by
  set header := headerStr headers "Stripe-Signature".toList with same
  have checked : v.verifyChecked hmac now headers body = none ↔ _ :=
    verifyChecked_none_iff positive.ne' same.symm
  have accepted : v.verify hmac now headers body = .ok () ↔ _ := verify_ok_iff positive.ne' same.symm
  constructor
  · rintro ⟨computed, exact_⟩
    have near : timeOf header ≠ 0 → valuesOf "v1" header ≠ [] →
        -2 ^ 63 < now - timeOf header ∧ now - timeOf header < 2 ^ 63 := fun present signed =>
      by_contra fun far => computed (checked.mpr ⟨present, signed, far⟩)
    constructor
    · intro t time present fits signed
      obtain rfl := timeOf_of_timeIs time fits
      exact near present signed
    · intro t fresh
      obtain ⟨present, young, among⟩ := accepted.mp (exact_.mpr ⟨t, fresh⟩)
      obtain ⟨time, fits⟩ := timeIs_of_timeOf present
      obtain rfl := time.unique fresh.1
      refine ⟨present, fits, ?_⟩
      by_contra large
      have wrapped := i64_wrapped (not_lt.mp large) isDuration
      rw [age_of_near (near present (List.ne_nil_of_mem among))] at young
      exact young (lt_of_lt_of_le wrapped (abs_nonneg _))
  · rintro ⟨near, representable⟩
    refine ⟨fun overflowed => ?_, ?_, ?_⟩
    · obtain ⟨present, signed, far⟩ := checked.mp overflowed
      obtain ⟨time, fits⟩ := timeIs_of_timeOf present
      exact far (near _ time present fits signed)
    · intro ok
      obtain ⟨present, young, among⟩ := accepted.mp ok
      obtain ⟨time, fits⟩ := timeIs_of_timeOf present
      rw [age_of_near (near _ time present fits (List.ne_nil_of_mem among)), not_lt] at young
      have small : v.tolerance / 10 ^ 9 < 2 ^ 63 := by
        by_contra large
        have wrapped := i64_wrapped (not_lt.mp large) isDuration
        exact absurd (young.trans_lt wrapped) (not_lt.mpr (abs_nonneg _))
      rw [i64_of_fits ⟨by omega, by exact_mod_cast small⟩] at young
      exact ⟨_, time, whole_seconds.mpr young, among⟩
    · rintro ⟨t, fresh⟩
      obtain ⟨present, fits, small⟩ := representable t fresh
      obtain ⟨time, young, among⟩ := fresh
      obtain rfl := timeOf_of_timeIs time fits
      refine accepted.mpr ⟨present, ?_, among⟩
      rw [age_of_near (near _ time present fits (List.ne_nil_of_mem among)), not_lt,
        i64_of_fits ⟨by omega, by exact_mod_cast small⟩]
      exact whole_seconds.mp young

def stripeHeaders (header : String) : HeaderMap := [("stripe-signature", header.toUTF8.toList)]

def fiveMinutes : StripeValidator := { secret := [], tolerance := 300 * 10 ^ 9 }

theorem stripe_fresh_exactly_five_minutes :
    ExactlyFresh sample fiveMinutes 1700000000 (stripeHeaders "t=1699999900,v1=00") [] ↔
      InRange sample fiveMinutes 1700000000
        (headerStr (stripeHeaders "t=1699999900,v1=00") "Stripe-Signature".toList) [] :=
  stripe_fresh_exactly sample fiveMinutes 1700000000 _ [] (by decide) (by decide)

theorem oldest_time_overflows :
    ¬ ∀ (hmac : Hmac) (v : StripeValidator) (now : Int) (headers : HeaderMap) (body : Bytes),
      0 < v.tolerance → v.tolerance / 10 ^ 9 < 2 ^ 64 → ExactlyFresh hmac v now headers body := by
  intro exact_
  have computed := (exact_ sample fiveMinutes 1700000000
    (stripeHeaders "t=-9223372036854775808,v1=00") [] (by decide) (by decide)).1
  exact computed (by decide +kernel)

end Firefly.Webhooks
