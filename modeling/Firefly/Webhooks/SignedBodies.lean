import Firefly.Webhooks.Validators

set_option autoImplicit false

namespace Firefly.Webhooks

open Text Encoding
open Web (HeaderMap)

def Protects (header : List Char) (verify : HeaderMap → Bytes → Except WebhookError Unit)
    (Same : HeaderMap → Bytes → HeaderMap → Bytes → Prop) : Prop :=
  ∀ headers body headers' body', verify headers body = .ok () → verify headers' body' = .ok () →
    headerStr headers header = headerStr headers' header → Same headers body headers' body'

def SameBody (_ : HeaderMap) (body : Bytes) (_ : HeaderMap) (body' : Bytes) : Prop := body = body'

def SameForm (headers : HeaderMap) (body : Bytes) (headers' : HeaderMap) (body' : Bytes) : Prop :=
  if contentType headers = some FORM ∧ contentType headers' = some FORM then
    ∃ pairs pairs', formPairs body = some pairs ∧ formPairs body' = some pairs' ∧
      ∀ key, pairs.filter (·.1 = key) = pairs'.filter (·.1 = key)
  else body = body'

structure PayloadsProtected (hmac : Hmac) : Prop where
  generic : ∀ v : HmacValidator, Protects v.header (v.verify hmac) SameBody
  github : ∀ v : GitHubValidator, Protects "X-Hub-Signature-256".toList (v.verify hmac) SameBody
  stripe : ∀ (v : StripeValidator) (now now' : Int) (headers headers' : HeaderMap)
    (body body' : Bytes), v.verify hmac now headers body = .ok () →
    v.verify hmac now' headers' body' = .ok () →
    headerStr headers "Stripe-Signature".toList = headerStr headers' "Stripe-Signature".toList →
    body = body'
  twilio : ∀ v : TwilioValidator, Protects "X-Twilio-Signature".toList (v.verify hmac) SameForm

def SameSigned (headers : HeaderMap) (body : Bytes) (headers' : HeaderMap) (body' : Bytes) : Prop :=
  ∃ form form', postForm headers body = some form ∧ postForm headers' body' = some form' ∧
    formText form = formText form'

def SignedBy (hmac : Hmac) (secret : Bytes) (header : List Char) (body : Bytes)
    (entry : List Char) : Prop :=
  entry ∈ (stripeHeader header).2 ∧
    entry = hmac.hex secret (stripeSigned (stripeHeader header).1 body)

structure SignedPartsProtected (hmac : Hmac) : Prop where
  generic : ∀ v : HmacValidator, Protects v.header (v.verify hmac) SameBody
  github : ∀ v : GitHubValidator, Protects "X-Hub-Signature-256".toList (v.verify hmac) SameBody
  stripe : ∀ (v : StripeValidator) (now now' : Int) (headers headers' : HeaderMap)
    (body body' : Bytes), v.verify hmac now headers body = .ok () →
    v.verify hmac now' headers' body' = .ok () →
    headerStr headers "Stripe-Signature".toList = headerStr headers' "Stripe-Signature".toList →
    ∃ entry entry', SignedBy hmac v.secret (headerStr headers "Stripe-Signature".toList) body entry ∧
      SignedBy hmac v.secret (headerStr headers "Stripe-Signature".toList) body' entry' ∧
      (entry = entry' → body = body')
  twilio : ∀ v : TwilioValidator, Protects "X-Twilio-Signature".toList (v.verify hmac) SameSigned

section Schemes

variable {hmac : Hmac} {a b : Bytes}

theorem ctEq_iff : ctEq a b = true ↔ a = b := by
  have folded : ∀ (pairs : List (UInt8 × UInt8)) (acc : UInt8),
      pairs.foldl (fun acc pair => acc ||| (pair.1 ^^^ pair.2)) acc = 0 ↔
        acc = 0 ∧ ∀ pair ∈ pairs, pair.1 = pair.2 := by
    intro pairs
    induction pairs with
    | nil => simp
    | cons pair pairs ih =>
      intro acc
      rw [List.foldl_cons, ih]
      simp [and_assoc]
  rw [ctEq]
  by_cases lengths : a.length = b.length
  · simp only [lengths, ne_eq, not_true_eq_false, if_false, beq_iff_eq, folded, true_and]
    constructor
    · intro pairs
      refine List.ext_getElem lengths fun i inA inB => ?_
      have zipped : (a[i], b[i]) ∈ a.zip b := by
        rw [List.mem_iff_getElem]
        exact ⟨i, by simp [inA, inB], by simp⟩
      exact pairs _ zipped
    · rintro rfl pair among
      obtain ⟨i, bound, rfl⟩ := List.mem_iff_getElem.mp among
      simp
  · have apart : a ≠ b := fun same => lengths (congrArg List.length same)
    simp [lengths, apart]

theorem verifySigned_ok {raw want : List Char} (accepted : verifySigned raw want = .ok ()) :
    (stripPrefix "sha256=".toList raw).getD raw = want := by
  unfold verifySigned at accepted
  simp only at accepted
  split at accepted
  · cases accepted
  · split at accepted
    · cases accepted
    next equal => exact utf8_injective (ctEq_iff.mp (by simpa using equal))

theorem hex_separates (separates : Function.Injective2 hmac.sha256) {key : Bytes}
    (same : hmac.hex key a = hmac.hex key b) : a = b :=
  (separates (hex_injective same)).2

theorem base64_separates (separates : Function.Injective2 hmac.sha256) {key : Bytes}
    (same : hmac.base64 key a = hmac.base64 key b) : a = b :=
  (separates (base64_injective same)).2

theorem HmacValidator.protects (separates : Function.Injective2 hmac.sha256) (v : HmacValidator) :
    Protects v.header (v.verify hmac) SameBody := by
  intro headers body headers' body' first second same
  have wanted := verifySigned_ok first
  have wanted' := verifySigned_ok second
  rw [← same, wanted] at wanted'
  cases encoded : v.hexEncoded with
  | true => exact hex_separates separates (by simpa [encoded] using wanted')
  | false => exact base64_separates separates (by simpa [encoded] using wanted')

theorem GitHubValidator.protects (separates : Function.Injective2 hmac.sha256)
    (v : GitHubValidator) : Protects "X-Hub-Signature-256".toList (v.verify hmac) SameBody := by
  intro headers body headers' body' first second same
  have wanted := verifySigned_ok first
  have wanted' := verifySigned_ok second
  rw [← same, wanted] at wanted'
  exact hex_separates separates wanted'

theorem StripeValidator.signed {v : StripeValidator} {now : Int} {headers : HeaderMap}
    {body : Bytes} (accepted : v.verify hmac now headers body = .ok ()) :
    ∃ entry, SignedBy hmac v.secret (headerStr headers "Stripe-Signature".toList) body entry := by
  unfold StripeValidator.verify at accepted
  simp only at accepted
  split at accepted
  · cases accepted
  · split at accepted
    · cases accepted
    · split at accepted
      · cases accepted
      · split at accepted
        next found =>
          obtain ⟨entry, among, equal⟩ := List.any_eq_true.mp found
          exact ⟨entry, among, utf8_injective (ctEq_iff.mp equal)⟩
        next => cases accepted

theorem SignedBy.separates (separates : Function.Injective2 hmac.sha256) {secret : Bytes}
    {header entry : List Char} (first : SignedBy hmac secret header a entry)
    (second : SignedBy hmac secret header b entry) : a = b := by
  have same := hex_separates separates (first.2.symm.trans second.2)
  exact List.append_cancel_left same

theorem TwilioValidator.signed {v : TwilioValidator} {headers : HeaderMap} {body : Bytes}
    (accepted : v.verify hmac headers body = .ok ()) : ∃ form, postForm headers body = some form ∧
      headerStr headers "X-Twilio-Signature".toList =
        base64 (hmac.sha1 v.authToken (utf8 (v.url ++ formText form))) := by
  unfold TwilioValidator.verify at accepted
  simp only at accepted
  split at accepted
  · cases accepted
  · split at accepted
    next => cases accepted
    next form parsed =>
      split at accepted
      · cases accepted
      next equal => exact ⟨form, parsed, utf8_injective (ctEq_iff.mp (by simpa using equal))⟩

theorem TwilioValidator.protects (separates : Function.Injective2 hmac.sha1)
    (v : TwilioValidator) :
    Protects "X-Twilio-Signature".toList (v.verify hmac) SameSigned := by
  intro headers body headers' body' first second same
  obtain ⟨form, parsed, wanted⟩ := TwilioValidator.signed first
  obtain ⟨form', parsed', wanted'⟩ := TwilioValidator.signed second
  rw [← same, wanted] at wanted'
  have messages := (separates (base64_injective wanted')).2
  exact ⟨form, form', parsed, parsed', List.append_cancel_left (utf8_injective messages)⟩

end Schemes

theorem signatures_protect_what_they_sign (hmac : Hmac)
    (sha256 : Function.Injective2 hmac.sha256) (sha1 : Function.Injective2 hmac.sha1) :
    SignedPartsProtected hmac where
  generic := HmacValidator.protects sha256
  github := GitHubValidator.protects sha256
  stripe := by
    intro v now now' headers headers' body body' first second same
    obtain ⟨entry, signed⟩ := StripeValidator.signed first
    obtain ⟨entry', signed'⟩ := StripeValidator.signed second
    rw [← same] at signed'
    refine ⟨entry, entry', signed, signed', ?_⟩
    rintro rfl
    exact signed.separates sha256 signed'
  twilio := TwilioValidator.protects sha1

-- A hash that gives everything away: the length of the key in unary, the key and the message.
def transparent (key msg : Bytes) : Bytes := List.replicate key.length 0 ++ 1 :: (key ++ msg)

theorem transparent_separates : Function.Injective2 transparent := by
  have lengths : ∀ (m n : Nat) (rest rest' : Bytes),
      List.replicate m 0 ++ 1 :: rest = List.replicate n 0 ++ 1 :: rest' → m = n ∧ rest = rest' := by
    intro m
    induction m with
    | zero =>
      intro n rest rest' same
      cases n with
      | zero => simpa using same
      | succ n => simp [List.replicate_succ] at same
    | succ m ih =>
      intro n rest rest' same
      cases n with
      | zero => simp [List.replicate_succ] at same
      | succ n =>
        have inner := ih n rest rest' (by simpa [List.replicate_succ] using same)
        exact ⟨by rw [inner.1], inner.2⟩
  intro key key' msg msg' same
  obtain ⟨long, rest⟩ := lengths _ _ _ _ same
  exact List.append_inj rest long

def sample : Hmac := { sha256 := transparent, sha1 := transparent }

theorem signatures_protect_what_they_sign_sample : SignedPartsProtected sample :=
  signatures_protect_what_they_sign sample transparent_separates transparent_separates

def jsonHeaders : HeaderMap :=
  [("content-type", [116, 101, 120, 116]), ("x-twilio-signature", [65, 81, 61, 61])]

theorem json_body_not_signed :
    ¬ ∀ hmac : Hmac, Function.Injective2 hmac.sha256 → Function.Injective2 hmac.sha1 →
      PayloadsProtected hmac := by
  intro protects
  have twilio := (protects sample transparent_separates transparent_separates).twilio
    { authToken := [], url := [] }
  have media : contentType jsonHeaders = some "text".toList := by decide
  have unread : ∀ body, postForm jsonHeaders body = some ∅ := by
    intro body
    simp only [postForm, media]
    rw [if_pos (by decide)]
  have empty : formText (∅ : Std.TreeMap String String) = [] := by simp [formText]
  have accepted : ∀ body, TwilioValidator.verify sample { authToken := [], url := [] } jsonHeaders
      body = .ok () := by
    intro body
    have nothing : utf8 [] = [] := rfl
    have signature : headerStr jsonHeaders "X-Twilio-Signature".toList =
        base64 (sample.sha1 [] (utf8 [])) := by
      rw [nothing]
      decide
    simp only [TwilioValidator.verify, unread, empty, List.append_nil, signature]
    rw [if_neg (by decide), ctEq_iff.mpr rfl]
    rfl
  have same := twilio jsonHeaders [49] jsonHeaders [50] (accepted _) (accepted _) rfl
  have other : ¬ (contentType jsonHeaders = some FORM ∧ contentType jsonHeaders = some FORM) := by
    rw [media]
    decide
  rw [SameForm, if_neg other] at same
  exact absurd same (by decide)

end Firefly.Webhooks
