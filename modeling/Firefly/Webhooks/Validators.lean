import Firefly.Shared.Decimal
import Firefly.Shared.Encoding
import Firefly.Shared.Text
import Firefly.Web.Idempotency

set_option autoImplicit false

namespace Firefly.Webhooks

open Text Encoding
open Web (HeaderMap)

abbrev Bytes := List UInt8

def isTspecial (c : Char) : Bool := "()<>@,;:\\\"/[]?=".toList.contains c

def isTokenChar (c : Char) : Bool := 32 < c.toNat && c.toNat < 127 && !isTspecial c

def consumeToken (v : List Char) : List Char × List Char :=
  (v.takeWhile isTokenChar, v.dropWhile isTokenChar)

def quoted : List Char → Option (List Char × List Char)
  | [] => none
  | '"' :: rest => some ([], rest)
  | '\\' :: c :: rest =>
    if isTspecial c then (quoted rest).map fun parts => (c :: parts.1, parts.2)
    else (quoted (c :: rest)).map fun parts => ('\\' :: parts.1, parts.2)
  | c :: rest =>
    if c = '\r' ∨ c = '\n' then none
    else (quoted rest).map fun parts => (c :: parts.1, parts.2)

def consumeValue : List Char → List Char × List Char
  | [] => ([], [])
  | '"' :: rest => (quoted rest).getD ([], '"' :: rest)
  | v => consumeToken v

def trimStart (v : List Char) : List Char := v.dropWhile isWhitespace

def consumeMediaParam (v : List Char) : Option (List Char × List Char × List Char) :=
  match stripPrefix [';'] (trimStart v) with
  | none => none
  | some rest =>
    let (param, rest) := consumeToken (trimStart rest)
    if param = [] then none
    else
      match stripPrefix ['='] (trimStart rest) with
      | none => none
      | some rest =>
        let rest := trimStart rest
        let (value, rest2) := consumeValue rest
        if value = [] ∧ rest2 = rest then none else some (asciiLower param, value, rest2)

def bucket (key : List Char) : Option (List Char) := (splitOnce ['*'] key).map Prod.fst

def mediaParams : Nat → List ((Option (List Char) × List Char) × List Char) → List Char → Bool
  | 0, _, _ => true
  | fuel + 1, seen, rest =>
    let rest := trimStart rest
    if rest = [] then true
    else
      match consumeMediaParam rest with
      | none => decide (trim rest = [';'])
      | some (key, value, next) =>
        match seen.lookup (bucket key, key) with
        | some existing =>
          if existing ≠ value then false else mediaParams fuel seen next
        | none => mediaParams fuel (((bucket key, key), value) :: seen) next

def checkMediaTypeDisposition (s : List Char) : Bool :=
  let (typ, rest) := consumeToken s
  if typ = [] then false
  else if rest = [] then true
  else
    match stripPrefix ['/'] rest with
    | none => false
    | some rest =>
      let (subtype, rest) := consumeToken rest
      subtype ≠ [] && rest = []

def parseMediaType (v : List Char) : Option (List Char) :=
  let base := v.takeWhile (· ≠ ';')
  let mediatype := asciiLower (trim base)
  let rest := v.drop base.length
  if checkMediaTypeDisposition mediatype && mediaParams rest.length [] rest then some mediatype
  else none

section Fuel

variable {v rest value next key : List Char}

theorem stripPrefix_shorter {c : Char} (stripped : stripPrefix [c] v = some rest) :
    rest.length < v.length := by
  unfold stripPrefix at stripped
  split at stripped
  next starts =>
    obtain rfl := Option.some.inj stripped
    cases v with
    | nil => simp [List.isPrefixOf] at starts
    | cons d v => simp
  next => cases stripped

theorem quoted_shorter (closed : quoted v = some (value, next)) : next.length < v.length := by
  induction v using quoted.induct generalizing value with
  | case1 => simp [quoted] at closed
  | case2 rest =>
    simp only [quoted, Option.some.injEq, Prod.mk.injEq] at closed
    simp [← closed.2]
  | case3 c rest special ih =>
    simp only [quoted, special, if_true] at closed
    obtain ⟨⟨inner, after⟩, later, same⟩ := Option.map_eq_some_iff.mp closed
    obtain ⟨-, rfl⟩ := Prod.mk.inj same
    have shorter : after.length < rest.length := ih later
    simp only [List.length_cons]
    omega
  | case4 c rest plain ih =>
    simp only [quoted, plain] at closed
    obtain ⟨⟨inner, after⟩, later, same⟩ := Option.map_eq_some_iff.mp closed
    obtain ⟨-, rfl⟩ := Prod.mk.inj same
    have shorter : after.length < (c :: rest).length := ih later
    simp only [List.length_cons] at shorter ⊢
    omega
  | case5 c rest notQuote notEscape broken =>
    rw [quoted.eq_4 _ _ notQuote notEscape, if_pos broken] at closed
    cases closed
  | case6 c rest notQuote notEscape whole ih =>
    rw [quoted.eq_4 _ _ notQuote notEscape, if_neg whole] at closed
    obtain ⟨⟨inner, after⟩, later, same⟩ := Option.map_eq_some_iff.mp closed
    obtain ⟨-, rfl⟩ := Prod.mk.inj same
    have shorter : after.length < rest.length := ih later
    simp only [List.length_cons]
    omega

theorem dropWhile_shorter (p : Char → Bool) (v : List Char) : (v.dropWhile p).length ≤ v.length :=
  (List.dropWhile_suffix p).length_le

theorem consumeValue_shorter (v : List Char) : (consumeValue v).2.length ≤ v.length := by
  unfold consumeValue
  split
  · rfl
  next rest =>
    cases closed : quoted rest with
    | none => simp
    | some parts =>
      have shorter : parts.2.length < rest.length := quoted_shorter closed
      simp only [Option.getD_some, List.length_cons]
      omega
  · exact dropWhile_shorter _ _

theorem consumeMediaParam_shorter (consumed : consumeMediaParam v = some (key, value, next)) :
    next.length < v.length := by
  unfold consumeMediaParam at consumed
  split at consumed
  next => cases consumed
  next rest stripped =>
    have separator := stripPrefix_shorter stripped
    have start := dropWhile_shorter isWhitespace v
    simp only at consumed
    split at consumed
    · cases consumed
    · split at consumed
      next => cases consumed
      next rest' stripped' =>
        split at consumed
        · cases consumed
        · have same := Option.some.inj consumed
          obtain ⟨-, -, rfl⟩ := And.intro (congrArg Prod.fst same)
            (And.intro (congrArg (·.2.1) same) (congrArg (·.2.2) same))
          have equals := stripPrefix_shorter stripped'
          have token := dropWhile_shorter isTokenChar (trimStart rest)
          have last := consumeValue_shorter (trimStart rest')
          have a := dropWhile_shorter isWhitespace rest
          have b := dropWhile_shorter isWhitespace (consumeToken (trimStart rest)).2
          have c := dropWhile_shorter isWhitespace rest'
          simp only [trimStart, consumeToken] at *
          omega

-- Every parameter takes at least its `;`, so the length of the text is fuel enough.
theorem mediaParams_fuel (fuel : Nat) (seen : List ((Option (List Char) × List Char) × List Char))
    (rest : List Char) (enough : rest.length ≤ fuel) :
    mediaParams fuel seen rest = mediaParams rest.length seen rest := by
  induction fuel using Nat.strong_induction_on generalizing seen rest with
  | _ fuel ih =>
    cases fuel with
    | zero => rw [Nat.le_zero.mp enough]
    | succ fuel =>
      rcases rest with _ | ⟨c, rest⟩
      · simp [mediaParams, trimStart]
      · have start := dropWhile_shorter isWhitespace (c :: rest)
        simp only [List.length_cons] at enough start
        rw [List.length_cons, mediaParams, mediaParams]
        split
        · rfl
        · split
          next => rfl
          next key value next consumed =>
            have shorter := consumeMediaParam_shorter consumed
            have same : ∀ seen, mediaParams fuel seen next = mediaParams rest.length seen next := by
              intro seen
              simp only [trimStart] at shorter
              rw [ih fuel (by omega) seen next (by omega)]
              by_cases small : rest.length < fuel + 1
              · exact (ih rest.length small seen next (by omega)).symm
              · omega
            split
            · rw [same]
            · rw [same]

end Fuel

inductive WebhookError where
  | signatureMismatch
  | staleSignature
deriving DecidableEq, Repr

structure Hmac where
  sha256 : Bytes → Bytes → Bytes
  sha1 : Bytes → Bytes → Bytes

def Hmac.hex (hmac : Hmac) (key msg : Bytes) : List Char := Encoding.hex (hmac.sha256 key msg)

def Hmac.base64 (hmac : Hmac) (key msg : Bytes) : List Char :=
  Encoding.base64 (hmac.sha256 key msg)

-- The first value of a header, empty where there is none or it is no visible text.
def headerStr (headers : HeaderMap) (name : List Char) : List Char :=
  (((headers.getAll (String.ofList (asciiLower name))).head?.bind Web.toStr).getD "").toList

def ctEq (a b : Bytes) : Bool :=
  if a.length ≠ b.length then false
  else (a.zip b).foldl (fun acc pair => acc ||| (pair.1 ^^^ pair.2)) 0 == 0

def verifySigned (raw want : List Char) : Except WebhookError Unit :=
  let got := (stripPrefix "sha256=".toList raw).getD raw
  if got = [] then .error .signatureMismatch
  else if !ctEq (utf8 got) (utf8 want) then .error .signatureMismatch
  else .ok ()

structure HmacValidator where
  providerName : String
  secret : Bytes
  header : List Char
  hexEncoded : Bool

def HmacValidator.verify (hmac : Hmac) (v : HmacValidator) (headers : HeaderMap) (body : Bytes) :
    Except WebhookError Unit :=
  verifySigned (headerStr headers v.header)
    (if v.hexEncoded then hmac.hex v.secret body else hmac.base64 v.secret body)

structure GitHubValidator where
  secret : Bytes

def GitHubValidator.verify (hmac : Hmac) (v : GitHubValidator) (headers : HeaderMap)
    (body : Bytes) : Except WebhookError Unit :=
  verifySigned (headerStr headers "X-Hub-Signature-256".toList) (hmac.hex v.secret body)

structure StripeValidator where
  secret : Bytes
  tolerance : Nat

def stripePart (acc : Int × List (List Char)) (part : List Char) : Int × List (List Char) :=
  match splitOnce ['='] part with
  | none => acc
  | some (k, v) =>
    if k = "t".toList then ((Decimal.parseI64 v).getD 0, acc.2)
    else if k = "v1".toList then (acc.1, acc.2 ++ [v])
    else acc

def stripeHeader (header : List Char) : Int × List (List Char) :=
  (header.splitOn ',').foldl stripePart (0, [])

def i64ToString (n : Int) : List Char :=
  if n < 0 then '-' :: Decimal.digits n.natAbs else Decimal.digits n.natAbs

def stripeSigned (ts : Int) (body : Bytes) : Bytes := utf8 (i64ToString ts) ++ utf8 ['.'] ++ body

def i64 (n : Int) : Int := n.bmod (2 ^ 64)

def StripeValidator.verify (hmac : Hmac) (v : StripeValidator) (now : Int) (headers : HeaderMap)
    (body : Bytes) : Except WebhookError Unit :=
  let header := headerStr headers "Stripe-Signature".toList
  if header = [] then .error .signatureMismatch
  else
    let (ts, sigs) := stripeHeader header
    if ts = 0 ∨ sigs = [] then .error .signatureMismatch
    else if v.tolerance ≠ 0 ∧ i64 (v.tolerance / 10 ^ 9 : Nat) < i64 |i64 (now - ts)| then
      .error .staleSignature
    else
      let want := hmac.hex v.secret (stripeSigned ts body)
      if sigs.any fun sig => ctEq (utf8 sig) (utf8 want) then .ok ()
      else .error .signatureMismatch

def hexVal (b : UInt8) : Option UInt8 :=
  if 48 ≤ b ∧ b ≤ 57 then some (b - 48)
  else if 97 ≤ b ∧ b ≤ 102 then some (b - 97 + 10)
  else if 65 ≤ b ∧ b ≤ 70 then some (b - 65 + 10)
  else none

def urlDecodeBytes : Bytes → Option Bytes
  | [] => some []
  | c :: rest =>
    if c = 43 then (urlDecodeBytes rest).map (32 :: ·)
    else if c = 37 then
      match rest with
      | hi :: lo :: rest =>
        match hexVal hi, hexVal lo with
        | some hi, some lo => (urlDecodeBytes rest).map ((hi <<< 4 ||| lo) :: ·)
        | _, _ => none
      | _ => none
    else (urlDecodeBytes rest).map (c :: ·)

def urlDecode (s : List Char) : Option String :=
  ((urlDecodeBytes (utf8 s)).bind fromUtf8).map String.ofList

def formPair (segment : List Char) : Option (Option (String × String)) :=
  if ';' ∈ segment then none
  else if segment = [] then some none
  else
    let (k, v) := (splitOnce ['='] segment).getD (segment, [])
    match urlDecode k, urlDecode v with
    | some k, some v => some (some (k, v))
    | _, _ => none

def formPairs (body : Bytes) : Option (List (String × String)) :=
  (fromUtf8 body).bind fun s => ((s.splitOn '&').mapM formPair).map (·.filterMap id)

def parseForm (body : Bytes) : Option (Std.TreeMap String String) :=
  (formPairs body).map fun pairs => pairs.foldl (fun out pair => out.insertIfNew pair.1 pair.2) ∅

def MAX_FORM_SIZE : Nat := 10 <<< 20

def FORM : List Char := "application/x-www-form-urlencoded".toList

def contentType (headers : HeaderMap) : Option (List Char) :=
  let ct := headerStr headers "Content-Type".toList
  parseMediaType (if ct = [] then "application/octet-stream".toList else ct)

def postForm (headers : HeaderMap) (body : Bytes) : Option (Std.TreeMap String String) :=
  match contentType headers with
  | none => none
  | some mediaType =>
    if mediaType ≠ FORM then some ∅
    else if MAX_FORM_SIZE < body.length then none
    else parseForm body

structure TwilioValidator where
  authToken : Bytes
  url : List Char

def formText (form : Std.TreeMap String String) : List Char :=
  form.toList.flatMap fun pair => pair.1.toList ++ pair.2.toList

def TwilioValidator.verify (hmac : Hmac) (v : TwilioValidator) (headers : HeaderMap)
    (body : Bytes) : Except WebhookError Unit :=
  let got := headerStr headers "X-Twilio-Signature".toList
  if got = [] then .error .signatureMismatch
  else
    match postForm headers body with
    | none => .error .signatureMismatch
    | some form =>
      let want := Encoding.base64 (hmac.sha1 v.authToken (utf8 (v.url ++ formText form)))
      if !ctEq (utf8 got) (utf8 want) then .error .signatureMismatch else .ok ()

end Firefly.Webhooks
