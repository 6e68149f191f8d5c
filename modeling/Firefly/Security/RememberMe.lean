import Firefly.Shared.Decimal
import Firefly.Shared.Encoding
import Firefly.Shared.Text

set_option autoImplicit false

namespace Firefly.Security.RememberMe

open Text Encoding

structure UserDetails where
  username : List Char
  password : List Char
  roles : List String
  authorities : List String
  enabled : Bool
  accountNonLocked : Bool
  accountNonExpired : Bool
deriving DecidableEq, Repr

structure Authentication where
  principal : List Char
  username : List Char
  roles : List String
  authorities : List String
  remembered : Bool
deriving DecidableEq, Repr

def UserDetails.toAuthentication (user : UserDetails) : Authentication where
  principal := user.username
  username := user.username
  roles := user.roles
  authorities := user.authorities
  remembered := false

def checkAccountStatus (user : UserDetails) : Except String Unit :=
  if !user.accountNonLocked then .error "Account locked"
  else if !user.enabled then .error "Account disabled"
  else if !user.accountNonExpired then .error "Account expired"
  else .ok ()

structure UserDetailsService where
  load : List Char → Except String (Option UserDetails)
  named : ∀ username user, load username = .ok (some user) → user.username = username

structure Services where
  key : List UInt8
  tokenValiditySeconds : Nat
  hmacSha256 : List UInt8 → List UInt8 → List UInt8

def message (username : List Char) (expiry : Nat) (password : List Char) : List Char :=
  username ++ ':' :: Decimal.digits expiry ++ ':' :: password

def Services.sign (services : Services) (username : List Char) (expiry : Nat)
    (password : List Char) : List Char :=
  base64Url (services.hmacSha256 services.key (utf8 (message username expiry password)))

def u64Max : Nat := 2 ^ 64 - 1

def Services.expiry (services : Services) (now : Option Nat) : Nat :=
  min (now.getD 0 + services.tokenValiditySeconds) u64Max

def Services.tokenText (services : Services) (username : List Char) (expiry : Nat)
    (password : List Char) : List Char :=
  username ++ ':' :: Decimal.digits expiry ++ ':' :: services.sign username expiry password

def Services.makeToken (services : Services) (now : Option Nat) (username password : List Char) :
    List Char :=
  base64Url (utf8 (services.tokenText username (services.expiry now) password))

def unsigned : List Char → List Char
  | '+' :: digits => digits
  | digits => digits

def parseU64 (text : List Char) : Option Nat :=
  (Decimal.parseDigits (unsigned text)).filter (· ≤ u64Max)

structure Parts where
  username : List Char
  expiry : Nat
  signature : List Char

def parse (token : List Char) : Option Parts :=
  match (base64UrlDecode token).bind fromUtf8 with
  | none => none
  | some decoded =>
    match rsplitOnce ':' decoded with
    | none => none
    | some (rest, signature) =>
      match rsplitOnce ':' rest with
      | none => none
      | some (username, expiry) => (parseU64 expiry).map fun expiry => { username, expiry, signature }

def Services.autoLogin (services : Services) (users : UserDetailsService) (now : Option Nat)
    (token : List Char) : Option Authentication :=
  match parse token with
  | none => none
  | some parts =>
    match now with
    | none => none
    | some now =>
      if now > parts.expiry then none
      else
        match users.load parts.username with
        | .ok (some user) =>
          let expected := services.sign parts.username parts.expiry user.password
          if utf8 parts.signature ≠ utf8 expected then none
          else some { user.toAuthentication with remembered := true }
        | _ => none

structure Minted where
  now : Option Nat
  username : List Char
  password : List Char

def Services.minted (services : Services) (call : Minted) : List Char :=
  services.makeToken call.now call.username call.password

def Services.signature (services : Services) (call : Minted) : List Char :=
  services.sign call.username (services.expiry call.now) call.password

def Services.Formable (services : Services) (history : List Minted) (token : List Char) : Prop :=
  ∀ parts, parse token = some parts → ∃ call ∈ history, parts.signature = services.signature call

def Services.Entitled (services : Services) (history : List Minted) (n : Nat) (user : UserDetails) :
    Prop :=
  ∃ call ∈ history, call.username = user.username ∧ call.password = user.password ∧
    n ≤ services.expiry call.now

structure Services.IdentifiesUsers (services : Services) (users : UserDetailsService)
    (history : List Minted) (n : Nat) : Prop where
  only : ∀ token authentication, services.Formable history token →
    services.autoLogin users (some n) token = some authentication →
    ∃ user, users.load authentication.principal = .ok (some user) ∧
      services.Entitled history n user ∧ checkAccountStatus user = .ok ()
  every : ∀ call ∈ history, ∀ user, users.load call.username = .ok (some user) →
    user.password = call.password → n ≤ services.expiry call.now →
    checkAccountStatus user = .ok () →
    ∃ authentication, services.autoLogin users (some n) (services.minted call) =
      some authentication ∧ authentication.principal = user.username

/-- What was minted reads as the name, an unexpired expiry and the password of a stored user only
where the user has such a token of its own and an account that is accepted. -/
def Services.Unambiguous (services : Services) (users : UserDetailsService) (history : List Minted)
    (n : Nat) : Prop :=
  ∀ call ∈ history, ∀ user expiry, users.load user.username = .ok (some user) → n ≤ expiry →
    expiry ≤ u64Max →
    message call.username (services.expiry call.now) call.password =
      message user.username expiry user.password →
    services.Entitled history n user ∧ checkAccountStatus user = .ok ()

section Reading

variable {services : Services} {users : UserDetailsService} {history : List Minted} {n : Nat}

theorem colon_notMem_digits (m : Nat) : ':' ∉ Decimal.digits m := by
  intro among
  exact absurd (Decimal.isDigit_of_mem_digits among) (by decide)

theorem parseU64_digits {m : Nat} (fits : m ≤ u64Max) : parseU64 (Decimal.digits m) = some m := by
  have present : Decimal.digits m ≠ [] := Nat.toDigits_ne_nil
  have digits : (Decimal.digits m).all Char.isDigit = true := by
    rw [List.all_eq_true]
    exact fun c among => Decimal.isDigit_of_mem_digits among
  have parsed : Decimal.parseDigits (Decimal.digits m) = some m := by
    rw [Decimal.parseDigits, if_pos ⟨present, digits⟩, Decimal.value_digits]
  have bare : unsigned (Decimal.digits m) = Decimal.digits m := by
    unfold unsigned
    split
    next rest plus =>
      have sign : '+' ∈ Decimal.digits m := by simp [plus]
      exact absurd (Decimal.isDigit_of_mem_digits sign) (by decide)
    next => rfl
  rw [parseU64, bare, parsed]
  simp [fits]

theorem parse_assembled (username : List Char) {expiry : Nat} {signature : List Char}
    (fits : expiry ≤ u64Max) (plain : ':' ∉ signature) :
    parse (base64Url (utf8 (username ++ ':' :: Decimal.digits expiry ++ ':' :: signature))) =
      some { username, expiry, signature } := by
  simp only [parse, base64UrlDecode_encode, Option.bind_some, fromUtf8_utf8]
  rw [rsplitOnce_append plain]
  simp only
  rw [rsplitOnce_append (colon_notMem_digits expiry)]
  simp [parseU64_digits fits]

theorem colon_notMem_sign (username : List Char) (expiry : Nat) (password : List Char) :
    ':' ∉ services.sign username expiry password := colon_notMem_base64Url _

theorem expiry_fits (now : Option Nat) : services.expiry now ≤ u64Max := min_le_right _ _

theorem autoLogin_eq_some {token : List Char} {authentication : Authentication}
    (known : services.autoLogin users (some n) token = some authentication) :
    ∃ parts user, parse token = some parts ∧ n ≤ parts.expiry ∧
      users.load parts.username = .ok (some user) ∧
      parts.signature = services.sign parts.username parts.expiry user.password ∧
      authentication = { user.toAuthentication with remembered := true } := by
  unfold Services.autoLogin at known
  cases parsed : parse token with
  | none =>
    rw [parsed] at known
    cases known
  | some parts =>
    rw [parsed] at known
    by_cases expired : n > parts.expiry
    · simp only [if_pos expired] at known
      cases known
    · simp only [if_neg expired] at known
      split at known
      next user loaded =>
        split at known
        · cases known
        next signed =>
          rw [not_not] at signed
          exact ⟨parts, user, rfl, not_lt.mp expired, loaded, utf8_injective signed,
            (Option.some.inj known).symm⟩
      next => cases known

theorem autoLogin_assembled {user : UserDetails} {expiry : Nat} {signature : List Char}
    (loaded : users.load user.username = .ok (some user)) (live : n ≤ expiry)
    (fits : expiry ≤ u64Max) (signed : signature = services.sign user.username expiry user.password) :
    services.autoLogin users (some n)
      (base64Url (utf8 (user.username ++ ':' :: Decimal.digits expiry ++ ':' :: signature))) =
      some { user.toAuthentication with remembered := true } := by
  subst signed
  have expired : ¬ n > expiry := not_lt.mpr live
  simp only [Services.autoLogin, parse_assembled user.username fits (colon_notMem_sign _ _ _),
    if_neg expired, loaded, ne_eq, not_true_eq_false, if_false]

theorem message_of_sign
    (separates : ∀ m m', services.hmacSha256 services.key m = services.hmacSha256 services.key m' →
      m = m')
    {username username' password password' : List Char} {expiry expiry' : Nat}
    (same : services.sign username expiry password = services.sign username' expiry' password') :
    message username expiry password = message username' expiry' password' :=
  utf8_injective (separates _ _ (base64Url_injective same))

theorem parse_fits {token : List Char} {parts : Parts} (parsed : parse token = some parts) :
    parts.expiry ≤ u64Max := by
  unfold parse at parsed
  split at parsed
  · cases parsed
  · split at parsed
    · cases parsed
    · split at parsed
      · cases parsed
      · obtain ⟨expiry, read, rfl⟩ := Option.map_eq_some_iff.mp parsed
        exact of_decide_eq_true (Option.filter_eq_some_iff.mp read).2

end Reading

theorem identifies_users_iff (services : Services) (users : UserDetailsService)
    (history : List Minted) (n : Nat)
    (separates : ∀ m m', services.hmacSha256 services.key m = services.hmacSha256 services.key m' →
      m = m') :
    services.IdentifiesUsers users history n ↔ services.Unambiguous users history n := by
  constructor
  · intro identifies call among user expiry loaded live fits same
    have signed : services.signature call = services.sign user.username expiry user.password := by
      rw [Services.signature, Services.sign, same, Services.sign]
    have plain : ':' ∉ services.signature call := colon_notMem_sign _ _ _
    have formable : services.Formable history (base64Url (utf8
        (user.username ++ ':' :: Decimal.digits expiry ++ ':' :: services.signature call))) := by
      intro parts parsed
      rw [parse_assembled user.username fits plain] at parsed
      obtain rfl := Option.some.inj parsed
      exact ⟨call, among, rfl⟩
    obtain ⟨found, loaded', entitled, accepted⟩ :=
      identifies.only _ _ formable (autoLogin_assembled loaded live fits signed)
    obtain rfl : user = found := Option.some.inj (Except.ok.inj (loaded.symm.trans loaded'))
    exact ⟨entitled, accepted⟩
  · intro unambiguous
    constructor
    · intro token authentication formable known
      obtain ⟨parts, user, parsed, live, loaded, signed, rfl⟩ := autoLogin_eq_some known
      obtain ⟨call, among, same⟩ := formable parts parsed
      have named := users.named parts.username user loaded
      have loaded' : users.load user.username = .ok (some user) := by rw [named, loaded]
      have messages := message_of_sign separates (same.symm.trans signed)
      rw [← named] at messages
      exact ⟨user, loaded', unambiguous call among user parts.expiry loaded' live
        (parse_fits parsed) messages⟩
    · intro call among user loaded password live _
      have named := users.named call.username user loaded
      refine ⟨{ user.toAuthentication with remembered := true }, ?_, rfl⟩
      rw [Services.minted, Services.makeToken, Services.tokenText, ← named, ← password]
      exact autoLogin_assembled (by rw [named, loaded]) live (expiry_fits _) rfl

def transparent : Services where
  key := []
  tokenValiditySeconds := 7
  hmacSha256 := fun _ msg => msg

def victim : UserDetails where
  username := ['a']
  password := ['7', ':', 'p']
  roles := ["ADMIN"]
  authorities := []
  enabled := true
  accountNonLocked := true
  accountNonExpired := true

def onlyVictim : UserDetailsService where
  load := fun username => .ok (if username = ['a'] then some victim else none)
  named := by
    intro username user loaded
    have found := Except.ok.inj loaded
    split at found
    next same =>
      obtain rfl := Option.some.inj found
      exact same.symm
    next => cases found

theorem identifies_users_iff_transparent :
    transparent.IdentifiesUsers onlyVictim [⟨some 0, victim.username, victim.password⟩] 5 ↔
      transparent.Unambiguous onlyVictim [⟨some 0, victim.username, victim.password⟩] 5 :=
  identifies_users_iff transparent onlyVictim _ 5 fun _ _ same => same

-- What is signed for `a:99`, until 7, with the password `p` is signed for `a` until 99 as well.
theorem minted_for_another_user :
    ¬ ∀ (services : Services) (users : UserDetailsService) (history : List Minted) (n : Nat),
      (∀ m m', services.hmacSha256 services.key m = services.hmacSha256 services.key m' → m = m') →
        services.IdentifiesUsers users history n := by
  intro identifies
  let call : Minted := { now := some 0, username := ['a', ':', '9', '9'], password := ['p'] }
  have plain : ':' ∉ transparent.signature call := colon_notMem_sign _ _ _
  have signed : transparent.signature call = transparent.sign ['a'] 99 ['7', ':', 'p'] := by
    have same : message call.username (transparent.expiry call.now) call.password =
        message ['a'] 99 ['7', ':', 'p'] := by decide
    rw [Services.signature, Services.sign, same, Services.sign]
  have loaded : onlyVictim.load victim.username = .ok (some victim) := rfl
  have live : 50 ≤ 99 := by decide
  have known := autoLogin_assembled loaded live (by decide) signed
  have formable : transparent.Formable [call] (base64Url (utf8
      (victim.username ++ ':' :: Decimal.digits 99 ++ ':' :: transparent.signature call))) := by
    intro parts parsed
    rw [parse_assembled victim.username (by decide) plain] at parsed
    obtain rfl := Option.some.inj parsed
    exact ⟨call, List.mem_singleton.mpr rfl, rfl⟩
  obtain ⟨user, found, ⟨minted, among, name, _⟩, _⟩ :=
    (identifies transparent onlyVictim [call] 50 fun _ _ same => same).only _ _ formable known
  obtain rfl : victim = user := Option.some.inj (Except.ok.inj found)
  obtain rfl := List.mem_singleton.mp among
  exact absurd name (by decide)

end Firefly.Security.RememberMe
