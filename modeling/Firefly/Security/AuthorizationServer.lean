import Firefly.Shared.Runs
import Firefly.Shared.Text

set_option autoImplicit false

namespace Firefly.Security.Tokens

/-- What `random_urlsafe` gives never repeats, so it is told by the call it was generated in. -/
inductive Token where
  | issued (call : Nat)
  | text (text : String)
deriving DecidableEq, Repr

structure TokenData where
  clientId : String
  scope : String
  exp : Nat
deriving DecidableEq, Repr

structure ClientRegistration where
  clientId : String
  clientSecret : String
  authorizationGrantType : String
  scopes : List String

structure Server where
  clients : String → Option ClientRegistration
  accessTokenTtl : Nat
  refreshTokenTtl : Nat
  issuer : Option String

structure TokenRequest where
  grantType : String
  clientId : String
  clientSecret : String
  scope : String
  refreshToken : Option Token

inductive Request where
  | token (request : TokenRequest)
  | revoke (token : Token)

structure AccessPayload where
  sub : String
  scope : String
  iat : Nat
  exp : Nat
  iss : Option String

structure TokenResponse where
  accessToken : AccessPayload
  tokenType : String
  expiresIn : Nat
  refreshToken : Token
  scope : String

inductive Answer where
  | error (code message : String)
  | tokens (response : TokenResponse)
  | revoked

structure Exchange where
  call : Nat
  token : Token
  clientId : String
  checked : Nat

inductive Stage where
  | find (clientId : String) (token : Token)
  | revokeExpired (token : Token)
  | rotate (exchange : Exchange) (scope : String)
  | issue (clientId scope : String) (exchange : Option Exchange)
  | revoke (token : Token)
  | answered (answer : Answer)

/-- Beside the store and the calls: what was issued, what was exchanged, which tokens a `revoke` has
returned for, which of them it had when a call began, and who has written to the store. -/
structure State where
  tokens : Token → Option TokenData
  stages : Nat → Option Stage
  issued : List (Token × TokenData)
  exchanges : List Exchange
  revoked : List Token
  begun : Nat → List Token
  writers : List Nat

def start : State where
  tokens := fun _ => none
  stages := fun _ => none
  issued := []
  exchanges := []
  revoked := []
  begun := fun _ => []
  writers := []

def joinScopes (scope : String) : String :=
  " ".intercalate ((Text.splitWhitespace scope.toList).map String.ofList)

def authenticate (server : Server) (request : TokenRequest) : Stage :=
  match server.clients request.clientId with
  | none => .answered (.error "INVALID_CLIENT" "Invalid client credentials")
  | some registration =>
    if registration.clientSecret ≠ request.clientSecret then
      .answered (.error "INVALID_CLIENT" "Invalid client credentials")
    else if request.grantType = "client_credentials" then
      if registration.authorizationGrantType ≠ "client_credentials" then
        .answered (.error "UNAUTHORIZED_CLIENT" ("Client '" ++ request.clientId ++
          "' is not authorized for grant type 'client_credentials'"))
      else
        .issue registration.clientId
          (if request.scope = "" then " ".intercalate registration.scopes
          else joinScopes request.scope) none
    else if request.grantType = "refresh_token" then
      match request.refreshToken with
      | none => .answered (.error "INVALID_REQUEST" "Refresh token required")
      | some token => .find registration.clientId token
    else
      .answered (.error "UNSUPPORTED_GRANT_TYPE"
        ("Unsupported grant type: " ++ request.grantType))

def enter (server : Server) : Request → Stage
  | .token request => authenticate server request
  | .revoke token => .revoke token

def MISMATCH : Answer := .error "INVALID_GRANT" "Refresh token client mismatch"

def found (n : Nat) (clientId : String) (token : Token) (now : Nat) : Option TokenData → Stage
  | none => .answered (.error "INVALID_GRANT" "Invalid refresh token")
  | some data =>
    if data.clientId ≠ clientId then .answered MISMATCH
    else if data.exp < now then .revokeExpired token
    else .rotate { call := n, token, clientId, checked := now } data.scope

def response (server : Server) (n : Nat) (clientId scope : String) (now : Nat) : TokenResponse where
  accessToken := { sub := clientId, scope, iat := now, exp := (now + server.accessTokenTtl) % 2 ^ 64,
                   iss := server.issuer }
  tokenType := "Bearer"
  expiresIn := server.accessTokenTtl
  refreshToken := .issued n
  scope

structure Choice where
  call : Nat
  now : Nat
  signed : Bool
deriving DecidableEq, Repr

def presentable (s : State) : Request → Bool
  | .token { refreshToken := some (.issued m), .. } | .revoke (.issued m) =>
    match s.stages m with
    | some (.answered _) => true
    | _ => false
  | _ => true

def State.go (s : State) (n : Nat) (stage : Stage) : State :=
  { s with stages := Function.update s.stages n (some stage) }

def State.revokeToken (s : State) (n : Nat) (token : Token) : State :=
  { s with tokens := Function.update s.tokens token none, writers := n :: s.writers }

def advance (server : Server) (s : State) (choice : Choice) : Stage → Option State
  | .find clientId token =>
    some (s.go choice.call (found choice.call clientId token choice.now (s.tokens token)))
  | .revokeExpired token =>
    some ((s.revokeToken choice.call token).go choice.call
      (.answered (.error "INVALID_GRANT" "Refresh token expired")))
  | .rotate exchange scope =>
    some ((s.revokeToken choice.call exchange.token).go choice.call
      (.issue exchange.clientId scope (some exchange)))
  | .issue clientId scope exchange =>
    if choice.signed then
      let data : TokenData :=
        { clientId, scope, exp := (choice.now + server.refreshTokenTtl) % 2 ^ 64 }
      some ({ s with
        tokens := Function.update s.tokens (.issued choice.call) (some data)
        issued := (.issued choice.call, data) :: s.issued
        exchanges := exchange.toList ++ s.exchanges
        writers := choice.call :: s.writers }.go choice.call
          (.answered (.tokens (response server choice.call clientId scope choice.now))))
    else some (s.go choice.call (.answered (.error "SERVER_ERROR" "token signing")))
  | .revoke token =>
    some ({ s.revokeToken choice.call token with revoked := token :: s.revoked }.go choice.call
      (.answered .revoked))
  | .answered _ => none

def step (server : Server) (requests : Nat → Request) (s : State) (choice : Choice) :
    Option State :=
  match s.stages choice.call with
  | none =>
    if presentable s (requests choice.call) then
      some ({ s with begun := Function.update s.begun choice.call s.revoked }.go choice.call
        (enter server (requests choice.call)))
    else none
  | some stage => advance server s choice stage

structure RotatesOnce (s : State) : Prop where
  once : (s.exchanges.map (·.token)).Nodup
  rightful : ∀ exchange ∈ s.exchanges, ∃ data, (exchange.token, data) ∈ s.issued ∧
    data.clientId = exchange.clientId ∧ exchange.checked ≤ data.exp
  live : ∀ exchange ∈ s.exchanges, exchange.token ∉ s.begun exchange.call
  unchanged : ∀ n, s.stages n = some (.answered MISMATCH) → n ∉ s.writers

/-- No lookup of a token falls between the lookup and the revocation of another exchange of it. -/
def Serial (s : State) (choice : Choice) : Prop :=
  ∀ clientId token, s.stages choice.call = some (.find clientId token) →
    ∀ m exchange scope, s.stages m = some (.rotate exchange scope) → exchange.token ≠ token

end Firefly.Security.Tokens
