import Firefly.Shared.Runs

set_option autoImplicit false

namespace Firefly.Security.Login

/-- A text of a session. What `random_urlsafe` gives never repeats, so it is told by the request it
was generated for. -/
inductive Value where
  | state (request : Nat)
  | nonce (request : Nat)
  | verifier (request : Nat)
  | text (text : String)
deriving DecidableEq, Repr

structure Authentication where
  principal : String
deriving DecidableEq, Repr

structure Session where
  state : Option Value
  nonce : Option Value
  pkceVerifier : Option Value
  securityContext : Option Authentication
  redirectUri : Option Value
  idToken : Option Value
  registrationId : Option Value

def noAttributes : Session where
  state := none
  nonce := none
  pkceVerifier := none
  securityContext := none
  redirectUri := none
  idToken := none
  registrationId := none

structure ClientRegistration where
  usePkce : Bool
  jwksUri : String
deriving DecidableEq, Repr

structure Config where
  clients : String → Option ClientRegistration
  concurrency : Bool

structure Query where
  state : Option Value
  error : Option String
  errorDescription : Option String
  code : Option String

inductive Request where
  | authorization (registrationId : String)
  | callback (registrationId : String) (query : Query)
  | logout

structure TokenResponse where
  accessToken : Option String
  idToken : Option String

structure Claims where
  nonce : Option Value
  authentication : Authentication

structure Outcome where
  tokens : TokenResponse
  claims : Option Claims
  userInfo : Authentication
  admitted : Bool

inductive Answer where
  | authorize (registrationId : String) (state nonce : Value) (challenge : Option Value)
  | error (status : Nat) (error message : String)
  | redirect (location : Value)
  | loggedOut (registrationId idToken : Option Value)

structure Accepted where
  registrationId : String
  registration : ClientRegistration
  state : Value
  verifier : Option Value

structure Context where
  registrationId : String
  state : Value
  nonce : Option Value
  verifier : Option Value
  validated : Bool
  authentication : Authentication

inductive Stage where
  | setNonce (registrationId : String) (registration : ClientRegistration)
  | setVerifier (registrationId : String)
  | removeState (accepted : Accepted) (query : Query)
  | getVerifier (accepted : Accepted) (code : String)
  | removeVerifier (accepted : Accepted) (code : String)
  | exchange (accepted : Accepted) (code : String)
  | getNonce (accepted : Accepted) (tokens : TokenResponse)
  | removeNonce (accepted : Accepted) (tokens : TokenResponse) (nonce : Option Value)
  | identify (accepted : Accepted) (tokens : TokenResponse) (nonce : Option Value)
  | rotate (context : Context) (idToken : Option String)
  | bind (context : Context) (idToken : Option String)
  | refuse
  | storeContext (context : Context) (idToken : Option String)
  | storeRegistration (registrationId : String) (idToken : Option String)
  | storeIdToken (idToken : Option String)
  | getRedirect
  | removeRedirect (location : Option Value)
  | getRegistration
  | getIdToken (registrationId : Option Value)
  | invalidate (registrationId idToken : Option Value)
  | answered (answer : Answer)

structure State where
  session : Session
  stages : Nat → Option Stage
  logins : List Context

def start : State := { session := noAttributes, stages := fun _ => none, logins := [] }

def unknownRegistration (registrationId : String) : Answer :=
  .error 400 "unknown_registration" ("No registration found for '" ++ registrationId ++ "'")

def enter (config : Config) (n : Nat) (session : Session) : Request → Session × Stage
  | .authorization registrationId =>
    match config.clients registrationId with
    | none => (session, .answered (unknownRegistration registrationId))
    | some registration =>
      ({ session with state := some (.state n) }, .setNonce registrationId registration)
  | .callback registrationId query =>
    match config.clients registrationId with
    | none => (session, .answered (unknownRegistration registrationId))
    | some registration =>
      match session.state, query.state with
      | some expected, some received =>
        if expected = received then
          (session, .removeState { registrationId, registration, state := expected, verifier := none }
            query)
        else
          (session, .answered (.error 400 "invalid_state" "OAuth2 state parameter mismatch"))
      | _, _ => (session, .answered (.error 400 "invalid_state" "OAuth2 state parameter mismatch"))
  | .logout => (session, .getRegistration)

def redirected (n : Nat) (registrationId : String) (challenge : Option Value) : Stage :=
  .answered (.authorize registrationId (.state n) (.nonce n) challenge)

def consumed (accepted : Accepted) (query : Query) : Stage :=
  match query.error with
  | some error =>
    .answered (.error 400 error ((query.errorDescription.filter (· ≠ "")).getD error))
  | none =>
    match query.code with
    | none => .answered (.error 400 "missing_code" "No authorization code in callback")
    | some code =>
      if accepted.registration.usePkce then .getVerifier accepted code else .exchange accepted code

def exchanged (accepted : Accepted) (tokens : TokenResponse) : Stage :=
  match tokens.accessToken.filter (· ≠ "") with
  | none =>
    .answered (.error 502 "token_exchange_failed" "Failed to obtain access token")
  | some _ => .getNonce accepted tokens

-- Without an expected nonce that of the token is not looked at.
def validateIdToken (claims : Option Claims) (nonce : Option Value) : Option Authentication :=
  match claims with
  | none => none
  | some claims =>
    match nonce with
    | some expected => if claims.nonce ≠ some expected then none else some claims.authentication
    | none => some claims.authentication

def authenticated (accepted : Accepted) (tokens : TokenResponse) (nonce : Option Value)
    (validated : Bool) (authentication : Authentication) : Stage :=
  if authentication.principal = "" then
    .answered (.error 401 "login_failed" "Could not determine the authenticated user")
  else
    .rotate { registrationId := accepted.registrationId, state := accepted.state, nonce,
              verifier := accepted.verifier, validated, authentication } tokens.idToken

def identified (accepted : Accepted) (tokens : TokenResponse) (nonce : Option Value)
    (outcome : Outcome) : Stage :=
  match tokens.idToken with
  | some _ =>
    if accepted.registration.jwksUri = "" then
      .answered (.error 401 "invalid_id_token"
        "ID token present but no JWKS endpoint is configured to validate it")
    else
      match validateIdToken outcome.claims nonce with
      | none => .answered (.error 401 "invalid_id_token" "ID token validation failed")
      | some authentication => authenticated accepted tokens nonce true authentication
  | none => authenticated accepted tokens nonce false outcome.userInfo

def advance (config : Config) (n : Nat) (session : Session) (outcome : Outcome) :
    Stage → Option (Session × Stage)
  | .setNonce registrationId registration =>
    some ({ session with nonce := some (.nonce n) },
      if registration.usePkce then .setVerifier registrationId
      else redirected n registrationId none)
  | .setVerifier registrationId =>
    some ({ session with pkceVerifier := some (.verifier n) },
      redirected n registrationId (some (.verifier n)))
  | .removeState accepted query => some ({ session with state := none }, consumed accepted query)
  | .getVerifier accepted code =>
    some (session, .removeVerifier { accepted with verifier := session.pkceVerifier } code)
  | .removeVerifier accepted code =>
    some ({ session with pkceVerifier := none }, .exchange accepted code)
  | .exchange accepted _ => some (session, exchanged accepted outcome.tokens)
  | .getNonce accepted tokens => some (session, .removeNonce accepted tokens session.nonce)
  | .removeNonce accepted tokens nonce =>
    some ({ session with nonce := none }, .identify accepted tokens nonce)
  | .identify accepted tokens nonce => some (session, identified accepted tokens nonce outcome)
  | .rotate context idToken =>
    some (session, if config.concurrency then .bind context idToken else .storeContext context idToken)
  | .bind context idToken =>
    some (session, if outcome.admitted then .storeContext context idToken else .refuse)
  | .refuse =>
    some (noAttributes,
      .answered (.error 401 "max_sessions" "Maximum number of concurrent sessions reached"))
  | .storeContext context idToken =>
    some ({ session with securityContext := some context.authentication },
      .storeRegistration context.registrationId idToken)
  | .storeRegistration registrationId idToken =>
    some ({ session with registrationId := some (.text registrationId) },
      match idToken with
      | some _ => .storeIdToken idToken
      | none => .getRedirect)
  | .storeIdToken idToken => some ({ session with idToken := idToken.map .text }, .getRedirect)
  | .getRedirect => some (session, .removeRedirect session.redirectUri)
  | .removeRedirect location =>
    some ({ session with redirectUri := none },
      .answered (.redirect (location.getD (.text "/"))))
  | .getRegistration => some (session, .getIdToken session.registrationId)
  | .getIdToken registrationId => some (session, .invalidate registrationId session.idToken)
  | .invalidate registrationId idToken =>
    some (noAttributes, .answered (.loggedOut registrationId idToken))
  | .answered _ => none

def stored : Stage → List Context
  | .storeContext context _ => [context]
  | _ => []

structure Choice where
  request : Nat
  outcome : Outcome

def step (config : Config) (requests : Nat → Request) (s : State) (choice : Choice) : Option State :=
  let n := choice.request
  match s.stages n with
  | none =>
    let begun := enter config n s.session (requests n)
    some { s with session := begun.1, stages := Function.update s.stages n (some begun.2) }
  | some stage =>
    (advance config n s.session choice.outcome stage).map fun next =>
      { session := next.1
        stages := Function.update s.stages n (some next.2)
        logins := s.logins ++ stored stage }

structure LoginsBound (config : Config) (requests : Nat → Request) (s : State) : Prop where
  bound : ∀ login ∈ s.logins, ∃ i, requests i = .authorization login.registrationId ∧
    login.state = .state i ∧ (login.validated = true → login.nonce = some (.nonce i)) ∧
    ∀ registration, config.clients login.registrationId = some registration →
      registration.usePkce = true → login.verifier = some (.verifier i)
  once : (s.logins.map (·.state)).Nodup

def Stage.consuming : Stage → Bool
  | .removeState _ _ | .getVerifier _ _ | .removeVerifier _ _ | .exchange _ _ | .getNonce _ _
  | .removeNonce _ _ _ => true
  | _ => false

def Stage.awaiting : Stage → Bool
  | .removeNonce _ _ _ => false
  | stage => stage.consuming

def nobody (s : State) (which : Stage → Bool) : Prop :=
  ∀ m stage, s.stages m = some stage → which stage = false

def acceptable (s : State) (registrationId : String) (requests : Nat → Request) (state : Value) :
    Prop :=
  ∀ i, state = .state i → requests i = .authorization registrationId ∧
    (∃ answer, s.stages i = some (.answered answer)) ∧
    ∀ m accepted query, s.stages m = some (.removeState accepted query) → accepted.state ≠ state

/-- Nonce and verifier are written only for the state that is in the session, and not while a
callback consumes its own; nothing is invalidated under such a callback; and a state is accepted
only for its registration, once its authorization request is through, and by one callback. -/
def Undisturbed (requests : Nat → Request) (s : State) (choice : Choice) : Prop :=
  match s.stages choice.request with
  | none =>
    match requests choice.request with
    | .callback registrationId query =>
      ∀ state, s.session.state = some state → query.state = some state →
        acceptable s registrationId requests state
    | _ => True
  | some (.setNonce _ _) | some (.setVerifier _) =>
    (∀ state, s.session.state = some state → state = .state choice.request) ∧
      nobody s Stage.consuming
  | some .refuse | some (.invalidate _ _) => nobody s Stage.awaiting
  | some _ => True

end Firefly.Security.Login
