import Firefly.Security.Login
import Firefly.Shared.Tables

set_option autoImplicit false

namespace Firefly.Security.Login

open Runs Tables

variable {config : Config} {requests : Nat → Request} {s s' : State}

def Stage.carries : Stage → Option Value
  | .removeState accepted _ | .getVerifier accepted _ | .removeVerifier accepted _
  | .exchange accepted _ | .getNonce accepted _ | .removeNonce accepted _ _
  | .identify accepted _ _ => some accepted.state
  | .rotate context _ | .bind context _ | .storeContext context _ => some context.state
  | _ => none

structure AcceptedFor (config : Config) (requests : Nat → Request) (accepted : Accepted) (i : Nat) :
    Prop where
  state : accepted.state = .state i
  authorized : requests i = .authorization accepted.registrationId
  client : config.clients accepted.registrationId = some accepted.registration

def ContextBound (config : Config) (requests : Nat → Request) (context : Context) : Prop :=
  ∃ i, requests i = .authorization context.registrationId ∧ context.state = .state i ∧
    (context.validated = true → context.nonce = some (.nonce i)) ∧
    ∀ registration, config.clients context.registrationId = some registration →
      registration.usePkce = true → context.verifier = some (.verifier i)

def Proper (config : Config) (requests : Nat → Request) (session : Session) (n : Nat) : Stage → Prop
  | .setNonce registrationId registration =>
    requests n = .authorization registrationId ∧ config.clients registrationId = some registration
  | .setVerifier registrationId => requests n = .authorization registrationId
  | .removeState accepted _ | .getVerifier accepted _ =>
    ∃ i, AcceptedFor config requests accepted i ∧ session.nonce = some (.nonce i) ∧
      (accepted.registration.usePkce = true → session.pkceVerifier = some (.verifier i))
  | .removeVerifier accepted _ | .exchange accepted _ | .getNonce accepted _ =>
    ∃ i, AcceptedFor config requests accepted i ∧ session.nonce = some (.nonce i) ∧
      (accepted.registration.usePkce = true → accepted.verifier = some (.verifier i))
  | .removeNonce accepted _ nonce | .identify accepted _ nonce =>
    ∃ i, AcceptedFor config requests accepted i ∧ nonce = some (.nonce i) ∧
      (accepted.registration.usePkce = true → accepted.verifier = some (.verifier i))
  | .rotate context _ | .bind context _ | .storeContext context _ =>
    ContextBound config requests context
  | _ => True

inductive Written (session : Session) (i : Nat) (registrationId : String)
    (registration : ClientRegistration) : Option Stage → Prop
  | begun : Written session i registrationId registration
      (some (.setNonce registrationId registration))
  | nonced (nonce : session.nonce = some (.nonce i)) :
      Written session i registrationId registration (some (.setVerifier registrationId))
  | through (answer : Answer) (nonce : session.nonce = some (.nonce i))
      (verifier : registration.usePkce = true → session.pkceVerifier = some (.verifier i)) :
      Written session i registrationId registration (some (.answered answer))

inductive Quiet (session : Session) (stages : Nat → Option Stage) (stage : Stage) : Prop
  | gone (removed : session.state = none)
  | begun (i : Nat) (registrationId : String) (registration : ClientRegistration)
      (state : session.state = some (.state i))
      (setNonce : stages i = some (.setNonce registrationId registration))
  | own (accepted : Accepted) (query : Query) (removing : stage = .removeState accepted query)
      (state : session.state = some accepted.state)

structure Orderly (config : Config) (requests : Nat → Request) (s : State) : Prop where
  proper : ∀ n stage, s.stages n = some stage → Proper config requests s.session n stage
  current : ∀ state, s.session.state = some state → ∃ i registrationId registration,
    state = .state i ∧ requests i = .authorization registrationId ∧
      config.clients registrationId = some registration ∧
      Written s.session i registrationId registration (s.stages i)
  quiet : ∀ n stage, s.stages n = some stage → stage.consuming = true →
    Quiet s.session s.stages stage
  alone : ∀ n m stage other, s.stages n = some stage → s.stages m = some other →
    stage.consuming = true → other.consuming = true → n = m
  carried : ∀ n stage state, s.stages n = some stage → stage.carries = some state →
    (∃ i, state = .state i ∧ s.stages i ≠ none) ∧ state ∉ s.logins.map (·.state) ∧
      (s.session.state = some state → ∃ accepted query, stage = .removeState accepted query)
  apart : ∀ n m stage other state, s.stages n = some stage → s.stages m = some other →
    stage.carries = some state → other.carries = some state → n = m
  logged : ∀ login ∈ s.logins, ContextBound config requests login ∧
    (∃ i, login.state = .state i ∧ s.stages i ≠ none) ∧ s.session.state ≠ some login.state
  once : (s.logins.map (·.state)).Nodup

section Move

variable {n : Nat} {session' : Session} {stage' : Stage}

-- What the stages other than `n` say is kept, when the session's state is kept or removed.
theorem Orderly.move (orderly : Orderly config requests s)
    (state : session'.state = none ∨ session'.state = s.session.state)
    (inherits : ∀ state, stage'.carries = some state → ∃ stage, s.stages n = some stage ∧
      stage.carries = some state ∧
      (session'.state = none ∨ ∀ accepted query, stage ≠ .removeState accepted query))
    (consumes : stage'.consuming = true → ∃ stage, s.stages n = some stage ∧
      stage.consuming = true ∧
      (session'.state = none ∨ ∀ accepted query, stage ≠ .removeState accepted query))
    (authors : ∀ registrationId registration,
      s.stages n = some (.setNonce registrationId registration) → nobody s Stage.consuming)
    (proper : Proper config requests session' n stage')
    (others : ∀ m stage, m ≠ n → s.stages m = some stage →
      Proper config requests s.session m stage → Proper config requests session' m stage)
    (current : ∀ i registrationId registration, session'.state = some (.state i) →
      requests i = .authorization registrationId →
      config.clients registrationId = some registration →
      Written s.session i registrationId registration (s.stages i) →
      Written session' i registrationId registration
        (Function.update s.stages n (some stage') i)) :
    Orderly config requests
      { s with session := session', stages := Function.update s.stages n (some stage') } := by
  have now : ∀ value, session'.state = some value → s.session.state = some value := by
    intro value held
    rcases state with gone | kept
    · cases gone.symm.trans held
    · exact kept.symm.trans held
  -- a stage that is kept is as quiet as before
  have still : ∀ stage, stage.consuming = true → (∃ m, s.stages m = some stage) →
      Quiet s.session s.stages stage →
      Quiet session' (Function.update s.stages n (some stage')) stage := by
    rintro stage consuming ⟨m, there⟩ quiet
    rcases state with gone | kept
    · exact .gone gone
    · cases quiet with
      | gone removed => exact .gone (kept.trans removed)
      | begun i registrationId registration held setNonce =>
        refine .begun i registrationId registration (kept.trans held) ?_
        show Function.update s.stages n (some stage') i = _
        rw [Function.update_of_ne, setNonce]
        rintro rfl
        have free := authors _ _ setNonce m stage there
        rw [consuming] at free
        cases free
      | own accepted query removing held => exact .own accepted query removing (kept.trans held)
  refine ⟨?_, ?_, ?_, ?_, ?_, ?_, ?_, orderly.once⟩
  · intro m stage there
    rcases update_eq_some.mp there with ⟨rfl, rfl⟩ | ⟨apart, there⟩
    · exact proper
    · exact others m stage apart there (orderly.proper m stage there)
  · intro value held
    obtain ⟨i, registrationId, registration, rfl, authorized, client, written⟩ :=
      orderly.current value (now value held)
    exact ⟨i, registrationId, registration, rfl, authorized, client,
      current i registrationId registration held authorized client written⟩
  · intro m stage there consuming
    rcases update_eq_some.mp there with ⟨rfl, rfl⟩ | ⟨apart, there⟩
    · obtain ⟨before, here, consumed, left⟩ := consumes consuming
      rcases left with gone | different
      · exact .gone gone
      · cases still before consumed ⟨m, here⟩ (orderly.quiet m before here consumed) with
        | gone removed => exact .gone removed
        | begun i registrationId registration held setNonce =>
          exact .begun i registrationId registration held setNonce
        | own accepted query removing _ => exact absurd removing (different accepted query)
    · exact still stage consuming ⟨m, there⟩ (orderly.quiet m stage there consuming)
  · have only : ∀ m other, m ≠ n → s.stages m = some other → stage'.consuming = true →
        other.consuming = true → False := by
      intro m other apart there here consuming
      obtain ⟨stage, before, consumed, _⟩ := consumes here
      exact apart (orderly.alone m n other stage there before consuming consumed)
    intro k m stage other atK atM consuming consuming'
    rcases update_eq_some.mp atK with ⟨rfl, rfl⟩ | ⟨apart, keptK⟩
    · rcases update_eq_some.mp atM with ⟨rfl, -⟩ | ⟨apart', atM⟩
      · rfl
      · exact (only m other apart' atM consuming consuming').elim
    · rcases update_eq_some.mp atM with ⟨rfl, rfl⟩ | ⟨apart', atM⟩
      · exact (only k stage apart keptK consuming' consuming).elim
      · exact orderly.alone k m stage other keptK atM consuming consuming'
  · intro m stage value there carries
    rcases update_eq_some.mp there with ⟨rfl, rfl⟩ | ⟨apart, there⟩
    · obtain ⟨before, here, carried, left⟩ := inherits value carries
      obtain ⟨⟨i, same, present⟩, unlogged, removing⟩ := orderly.carried m before value here carried
      refine ⟨⟨i, same, update_ne_none present⟩, unlogged, fun held => ?_⟩
      rcases left with gone | different
      · cases gone.symm.trans held
      · obtain ⟨accepted, query, rfl⟩ := removing (now value held)
        exact absurd rfl (different accepted query)
    · obtain ⟨⟨i, same, present⟩, unlogged, removing⟩ := orderly.carried m stage value there carries
      exact ⟨⟨i, same, update_ne_none present⟩, unlogged, fun held => removing (now value held)⟩
  · have only : ∀ m other value, m ≠ n → s.stages m = some other → stage'.carries = some value →
        other.carries = some value → False := by
      intro m other value apart there here carries
      obtain ⟨stage, before, carried, _⟩ := inherits value here
      exact apart (orderly.apart m n other stage value there before carries carried)
    intro k m stage other value atK atM carries carries'
    rcases update_eq_some.mp atK with ⟨rfl, rfl⟩ | ⟨apart, keptK⟩
    · rcases update_eq_some.mp atM with ⟨rfl, -⟩ | ⟨apart', atM⟩
      · rfl
      · exact (only m other value apart' atM carries carries').elim
    · rcases update_eq_some.mp atM with ⟨rfl, rfl⟩ | ⟨apart', atM⟩
      · exact (only k stage value apart keptK carries' carries).elim
      · exact orderly.apart k m stage other value keptK atM carries carries'
  · intro login among
    obtain ⟨bound, ⟨i, same, present⟩, differs⟩ := orderly.logged login among
    exact ⟨bound, ⟨i, same, update_ne_none present⟩, fun held => differs (now _ held)⟩

-- Only the stages of a callback that has yet to read its nonce speak of the session.
theorem Proper.of_other {session : Session} {m : Nat} {stage : Stage}
    (proper : Proper config requests session m stage) (free : stage.awaiting = false) :
    Proper config requests session' m stage := by
  cases stage <;> first | exact proper | cases free

theorem Proper.of_kept {session : Session} {m : Nat} {stage : Stage}
    (proper : Proper config requests session m stage) (nonce : session'.nonce = session.nonce)
    (verifier : session'.pkceVerifier = session.pkceVerifier) :
    Proper config requests session' m stage := by
  cases stage <;> simp only [Proper, nonce, verifier] at * <;> exact proper

theorem Stage.awaiting_of_not_consuming {stage : Stage} (free : stage.consuming = false) :
    stage.awaiting = false := by
  cases stage <;> first | rfl | cases free

theorem Written.of_kept {session : Session} {i : Nat} {registrationId : String}
    {registration : ClientRegistration} {found : Option Stage}
    (written : Written session i registrationId registration found)
    (nonce : session'.nonce = session.nonce)
    (verifier : session'.pkceVerifier = session.pkceVerifier) :
    Written session' i registrationId registration found := by
  cases written with
  | begun => exact .begun
  | nonced held => exact .nonced (nonce.trans held)
  | through answer held verified =>
    exact .through answer (nonce.trans held) fun pkce => verifier.trans (verified pkce)

def Stage.authors : Stage → Bool
  | .setNonce _ _ | .setVerifier _ | .answered _ => true
  | _ => false

theorem Written.authors {session : Session} {i : Nat} {registrationId : String}
    {registration : ClientRegistration} {stage : Stage}
    (written : Written session i registrationId registration (some stage)) :
    stage.authors = true := by
  cases written <;> rfl

variable {stage : Stage}

theorem Orderly.silent (orderly : Orderly config requests s) (here : s.stages n = some stage)
    (other : stage.authors = false) (idle : stage'.consuming = false)
    (inherits : stage'.carries = none ∨ stage'.carries = stage.carries ∧ stage.consuming = false)
    (state : session'.state = s.session.state) (nonce : session'.nonce = s.session.nonce)
    (verifier : session'.pkceVerifier = s.session.pkceVerifier)
    (proper : Proper config requests session' n stage') :
    Orderly config requests
      { s with session := session', stages := Function.update s.stages n (some stage') } := by
  refine orderly.move (.inr state) ?_ (fun consuming => by simp [idle] at consuming) ?_ proper ?_ ?_
  · intro value carries
    rcases inherits with nothing | ⟨same, free⟩
    · cases nothing.symm.trans carries
    · refine ⟨stage, here, same.symm.trans carries, .inr ?_⟩
      rintro accepted query rfl
      cases free
  · intro registrationId registration setNonce
    obtain rfl := Option.some.inj (here.symm.trans setNonce)
    cases other
  · exact fun m stage _ _ known => known.of_kept nonce verifier
  · intro i registrationId registration _ _ _ written
    rw [Function.update_of_ne]
    · exact written.of_kept nonce verifier
    · rintro rfl
      rw [here] at written
      have authored := written.authors
      rw [other] at authored
      cases authored

theorem Orderly.consume (orderly : Orderly config requests s) (here : s.stages n = some stage)
    (consuming : stage.consuming = true)
    (removed : ∀ accepted query, stage ≠ .removeState accepted query)
    (inherits : stage'.carries = none ∨ stage'.carries = stage.carries)
    (state : session'.state = s.session.state)
    (proper : Proper config requests session' n stage') :
    Orderly config requests
      { s with session := session', stages := Function.update s.stages n (some stage') } := by
  refine orderly.move (.inr state) ?_ (fun _ => ⟨stage, here, consuming, .inr removed⟩) ?_ proper ?_ ?_
  · intro value carries
    rcases inherits with nothing | same
    · cases nothing.symm.trans carries
    · exact ⟨stage, here, same.symm.trans carries, .inr removed⟩
  · intro registrationId registration setNonce
    obtain rfl := Option.some.inj (here.symm.trans setNonce)
    cases consuming
  · intro m other apart there known
    have free : other.consuming = false := by
      by_contra busy
      exact apart (orderly.alone m n other stage there here (by simpa using busy) consuming)
    exact known.of_other (Stage.awaiting_of_not_consuming free)
  · intro i registrationId registration held _ _ written
    have before := state.symm.trans held
    cases orderly.quiet n stage here consuming with
    | gone nothing => cases nothing.symm.trans before
    | begun j otherId other current setNonce =>
      obtain rfl : j = i := Value.state.inj (Option.some.inj (current.symm.trans before))
      have apart : j ≠ n := by
        rintro rfl
        obtain rfl := Option.some.inj (here.symm.trans setNonce)
        cases consuming
      rw [Function.update_of_ne apart, setNonce]
      rw [setNonce] at written
      cases written
      exact .begun
    | own accepted query removing _ => exact absurd removing (removed accepted query)

theorem Orderly.author (orderly : Orderly config requests s) (here : s.stages n = some stage)
    (idle : stage'.consuming = false) (inherits : stage'.carries = none)
    (own : ∀ state, s.session.state = some state → state = .state n)
    (nobody : nobody s Stage.consuming) (state : session'.state = s.session.state)
    (proper : Proper config requests session' n stage')
    (written : ∀ registrationId registration, requests n = .authorization registrationId →
      config.clients registrationId = some registration →
      Written s.session n registrationId registration (some stage) →
      Written session' n registrationId registration (some stage')) :
    Orderly config requests
      { s with session := session', stages := Function.update s.stages n (some stage') } := by
  refine orderly.move (.inr state) (fun value carries => ?_) (fun consuming => by simp [idle] at consuming)
    (fun _ _ _ => nobody) proper ?_ ?_
  · cases inherits.symm.trans carries
  · exact fun m other _ there known =>
      known.of_other (Stage.awaiting_of_not_consuming (nobody m other there))
  · intro i registrationId registration held authorized client before
    obtain rfl : i = n := Value.state.inj (own _ (state.symm.trans held))
    rw [Function.update_self]
    rw [here] at before
    exact written registrationId registration authorized client before

theorem Orderly.clear (orderly : Orderly config requests s) (here : s.stages n = some stage)
    (other : stage.authors = false) (idle : stage'.consuming = false) (inherits : stage'.carries = none)
    (nobody : nobody s Stage.awaiting) (proper : Proper config requests noAttributes n stage') :
    Orderly config requests
      { s with session := noAttributes, stages := Function.update s.stages n (some stage') } := by
  refine orderly.move (.inl rfl) (fun value carries => ?_) (fun consuming => by simp [idle] at consuming)
    (fun registrationId registration setNonce => ?_) proper
    (fun m other _ there known => known.of_other (nobody m other there)) (fun _ _ _ held => by cases held)
  · cases inherits.symm.trans carries
  · obtain rfl := Option.some.inj (here.symm.trans setNonce)
    cases other

theorem Orderly.removeState (orderly : Orderly config requests s) {accepted : Accepted} {query : Query}
    (here : s.stages n = some (.removeState accepted query)) :
    Orderly config requests { s with
      session := { s.session with state := none }
      stages := Function.update s.stages n (some (consumed accepted query)) } := by
  have carries : (consumed accepted query).carries = none ∨
      (consumed accepted query).carries = some accepted.state := by
    unfold consumed
    repeat' split
    all_goals simp [Stage.carries]
  refine orderly.move (.inl rfl) (fun value carried => ?_)
    (fun _ => ⟨_, here, rfl, .inl rfl⟩) (fun registrationId registration setNonce => ?_) ?_
    (fun m other apart there known => known.of_kept rfl rfl) (fun _ _ _ held => by cases held)
  · rcases carries with nothing | same
    · cases nothing.symm.trans carried
    · exact ⟨_, here, same.symm.trans carried, .inl rfl⟩
  · cases here.symm.trans setNonce
  · obtain ⟨i, for_i, nonce, verifier⟩ := orderly.proper n _ here
    unfold consumed
    split
    · trivial
    · split
      · trivial
      · split
        next => exact ⟨i, for_i, nonce, verifier⟩
        next plain => exact ⟨i, for_i, nonce, fun pkce => absurd pkce plain⟩

theorem Orderly.storeContext (orderly : Orderly config requests s) {context : Context}
    {idToken : Option String} (here : s.stages n = some (.storeContext context idToken))
    (kept : session'.state = s.session.state ∧ session'.nonce = s.session.nonce ∧
      session'.pkceVerifier = s.session.pkceVerifier) :
    Orderly config requests
      { session := session'
        stages := Function.update s.stages n
          (some (.storeRegistration context.registrationId idToken))
        logins := s.logins ++ [context] } := by
  have moved : Orderly config requests
      { s with
        session := session'
        stages := Function.update s.stages n
          (some (.storeRegistration context.registrationId idToken)) } :=
    orderly.silent here rfl rfl (.inl rfl) kept.1 kept.2.1 kept.2.2 trivial
  obtain ⟨present, unlogged, removing⟩ := orderly.carried n _ context.state here rfl
  refine { moved with carried := ?_, logged := ?_, once := ?_ }
  · intro m stage value there carries
    obtain ⟨known, fresh, removes⟩ := moved.carried m stage value there carries
    refine ⟨known, ?_, removes⟩
    rw [List.map_append, List.mem_append, not_or]
    refine ⟨fresh, ?_⟩
    rw [List.map_singleton, List.mem_singleton]
    rintro rfl
    rcases update_eq_some.mp there with ⟨rfl, rfl⟩ | ⟨apart, before⟩
    · cases carries
    · exact apart (orderly.apart m n stage _ _ before here carries rfl)
  · intro login among
    rcases List.mem_append.mp among with earlier | last
    · exact moved.logged login earlier
    · obtain rfl := List.mem_singleton.mp last
      obtain ⟨i, same, begun⟩ := present
      refine ⟨orderly.proper n _ here, ⟨i, same, update_ne_none begun⟩, fun held => ?_⟩
      obtain ⟨accepted, query, impossible⟩ := removing (kept.1.symm.trans held)
      cases impossible
  · rw [List.map_append, List.nodup_append]
    refine ⟨orderly.once, by simp, ?_⟩
    intro state logged other last
    rw [List.map_singleton, List.mem_singleton] at last
    subst last
    rintro rfl
    exact unlogged logged

theorem Orderly.beginIdle (orderly : Orderly config requests s) (absent : s.stages n = none)
    (idle : stage'.consuming = false) (inherits : stage'.carries = none)
    (proper : Proper config requests s.session n stage') :
    Orderly config requests { s with stages := Function.update s.stages n (some stage') } := by
  refine orderly.move (.inr rfl) (fun value carries => ?_)
    (fun consuming => by simp [idle] at consuming) (fun registrationId registration setNonce => ?_)
    proper (fun _ _ _ _ => id) (fun i registrationId registration _ _ _ written => ?_)
  · cases inherits.symm.trans carries
  · cases absent.symm.trans setNonce
  · rw [Function.update_of_ne]
    · exact written
    · rintro rfl
      rw [absent] at written
      cases written

theorem Orderly.authorize (orderly : Orderly config requests s) (absent : s.stages n = none)
    {registrationId : String} {registration : ClientRegistration}
    (authorized : requests n = .authorization registrationId)
    (client : config.clients registrationId = some registration) :
    Orderly config requests { s with
      session := { s.session with state := some (.state n) }
      stages := Function.update s.stages n (some (.setNonce registrationId registration)) } := by
  have foreign : ∀ value : Value, (∃ i, value = .state i ∧ s.stages i ≠ none) →
      some (Value.state n) ≠ some value := by
    rintro value ⟨i, rfl, present⟩ same
    obtain rfl : n = i := Value.state.inj (Option.some.inj same)
    exact present absent
  refine ⟨?_, ?_, ?_, ?_, ?_, ?_, ?_, orderly.once⟩
  · intro m stage there
    rcases update_eq_some.mp there with ⟨rfl, rfl⟩ | ⟨apart, there⟩
    · exact ⟨authorized, client⟩
    · exact (orderly.proper m stage there).of_kept rfl rfl
  · intro value held
    obtain rfl := Option.some.inj held
    refine ⟨n, registrationId, registration, rfl, authorized, client, ?_⟩
    show Written _ _ _ _ (Function.update s.stages n _ n)
    rw [Function.update_self]
    exact .begun
  · intro m stage there consuming
    exact .begun n registrationId registration rfl (Function.update_self ..)
  · intro k m stage other atK atM consuming consuming'
    rcases update_eq_some.mp atK with ⟨rfl, rfl⟩ | ⟨apart, keptK⟩
    · cases consuming
    · rcases update_eq_some.mp atM with ⟨rfl, rfl⟩ | ⟨apart', keptM⟩
      · cases consuming'
      · exact orderly.alone k m stage other keptK keptM consuming consuming'
  · intro m stage value there carries
    rcases update_eq_some.mp there with ⟨rfl, rfl⟩ | ⟨apart, there⟩
    · cases carries
    · obtain ⟨⟨i, same, present⟩, unlogged, _⟩ := orderly.carried m stage value there carries
      exact ⟨⟨i, same, update_ne_none present⟩, unlogged,
        fun held => absurd held (foreign value ⟨i, same, present⟩)⟩
  · intro k m stage other value atK atM carries carries'
    rcases update_eq_some.mp atK with ⟨rfl, rfl⟩ | ⟨apart, keptK⟩
    · cases carries
    · rcases update_eq_some.mp atM with ⟨rfl, rfl⟩ | ⟨apart', keptM⟩
      · cases carries'
      · exact orderly.apart k m stage other value keptK keptM carries carries'
  · intro login among
    obtain ⟨bound, ⟨i, same, present⟩, _⟩ := orderly.logged login among
    exact ⟨bound, ⟨i, same, update_ne_none present⟩, foreign _ ⟨i, same, present⟩⟩

theorem Orderly.accept (orderly : Orderly config requests s) (absent : s.stages n = none)
    {registrationId : String} {registration : ClientRegistration} {query : Query} {state : Value}
    (client : config.clients registrationId = some registration)
    (current : s.session.state = some state)
    (acceptable : acceptable s registrationId requests state) :
    Orderly config requests { s with
      stages := Function.update s.stages n (some (.removeState
        { registrationId, registration, state, verifier := none } query)) } := by
  obtain ⟨i, otherId, other, rfl, authorized, known, written⟩ := orderly.current state current
  obtain ⟨same, ⟨answer, through⟩, unaccepted⟩ := acceptable i rfl
  obtain rfl : otherId = registrationId := Request.authorization.inj (authorized.symm.trans same)
  obtain rfl : other = registration := Option.some.inj (known.symm.trans client)
  have differs : i ≠ n := by
    rintro rfl
    cases absent.symm.trans through
  -- the values of the authorization request are all there
  rw [through] at written
  obtain ⟨nonce, verifier⟩ : s.session.nonce = some (.nonce i) ∧
      (other.usePkce = true → s.session.pkceVerifier = some (.verifier i)) := by
    cases written with
    | through answer nonce verifier => exact ⟨nonce, verifier⟩
  -- and nobody is consuming them
  have free : ∀ m stage, s.stages m = some stage → stage.consuming = true → False := by
    intro m stage there consuming
    cases orderly.quiet m stage there consuming with
    | gone removed => cases removed.symm.trans current
    | begun j jId jRegistration held setNonce =>
      obtain rfl : j = i := Value.state.inj (Option.some.inj (held.symm.trans current))
      cases through.symm.trans setNonce
    | own accepted query removing held =>
      subst removing
      exact unaccepted m accepted query there (Option.some.inj (held.symm.trans current))
  have uncarried : ∀ m stage, s.stages m = some stage → stage.carries ≠ some (.state i) := by
    intro m stage there carries
    obtain ⟨_, _, removing⟩ := orderly.carried m stage _ there carries
    obtain ⟨accepted, query, rfl⟩ := removing current
    exact free m _ there rfl
  refine ⟨?_, ?_, ?_, ?_, ?_, ?_, ?_, orderly.once⟩
  · intro m stage there
    rcases update_eq_some.mp there with ⟨rfl, rfl⟩ | ⟨apart, there⟩
    · exact ⟨i, ⟨rfl, authorized, client⟩, nonce, verifier⟩
    · exact orderly.proper m stage there
  · intro value held
    obtain rfl := Option.some.inj (current.symm.trans held)
    refine ⟨i, otherId, other, rfl, authorized, client, ?_⟩
    show Written _ _ _ _ (Function.update s.stages n _ i)
    rw [Function.update_of_ne differs, through]
    exact .through answer nonce verifier
  · intro m stage there consuming
    rcases update_eq_some.mp there with ⟨rfl, rfl⟩ | ⟨apart, there⟩
    · exact .own _ _ rfl current
    · exact (free m stage there consuming).elim
  · intro k m stage other atK atM consuming consuming'
    rcases update_eq_some.mp atK with ⟨rfl, rfl⟩ | ⟨apart, keptK⟩
    · rcases update_eq_some.mp atM with ⟨rfl, -⟩ | ⟨apart', keptM⟩
      · rfl
      · exact (free m other keptM consuming').elim
    · exact (free k stage keptK consuming).elim
  · intro m stage value there carries
    rcases update_eq_some.mp there with ⟨rfl, rfl⟩ | ⟨apart, there⟩
    · obtain rfl : Value.state i = value := Option.some.inj carries
      refine ⟨⟨i, rfl, update_ne_none (by simp [through])⟩, fun among => ?_, fun _ => ⟨_, _, rfl⟩⟩
      obtain ⟨login, logged, same⟩ := List.mem_map.mp among
      exact (orderly.logged login logged).2.2 (current.trans (congrArg some same.symm))
    · obtain ⟨⟨j, same, present⟩, unlogged, removing⟩ := orderly.carried m stage value there carries
      exact ⟨⟨j, same, update_ne_none present⟩, unlogged, removing⟩
  · intro k m stage other value atK atM carries carries'
    rcases update_eq_some.mp atK with ⟨rfl, rfl⟩ | ⟨apart, keptK⟩
    · obtain rfl : Value.state i = value := Option.some.inj carries
      rcases update_eq_some.mp atM with ⟨rfl, -⟩ | ⟨apart', keptM⟩
      · rfl
      · exact absurd carries' (uncarried m other keptM)
    · rcases update_eq_some.mp atM with ⟨rfl, rfl⟩ | ⟨apart', keptM⟩
      · obtain rfl : Value.state i = value := Option.some.inj carries'
        exact absurd carries (uncarried k stage keptK)
      · exact orderly.apart k m stage other value keptK keptM carries carries'
  · intro login among
    obtain ⟨bound, ⟨j, same, present⟩, fresh⟩ := orderly.logged login among
    exact ⟨bound, ⟨j, same, update_ne_none present⟩, fresh⟩

theorem Orderly.entered (orderly : Orderly config requests s) (absent : s.stages n = none)
    (allowed : ∀ registrationId query, requests n = .callback registrationId query →
      ∀ state, s.session.state = some state → query.state = some state →
        acceptable s registrationId requests state) :
    Orderly config requests { s with
      session := (enter config n s.session (requests n)).1
      stages := Function.update s.stages n (some (enter config n s.session (requests n)).2) } := by
  cases asked : requests n with
  | authorization registrationId =>
    cases client : config.clients registrationId with
    | none =>
      simp only [enter, client]
      exact orderly.beginIdle absent rfl rfl trivial
    | some registration =>
      simp only [enter, client]
      exact orderly.authorize absent asked client
  | callback registrationId query =>
    cases client : config.clients registrationId with
    | none =>
      simp only [enter, client]
      exact orderly.beginIdle absent rfl rfl trivial
    | some registration =>
      cases current : s.session.state with
      | none =>
        simp only [enter, client, current]
        exact orderly.beginIdle absent rfl rfl trivial
      | some expected =>
        cases sent : query.state with
        | none =>
          simp only [enter, client, current, sent]
          exact orderly.beginIdle absent rfl rfl trivial
        | some received =>
          by_cases same : expected = received
          · subst same
            simp only [enter, client, current, sent, if_true]
            exact orderly.accept absent client current (allowed _ _ asked _ current sent)
          · simp only [enter, client, current, sent, if_neg same]
            exact orderly.beginIdle absent rfl rfl trivial
  | logout => exact orderly.beginIdle absent rfl rfl trivial

theorem exchanged_proper {accepted : Accepted} {tokens : TokenResponse} {session : Session} {i : Nat}
    (known : AcceptedFor config requests accepted i ∧ session.nonce = some (.nonce i) ∧
      (accepted.registration.usePkce = true → accepted.verifier = some (.verifier i))) :
    Proper config requests session n (exchanged accepted tokens) := by
  unfold exchanged
  split
  · trivial
  · exact ⟨i, known⟩

theorem exchanged_carries (accepted : Accepted) (tokens : TokenResponse) :
    (exchanged accepted tokens).carries = none ∨
      (exchanged accepted tokens).carries = some accepted.state := by
  unfold exchanged
  split
  · exact .inl rfl
  · exact .inr rfl

theorem authenticated_proper {accepted : Accepted} {tokens : TokenResponse} {nonce : Option Value}
    {session : Session} {i : Nat} (validated : Bool) (authentication : Authentication)
    (known : AcceptedFor config requests accepted i ∧ nonce = some (.nonce i) ∧
      (accepted.registration.usePkce = true → accepted.verifier = some (.verifier i))) :
    Proper config requests session n
      (authenticated accepted tokens nonce validated authentication) := by
  obtain ⟨for_i, expected, verifier⟩ := known
  unfold authenticated
  split
  · trivial
  · refine ⟨i, for_i.authorized, for_i.state, fun _ => expected, fun registration client pkce => ?_⟩
    obtain rfl := Option.some.inj (for_i.client.symm.trans client)
    exact verifier pkce

theorem identified_cases (accepted : Accepted) (tokens : TokenResponse) (nonce : Option Value)
    (outcome : Outcome) : (∃ answer, identified accepted tokens nonce outcome = .answered answer) ∨
      ∃ validated authentication, identified accepted tokens nonce outcome =
        authenticated accepted tokens nonce validated authentication := by
  unfold identified
  split
  · split
    · exact .inl ⟨_, rfl⟩
    · split
      · exact .inl ⟨_, rfl⟩
      · exact .inr ⟨_, _, rfl⟩
  · exact .inr ⟨_, _, rfl⟩

theorem authenticated_idle (accepted : Accepted) (tokens : TokenResponse) (nonce : Option Value)
    (validated : Bool) (authentication : Authentication) :
    (authenticated accepted tokens nonce validated authentication).consuming = false ∧
      ((authenticated accepted tokens nonce validated authentication).carries = none ∨
        (authenticated accepted tokens nonce validated authentication).carries =
          some accepted.state) := by
  unfold authenticated
  split
  · exact ⟨rfl, .inl rfl⟩
  · exact ⟨rfl, .inr rfl⟩

theorem Orderly.advance (orderly : Orderly config requests s) (here : s.stages n = some stage)
    {choice : Choice} (about : choice.request = n) (undisturbed : Undisturbed requests s choice)
    (moved : Login.advance config n s.session choice.outcome stage = some (session', stage')) :
    Orderly config requests
      { session := session', stages := Function.update s.stages n (some stage')
        logins := s.logins ++ stored stage } := by
  have proper := orderly.proper n stage here
  simp only [Undisturbed, about, here] at undisturbed
  cases stage with
  | setNonce registrationId registration =>
    obtain ⟨rfl, rfl⟩ := Prod.mk.inj (Option.some.inj moved)
    simp only [stored, List.append_nil]
    obtain ⟨authorized, client⟩ := proper
    by_cases pkce : registration.usePkce = true
    · simp only [if_pos pkce]
      exact orderly.author here rfl rfl undisturbed.1 undisturbed.2 rfl authorized
        fun otherId other authorized' _ _ => by
          obtain rfl := Request.authorization.inj (authorized.symm.trans authorized')
          exact .nonced rfl
    · simp only [if_neg pkce]
      refine orderly.author here rfl rfl undisturbed.1 undisturbed.2 rfl trivial
        fun otherId other authorized' client' _ => ?_
      obtain rfl := Request.authorization.inj (authorized.symm.trans authorized')
      obtain rfl := Option.some.inj (client.symm.trans client')
      exact .through _ rfl fun needed => absurd needed pkce
  | setVerifier registrationId =>
    obtain ⟨rfl, rfl⟩ := Prod.mk.inj (Option.some.inj moved)
    simp only [stored, List.append_nil]
    refine orderly.author here rfl rfl undisturbed.1 undisturbed.2 rfl trivial
      fun otherId other _ _ written => ?_
    cases written with
    | nonced nonce => exact .through _ nonce fun _ => rfl
  | removeState accepted query =>
    obtain ⟨rfl, rfl⟩ := Prod.mk.inj (Option.some.inj moved)
    simp only [stored, List.append_nil]
    exact orderly.removeState here
  | getVerifier accepted code =>
    obtain ⟨rfl, rfl⟩ := Prod.mk.inj (Option.some.inj moved)
    simp only [stored, List.append_nil]
    obtain ⟨i, for_i, nonce, verifier⟩ := proper
    exact orderly.consume here rfl (by simp) (.inr rfl) rfl
      ⟨i, ⟨for_i.state, for_i.authorized, for_i.client⟩, nonce, verifier⟩
  | removeVerifier accepted code =>
    obtain ⟨rfl, rfl⟩ := Prod.mk.inj (Option.some.inj moved)
    simp only [stored, List.append_nil]
    exact orderly.consume here rfl (by simp) (.inr rfl) rfl proper
  | exchange accepted code =>
    obtain ⟨rfl, rfl⟩ := Prod.mk.inj (Option.some.inj moved)
    simp only [stored, List.append_nil]
    obtain ⟨i, known⟩ := proper
    exact orderly.consume here rfl (by simp) (exchanged_carries _ _) rfl
      (exchanged_proper known)
  | getNonce accepted tokens =>
    obtain ⟨rfl, rfl⟩ := Prod.mk.inj (Option.some.inj moved)
    simp only [stored, List.append_nil]
    exact orderly.consume here rfl (by simp) (.inr rfl) rfl proper
  | removeNonce accepted tokens nonce =>
    obtain ⟨rfl, rfl⟩ := Prod.mk.inj (Option.some.inj moved)
    simp only [stored, List.append_nil]
    exact orderly.consume here rfl (by simp) (.inr rfl) rfl proper
  | identify accepted tokens nonce =>
    obtain ⟨rfl, rfl⟩ := Prod.mk.inj (Option.some.inj moved)
    simp only [stored, List.append_nil]
    obtain ⟨i, known⟩ := proper
    rcases identified_cases accepted tokens nonce choice.outcome with
      ⟨answer, same⟩ | ⟨validated, authentication, same⟩
    · rw [same]
      exact orderly.silent here rfl rfl (.inl rfl) rfl rfl rfl trivial
    · rw [same]
      obtain ⟨idle, carries⟩ := authenticated_idle accepted tokens nonce validated authentication
      exact orderly.silent here rfl idle
        (carries.imp id fun carried => ⟨carried, rfl⟩) rfl rfl rfl
        (authenticated_proper validated authentication known)
  | rotate context idToken =>
    obtain ⟨rfl, rfl⟩ := Prod.mk.inj (Option.some.inj moved)
    simp only [stored, List.append_nil]
    split
    all_goals
      exact orderly.silent here rfl rfl (.inr ⟨rfl, rfl⟩) rfl rfl rfl proper
  | bind context idToken =>
    obtain ⟨rfl, rfl⟩ := Prod.mk.inj (Option.some.inj moved)
    simp only [stored, List.append_nil]
    split
    · exact orderly.silent here rfl rfl (.inr ⟨rfl, rfl⟩) rfl rfl rfl proper
    · exact orderly.silent here rfl rfl (.inl rfl) rfl rfl rfl trivial
  | refuse =>
    obtain ⟨rfl, rfl⟩ := Prod.mk.inj (Option.some.inj moved)
    simp only [stored, List.append_nil]
    exact orderly.clear here rfl rfl rfl undisturbed trivial
  | storeContext context idToken =>
    obtain ⟨rfl, rfl⟩ := Prod.mk.inj (Option.some.inj moved)
    exact orderly.storeContext here ⟨rfl, rfl, rfl⟩
  | storeRegistration registrationId idToken =>
    obtain ⟨rfl, rfl⟩ := Prod.mk.inj (Option.some.inj moved)
    simp only [stored, List.append_nil]
    cases idToken <;> exact orderly.silent here rfl rfl (.inl rfl) rfl rfl rfl trivial
  | storeIdToken idToken =>
    obtain ⟨rfl, rfl⟩ := Prod.mk.inj (Option.some.inj moved)
    simp only [stored, List.append_nil]
    exact orderly.silent here rfl rfl (.inl rfl) rfl rfl rfl trivial
  | getRedirect =>
    obtain ⟨rfl, rfl⟩ := Prod.mk.inj (Option.some.inj moved)
    simp only [stored, List.append_nil]
    exact orderly.silent here rfl rfl (.inl rfl) rfl rfl rfl trivial
  | removeRedirect location =>
    obtain ⟨rfl, rfl⟩ := Prod.mk.inj (Option.some.inj moved)
    simp only [stored, List.append_nil]
    exact orderly.silent here rfl rfl (.inl rfl) rfl rfl rfl trivial
  | getRegistration =>
    obtain ⟨rfl, rfl⟩ := Prod.mk.inj (Option.some.inj moved)
    simp only [stored, List.append_nil]
    exact orderly.silent here rfl rfl (.inl rfl) rfl rfl rfl trivial
  | getIdToken registrationId =>
    obtain ⟨rfl, rfl⟩ := Prod.mk.inj (Option.some.inj moved)
    simp only [stored, List.append_nil]
    exact orderly.silent here rfl rfl (.inl rfl) rfl rfl rfl trivial
  | invalidate registrationId idToken =>
    obtain ⟨rfl, rfl⟩ := Prod.mk.inj (Option.some.inj moved)
    simp only [stored, List.append_nil]
    exact orderly.clear here rfl rfl rfl undisturbed trivial
  | answered answer => cases moved

end Move

theorem Orderly.step (orderly : Orderly config requests s) {choice : Choice}
    (undisturbed : Undisturbed requests s choice)
    (stepped : Login.step config requests s choice = some s') : Orderly config requests s' := by
  unfold Login.step at stepped
  simp only at stepped
  split at stepped
  next absent =>
    obtain rfl := Option.some.inj stepped
    refine orderly.entered absent fun registrationId query asked => ?_
    simpa only [Undisturbed, absent, asked] using undisturbed
  next stage here =>
    obtain ⟨⟨session', stage'⟩, moved, rfl⟩ := Option.map_eq_some_iff.mp stepped
    exact orderly.advance here rfl undisturbed moved

theorem orderly_start (config : Config) (requests : Nat → Request) :
    Orderly config requests start where
  proper := by simp [start]
  current := by simp [start, noAttributes]
  quiet := by simp [start]
  alone := by simp [start]
  carried := by simp [start]
  apart := by simp [start]
  logged := by simp [start]
  once := by simp [start]

theorem logins_bound (config : Config) (requests : Nat → Request) (choices : List Choice)
    (undisturbed : Along (Login.step config requests) (Undisturbed requests) start choices) :
    Always (Login.step config requests) (LoginsBound config requests) start choices := by
  have always := undisturbed.always (Orderly config requests)
    (fun _ _ _ allowed orderly stepped => orderly.step allowed stepped)
    (orderly_start config requests)
  exact always.mono fun s orderly => ⟨fun login among => (orderly.logged login among).1, orderly.once⟩

def oneClient : Config where
  clients := fun _ => some { usePkce := false, jwksUri := "https://idp/jwks" }
  concurrency := false

def twoCallbacks : Nat → Request
  | 0 => .authorization "idp"
  | _ => .callback "idp" { state := some (.state 0), error := none, errorDescription := none,
                           code := some "c" }

def eve : Outcome where
  tokens := { accessToken := some "at", idToken := some "jwt" }
  claims := some { nonce := some (.nonce 0), authentication := { principal := "eve" } }
  userInfo := { principal := "" }
  admitted := true

def calls (requests : List Nat) : List Choice := requests.map fun n => ⟨n, eve⟩

theorem logins_bound_once :
    Always (Login.step oneClient twoCallbacks) (LoginsBound oneClient twoCallbacks) start
      (calls [0, 0, 1, 1, 1, 1, 1, 1, 1, 1]) := by
  refine logins_bound oneClient twoCallbacks _ ?_
  refine ⟨trivial, ?_⟩
  rintro _ ⟨⟩
  refine ⟨⟨fun state held => (Option.some.inj held).symm, fun m stage there => ?_⟩, ?_⟩
  · rcases update_eq_some.mp there with ⟨-, rfl⟩ | ⟨-, there⟩
    · rfl
    · cases there
  rintro _ ⟨⟩
  refine ⟨fun state held sent i same => ?_, ?_⟩
  · obtain rfl := Option.some.inj held
    obtain rfl := Value.state.inj same
    refine ⟨rfl, ⟨_, rfl⟩, fun m accepted query there => ?_⟩
    rcases update_eq_some.mp there with ⟨-, impossible⟩ | ⟨-, there⟩
    · cases impossible
    · rcases update_eq_some.mp there with ⟨-, impossible⟩ | ⟨-, there⟩
      · cases impossible
      · cases there
  -- what is left of the callback disturbs nobody
  iterate 7
    rintro _ ⟨⟩
    refine ⟨trivial, ?_⟩
  exact fun _ _ => trivial

-- Both callbacks read the state before one of them removes it: the second finds no nonce to check.
theorem replayed_callback_skips_nonce :
    ¬ ∀ (config : Config) (requests : Nat → Request) (choices : List Choice),
      Always (Login.step config requests) (LoginsBound config requests) start choices := by
  intro always
  obtain ⟨s, ran, login, logins, validated, unchecked⟩ : ∃ s,
      run (Login.step oneClient twoCallbacks) start
        (calls [0, 0, 1, 2, 1, 1, 1, 1, 2, 2, 2, 2, 2, 2, 2]) = some s ∧
      ∃ login, s.logins = [login] ∧ login.validated = true ∧ login.nonce = none :=
    ⟨_, rfl, _, rfl, rfl, rfl⟩
  have bound := (always oneClient twoCallbacks _ _ [] (List.append_nil _).symm s ran).bound login
    (by simp [logins])
  obtain ⟨i, _, _, required, _⟩ := bound
  cases unchecked.symm.trans (required validated)

end Firefly.Security.Login
