import Firefly.Security.AuthorizationServer
import Firefly.Shared.Tables

set_option autoImplicit false

namespace Firefly.Security.Tokens

open Runs Tables

variable {server : Server} {requests : Nat → Request} {s s' : State}

def Stage.spends : Stage → Option Exchange
  | .rotate exchange _ => some exchange
  | .issue _ _ exchange => exchange
  | _ => none

def Stage.asks : Stage → Option Token
  | .find _ token | .revokeExpired token | .revoke token => some token
  | _ => none

def Settled (s : State) (token : Token) : Prop :=
  ∀ m, token = .issued m → ∃ answer, s.stages m = some (.answered answer)

structure Granted (s : State) (exchange : Exchange) : Prop where
  rightful : ∃ data, (exchange.token, data) ∈ s.issued ∧ data.clientId = exchange.clientId ∧
    exchange.checked ≤ data.exp
  live : exchange.token ∉ s.begun exchange.call
  settled : Settled s exchange.token
  present : s.stages exchange.call ≠ none

structure Orderly (s : State) : Prop where
  held : ∀ token data, s.tokens token = some data → (token, data) ∈ s.issued ∧ Settled s token ∧
    token ∉ s.revoked ∧ token ∉ s.exchanges.map (·.token) ∧
    ∀ n clientId scope exchange, s.stages n = some (.issue clientId scope (some exchange)) →
      exchange.token ≠ token
  spending : ∀ n stage exchange, s.stages n = some stage → stage.spends = some exchange →
    exchange.call = n ∧ Granted s exchange ∧ exchange.token ∉ s.exchanges.map (·.token)
  alone : ∀ n m stage other exchange exchange', s.stages n = some stage → s.stages m = some other →
    stage.spends = some exchange → other.spends = some exchange' →
    exchange.token = exchange'.token → n = m
  asked : ∀ n stage token, s.stages n = some stage → stage.asks = some token → Settled s token
  exchanged : ∀ exchange ∈ s.exchanges, Granted s exchange
  once : (s.exchanges.map (·.token)).Nodup
  revoked : ∀ token ∈ s.revoked, Settled s token
  begun : ∀ n, ∀ token ∈ s.begun n, token ∈ s.revoked
  written : ∀ n ∈ s.writers, ∃ stage, s.stages n = some stage ∧ stage ≠ .answered MISMATCH ∧
    ∀ clientId token, stage ≠ .find clientId token

section Move

variable {n : Nat} {stage stage' : Stage}

theorem Settled.keep {token : Token} (settled : Settled s token)
    (unfinished : ∀ answer, s.stages n ≠ some (.answered answer))
    (stages : s'.stages = Function.update s.stages n (some stage')) : Settled s' token := by
  intro m same
  obtain ⟨answer, ended⟩ := settled m same
  refine ⟨answer, ?_⟩
  rw [stages, Function.update_of_ne, ended]
  rintro rfl
  exact unfinished answer ended

theorem Granted.keep {exchange : Exchange} (granted : Granted s exchange)
    (unfinished : ∀ answer, s.stages n ≠ some (.answered answer))
    (stages : s'.stages = Function.update s.stages n (some stage'))
    (issued : ∀ pair ∈ s.issued, pair ∈ s'.issued)
    (begun : s'.begun exchange.call = s.begun exchange.call) : Granted s' exchange where
  rightful := by
    obtain ⟨data, among, rest⟩ := granted.rightful
    exact ⟨data, issued _ among, rest⟩
  live := by
    rw [begun]
    exact granted.live
  settled := granted.settled.keep unfinished stages
  present := by
    rw [stages]
    by_cases same : exchange.call = n
    · simp [same]
    · rw [Function.update_of_ne same]
      exact granted.present

theorem Granted.of_same {exchange : Exchange} (granted : Granted s exchange)
    (issued : s'.issued = s.issued) (begun : s'.begun = s.begun) (stages : s'.stages = s.stages) :
    Granted s' exchange where
  rightful := by
    rw [issued]
    exact granted.rightful
  live := by
    rw [begun]
    exact granted.live
  settled := by
    intro m same
    rw [stages]
    exact granted.settled m same
  present := by
    rw [stages]
    exact granted.present

theorem Orderly.move (orderly : Orderly s) (here : s.stages n = some stage)
    (unfinished : ∀ answer, stage ≠ .answered answer) (tokens : Token → Option TokenData)
    (fewer : ∀ token data, tokens token = some data → s.tokens token = some data)
    (writers : List Nat)
    (writes : ∀ m ∈ writers, m ∈ s.writers ∧ m ≠ n ∨
      m = n ∧ stage' ≠ .answered MISMATCH ∧ ∀ clientId token, stage' ≠ .find clientId token)
    (spends : ∀ exchange, stage'.spends = some exchange →
      (exchange.call = n ∧ Granted s exchange ∧ exchange.token ∉ s.exchanges.map (·.token)) ∧
      ∀ m other exchange', m ≠ n → s.stages m = some other → other.spends = some exchange' →
        exchange'.token ≠ exchange.token)
    (gone : ∀ clientId scope exchange, stage' = .issue clientId scope (some exchange) →
      tokens exchange.token = none)
    (asks : ∀ token, stage'.asks = some token → Settled s token) :
    Orderly { s with tokens, writers, stages := Function.update s.stages n (some stage') } := by
  have running : ∀ answer, s.stages n ≠ some (.answered answer) := by
    intro answer ended
    exact unfinished answer (Option.some.inj (here.symm.trans ended))
  refine ⟨?_, ?_, ?_, ?_, ?_, orderly.once, ?_, orderly.begun, ?_⟩
  · intro token data stored
    obtain ⟨issued, settled, live, unspent, apart⟩ := orderly.held token data (fewer token data stored)
    refine ⟨issued, settled.keep running rfl, live, unspent, ?_⟩
    intro m clientId scope exchange there same
    rcases update_eq_some.mp there with ⟨-, rfl⟩ | ⟨-, there⟩
    · cases (gone clientId scope exchange rfl).symm.trans (same ▸ stored)
    · exact apart m clientId scope exchange there same
  · intro m found exchange there spent
    rcases update_eq_some.mp there with ⟨rfl, rfl⟩ | ⟨-, there⟩
    · obtain ⟨⟨call, granted, unspent⟩, -⟩ := spends exchange spent
      exact ⟨call, granted.keep running rfl (fun _ => id) rfl, unspent⟩
    · obtain ⟨call, granted, unspent⟩ := orderly.spending m found exchange there spent
      exact ⟨call, granted.keep running rfl (fun _ => id) rfl, unspent⟩
  · intro k m found other exchange exchange' atK atM spent spent' same
    rcases update_eq_some.mp atK with ⟨rfl, rfl⟩ | ⟨apart, keptK⟩
    · rcases update_eq_some.mp atM with ⟨rfl, -⟩ | ⟨apart', keptM⟩
      · rfl
      · exact absurd same.symm ((spends exchange spent).2 m other exchange' apart' keptM spent')
    · rcases update_eq_some.mp atM with ⟨rfl, rfl⟩ | ⟨apart', keptM⟩
      · exact absurd same ((spends exchange' spent').2 k found exchange apart keptK spent)
      · exact orderly.alone k m found other exchange exchange' keptK keptM spent spent' same
  · intro m found token there asked
    rcases update_eq_some.mp there with ⟨rfl, rfl⟩ | ⟨-, there⟩
    · exact (asks token asked).keep running rfl
    · exact (orderly.asked m found token there asked).keep running rfl
  · exact fun exchange among =>
      (orderly.exchanged exchange among).keep running rfl (fun _ => id) rfl
  · exact fun token among => (orderly.revoked token among).keep running rfl
  · intro m among
    rcases writes m among with ⟨earlier, apart⟩ | ⟨rfl, other, looked⟩
    · obtain ⟨found, there, rest⟩ := orderly.written m earlier
      refine ⟨found, ?_, rest⟩
      show Function.update s.stages n _ m = _
      rw [Function.update_of_ne apart, there]
    · exact ⟨stage', Function.update_self .., other, looked⟩

theorem Orderly.unwritten (orderly : Orderly s) {clientId : String} {token : Token}
    (here : s.stages n = some (.find clientId token)) : n ∉ s.writers := by
  intro among
  obtain ⟨found, there, _, looked⟩ := orderly.written n among
  exact looked clientId token (Option.some.inj (there.symm.trans here))

theorem Orderly.find (orderly : Orderly s) {clientId : String} {token : Token} {now : Nat}
    (here : s.stages n = some (.find clientId token))
    (serial : ∀ m exchange scope, s.stages m = some (.rotate exchange scope) →
      exchange.token ≠ token) :
    Orderly (s.go n (found n clientId token now (s.tokens token))) := by
  have settled := orderly.asked n _ token here rfl
  have writes : ∀ m ∈ s.writers, m ∈ s.writers ∧ m ≠ n := by
    intro m among
    refine ⟨among, ?_⟩
    rintro rfl
    exact orderly.unwritten here among
  have plain : ∀ stage' : Stage, stage'.spends = none →
      (∀ other, stage'.asks = some other → Settled s other) → Orderly (s.go n stage') := by
    intro stage' spends asks
    refine orderly.move here (by simp) s.tokens (fun _ _ => id) s.writers
      (fun m among => .inl (writes m among)) (fun exchange spent => ?_)
      (fun clientId scope exchange same => ?_) asks
    · cases spends.symm.trans spent
    · rw [same] at spends
      cases spends
  cases stored : s.tokens token with
  | none => exact plain _ rfl (by simp [found, Stage.asks])
  | some data =>
    by_cases mismatch : data.clientId ≠ clientId
    · rw [found, if_pos mismatch]
      exact plain _ rfl (by simp [Stage.asks])
    · by_cases expired : data.exp < now
      · rw [found, if_neg mismatch, if_pos expired]
        refine plain _ rfl fun other asked => ?_
        obtain rfl := Option.some.inj asked
        exact settled
      · rw [found, if_neg mismatch, if_neg expired]
        rw [not_not] at mismatch
        obtain ⟨issued, _, live, unspent, apart⟩ := orderly.held token data stored
        -- the token is in the store, so it was not revoked before the call began
        have granted : Granted s { call := n, token, clientId, checked := now } :=
          { rightful := ⟨data, issued, mismatch, by simpa using expired⟩
            live := fun known => live (orderly.begun n token known)
            settled
            present := by simp [here] }
        refine orderly.move here (by simp) s.tokens (fun _ _ => id) s.writers
          (fun m among => .inl (writes m among)) (fun exchange spent => ?_) (by simp)
          (by simp [Stage.asks])
        obtain rfl := Option.some.inj spent
        refine ⟨⟨rfl, granted, unspent⟩, fun m other exchange' _ there spent' => ?_⟩
        cases other with
        | rotate exchange scope =>
          obtain rfl := Option.some.inj spent'
          exact serial m exchange scope there
        | issue clientId scope exchange =>
          obtain rfl : exchange = some exchange' := spent'
          exact apart m clientId scope exchange' there
        | _ => cases spent'

theorem removed_fewer (token other : Token) (data : TokenData)
    (stored : Function.update s.tokens token none other = some data) :
    s.tokens other = some data := by
  by_cases same : other = token
  · subst same
    simp at stored
  · rwa [Function.update_of_ne same] at stored

theorem Orderly.revokeExpired (orderly : Orderly s) {token : Token}
    (here : s.stages n = some (.revokeExpired token)) :
    Orderly ((s.revokeToken n token).go n
      (.answered (.error "INVALID_GRANT" "Refresh token expired"))) := by
  refine orderly.move here (by simp) _ (removed_fewer token) _ (fun m among => ?_)
    (by simp [Stage.spends]) (by simp) (by simp [Stage.asks])
  by_cases same : m = n
  · exact .inr ⟨same, by simp [MISMATCH], by simp⟩
  · exact .inl ⟨(List.mem_cons.mp among).resolve_left same, same⟩

theorem Orderly.rotate (orderly : Orderly s) {exchange : Exchange} {scope : String}
    (here : s.stages n = some (.rotate exchange scope)) :
    Orderly ((s.revokeToken n exchange.token).go n
      (.issue exchange.clientId scope (some exchange))) := by
  refine orderly.move here (by simp) _ (removed_fewer exchange.token) _ (fun m among => ?_)
    (fun other spent => ?_) (fun clientId scope other same => ?_) (by simp [Stage.asks])
  · by_cases same : m = n
    · exact .inr ⟨same, by simp, by simp⟩
    · exact .inl ⟨(List.mem_cons.mp among).resolve_left same, same⟩
  · obtain rfl : exchange = other := Option.some.inj spent
    refine ⟨orderly.spending n _ exchange here rfl, fun m other exchange' apart there spent' same => ?_⟩
    exact apart (orderly.alone m n other _ exchange' exchange there here spent' rfl same)
  · obtain ⟨-, -, equal⟩ := Stage.issue.inj same
    obtain rfl := Option.some.inj equal
    exact Function.update_self ..

theorem Orderly.unsigned (orderly : Orderly s) {clientId scope : String}
    {exchange : Option Exchange} (here : s.stages n = some (.issue clientId scope exchange)) :
    Orderly (s.go n (.answered (.error "SERVER_ERROR" "token signing"))) := by
  refine orderly.move here (by simp) s.tokens (fun _ _ => id) s.writers (fun m among => ?_)
    (by simp [Stage.spends]) (by simp) (by simp [Stage.asks])
  by_cases same : m = n
  · exact .inr ⟨same, by simp [MISMATCH], by simp⟩
  · exact .inl ⟨among, same⟩

theorem Orderly.revoke (orderly : Orderly s) {token : Token}
    (here : s.stages n = some (.revoke token)) :
    Orderly ({ s.revokeToken n token with revoked := token :: s.revoked }.go n
      (.answered .revoked)) := by
  have moved : Orderly ((s.revokeToken n token).go n (.answered .revoked)) := by
    refine orderly.move here (by simp) _ (removed_fewer token) _ (fun m among => ?_)
      (by simp [Stage.spends]) (by simp) (by simp [Stage.asks])
    by_cases same : m = n
    · exact .inr ⟨same, by simp [MISMATCH], by simp⟩
    · exact .inl ⟨(List.mem_cons.mp among).resolve_left same, same⟩
  have settled : Settled ((s.revokeToken n token).go n (.answered .revoked)) token :=
    (orderly.asked n _ token here rfl).keep (by simp [here]) rfl
  refine ⟨?_, ?_, moved.alone, moved.asked, ?_, moved.once, ?_, ?_, moved.written⟩
  · intro other data stored
    obtain ⟨issued, ended, live, rest⟩ := moved.held other data stored
    refine ⟨issued, ended, ?_, rest⟩
    intro among
    rcases List.mem_cons.mp among with rfl | earlier
    · simp [State.go, State.revokeToken] at stored
    · exact live earlier
  · intro m found exchange there spent
    obtain ⟨call, granted, unspent⟩ := moved.spending m found exchange there spent
    exact ⟨call, granted.of_same rfl rfl rfl, unspent⟩
  · exact fun exchange among => (moved.exchanged exchange among).of_same rfl rfl rfl
  · intro other among
    rcases List.mem_cons.mp among with rfl | earlier
    · exact settled
    · exact moved.revoked other earlier
  · exact fun m other known => List.mem_cons_of_mem _ (moved.begun m other known)

theorem Orderly.issue (orderly : Orderly s) {clientId scope : String} {exchange : Option Exchange}
    (here : s.stages n = some (.issue clientId scope exchange)) (data : TokenData)
    (response : TokenResponse) :
    Orderly ({ s with
      tokens := Function.update s.tokens (.issued n) (some data)
      issued := (.issued n, data) :: s.issued
      exchanges := exchange.toList ++ s.exchanges
      writers := n :: s.writers }.go n (.answered (.tokens response))) := by
  have running : ∀ answer, s.stages n ≠ some (.answered answer) := by simp [here]
  have fresh : ∀ token, Settled s token → token ≠ .issued n := by
    rintro token settled rfl
    obtain ⟨answer, ended⟩ := settled n rfl
    exact running answer ended
  have own : ∀ e, exchange = some e → e.call = n ∧ Granted s e ∧
      e.token ∉ s.exchanges.map (·.token) := by
    rintro e rfl
    exact orderly.spending n _ e here rfl
  have later : ∀ pair ∈ s.issued, pair ∈ (Token.issued n, data) :: s.issued :=
    fun pair => List.mem_cons_of_mem _
  refine ⟨?_, ?_, ?_, ?_, ?_, ?_, ?_, orderly.begun, ?_⟩
  · intro token kept stored
    by_cases same : token = .issued n
    · subst same
      simp only [State.go, Function.update_self, Option.some.injEq] at stored
      subst stored
      refine ⟨List.mem_cons_self, ?_, fun among => fresh _ (orderly.revoked _ among) rfl, ?_, ?_⟩
      · intro m issued
        obtain rfl := Token.issued.inj issued
        exact ⟨_, Function.update_self ..⟩
      · intro among
        obtain ⟨e, spent, same⟩ := List.mem_map.mp among
        rcases List.mem_append.mp spent with now | earlier
        · exact fresh _ (own e (by simpa using now)).2.1.settled same
        · exact fresh _ (orderly.exchanged e earlier).settled same
      · intro m cid sc e there
        rcases update_eq_some.mp there with ⟨-, impossible⟩ | ⟨-, there⟩
        · cases impossible
        · exact fresh _ (orderly.spending m _ e there rfl).2.1.settled
    · have before : s.tokens token = some kept := by
        simpa [State.go, Function.update_of_ne same] using stored
      obtain ⟨issued, settled, live, unspent, apart⟩ := orderly.held token kept before
      refine ⟨later _ issued, settled.keep running rfl, live, ?_, ?_⟩
      · show token ∉ (exchange.toList ++ s.exchanges).map (·.token)
        rw [List.map_append, List.mem_append, not_or]
        refine ⟨fun among => ?_, unspent⟩
        obtain ⟨e, spent, rfl⟩ := List.mem_map.mp among
        obtain rfl : exchange = some e := by simpa using spent
        exact apart n clientId scope e here rfl
      · intro m cid sc e there
        rcases update_eq_some.mp there with ⟨-, impossible⟩ | ⟨-, there⟩
        · cases impossible
        · exact apart m cid sc e there
  · intro m found e there spent
    rcases update_eq_some.mp there with ⟨-, rfl⟩ | ⟨apart, there⟩
    · cases spent
    · obtain ⟨call, granted, unspent⟩ := orderly.spending m found e there spent
      refine ⟨call, granted.keep running rfl later rfl, ?_⟩
      show e.token ∉ (exchange.toList ++ s.exchanges).map (·.token)
      rw [List.map_append, List.mem_append, not_or]
      refine ⟨fun among => ?_, unspent⟩
      obtain ⟨e', now, same⟩ := List.mem_map.mp among
      obtain rfl : exchange = some e' := by simpa using now
      exact apart (orderly.alone m n found _ e e' there here spent rfl same.symm)
  · intro k m found other e e' atK atM spent spent' same
    rcases update_eq_some.mp atK with ⟨-, rfl⟩ | ⟨-, keptK⟩
    · cases spent
    · rcases update_eq_some.mp atM with ⟨-, rfl⟩ | ⟨-, keptM⟩
      · cases spent'
      · exact orderly.alone k m found other e e' keptK keptM spent spent' same
  · intro m found token there asks
    rcases update_eq_some.mp there with ⟨-, rfl⟩ | ⟨-, there⟩
    · cases asks
    · exact (orderly.asked m found token there asks).keep running rfl
  · intro e among
    rcases List.mem_append.mp among with now | earlier
    · exact (own e (by simpa using now)).2.1.keep running rfl later rfl
    · exact (orderly.exchanged e earlier).keep running rfl later rfl
  · cases exchange with
    | none => exact orderly.once
    | some e => exact List.nodup_cons.mpr ⟨(own e rfl).2.2, orderly.once⟩
  · exact fun token among => (orderly.revoked token among).keep running rfl
  · intro m among
    by_cases same : m = n
    · subst same
      exact ⟨_, Function.update_self .., by simp [MISMATCH], by simp⟩
    · obtain ⟨found, there, rest⟩ := orderly.written m ((List.mem_cons.mp among).resolve_left same)
      refine ⟨found, ?_, rest⟩
      show Function.update s.stages n _ m = _
      rw [Function.update_of_ne same, there]

theorem Orderly.enter (orderly : Orderly s) (absent : s.stages n = none)
    (spends : stage'.spends = none) (asks : ∀ token, stage'.asks = some token → Settled s token) :
    Orderly ({ s with begun := Function.update s.begun n s.revoked }.go n stage') := by
  have running : ∀ answer, s.stages n ≠ some (.answered answer) := by simp [absent]
  have keeps : ∀ e, Granted s e →
      Granted ({ s with begun := Function.update s.begun n s.revoked }.go n stage') e := by
    intro e granted
    refine granted.keep running rfl (fun _ => id) ?_
    refine Function.update_of_ne ?_ _ _
    rintro rfl
    exact granted.present absent
  refine ⟨?_, ?_, ?_, ?_, ?_, orderly.once, ?_, ?_, ?_⟩
  · intro token data stored
    obtain ⟨issued, settled, live, unspent, apart⟩ := orderly.held token data stored
    refine ⟨issued, settled.keep running rfl, live, unspent, fun m cid sc e there => ?_⟩
    rcases update_eq_some.mp there with ⟨-, rfl⟩ | ⟨-, there⟩
    · cases spends
    · exact apart m cid sc e there
  · intro m found e there spent
    rcases update_eq_some.mp there with ⟨-, rfl⟩ | ⟨-, there⟩
    · cases spends.symm.trans spent
    · obtain ⟨call, granted, unspent⟩ := orderly.spending m found e there spent
      exact ⟨call, keeps e granted, unspent⟩
  · intro k m found other e e' atK atM spent spent' same
    rcases update_eq_some.mp atK with ⟨-, rfl⟩ | ⟨-, keptK⟩
    · cases spends.symm.trans spent
    · rcases update_eq_some.mp atM with ⟨-, rfl⟩ | ⟨-, keptM⟩
      · cases spends.symm.trans spent'
      · exact orderly.alone k m found other e e' keptK keptM spent spent' same
  · intro m found token there asked
    rcases update_eq_some.mp there with ⟨-, rfl⟩ | ⟨-, there⟩
    · exact (asks token asked).keep running rfl
    · exact (orderly.asked m found token there asked).keep running rfl
  · exact fun e among => keeps e (orderly.exchanged e among)
  · exact fun token among => (orderly.revoked token among).keep running rfl
  · intro m token known
    by_cases same : m = n
    · subst same
      simpa [State.go] using known
    · exact orderly.begun m token (by simpa [State.go, Function.update_of_ne same] using known)
  · intro m among
    obtain ⟨found, there, rest⟩ := orderly.written m among
    refine ⟨found, ?_, rest⟩
    show Function.update s.stages n _ m = _
    rw [Function.update_of_ne, there]
    rintro rfl
    cases absent.symm.trans there

end Move

theorem presentable_token {request : TokenRequest} {token : Token}
    (presented : presentable s (.token request) = true) (sent : request.refreshToken = some token) :
    Settled s token := by
  rintro m rfl
  obtain ⟨grantType, clientId, secret, scope, refreshToken⟩ := request
  subst sent
  simp only [presentable] at presented
  split at presented
  next answer ended => exact ⟨answer, ended⟩
  next => cases presented

theorem presentable_revoke {token : Token} (presented : presentable s (.revoke token) = true) :
    Settled s token := by
  rintro m rfl
  simp only [presentable] at presented
  split at presented
  next answer ended => exact ⟨answer, ended⟩
  next => cases presented

theorem enter_quiet (server : Server) (request : Request) :
    (enter server request).spends = none ∧ ∀ token, (enter server request).asks = some token →
      request = .revoke token ∨ ∃ sent, request = .token sent ∧ sent.refreshToken = some token := by
  cases request with
  | revoke token => exact ⟨rfl, fun other same => .inl (by rw [Option.some.inj same])⟩
  | token request =>
    simp only [enter, authenticate]
    split
    · exact ⟨rfl, by simp [Stage.asks]⟩
    · split
      · exact ⟨rfl, by simp [Stage.asks]⟩
      · split
        · split <;> exact ⟨rfl, by simp [Stage.asks]⟩
        · split
          · split
            · exact ⟨rfl, by simp [Stage.asks]⟩
            next token sent =>
              refine ⟨rfl, fun other same => .inr ⟨request, rfl, ?_⟩⟩
              rw [sent]
              exact same
          · exact ⟨rfl, by simp [Stage.asks]⟩

theorem Orderly.step (orderly : Orderly s) {choice : Choice} (serial : Serial s choice)
    (stepped : Tokens.step server requests s choice = some s') : Orderly s' := by
  unfold Tokens.step at stepped
  split at stepped
  next absent =>
    split at stepped
    next presented =>
      obtain rfl := Option.some.inj stepped
      obtain ⟨spends, asks⟩ := enter_quiet server (requests choice.call)
      refine orderly.enter absent spends fun token asked => ?_
      rcases asks token asked with same | ⟨request, same, sent⟩
      · rw [same] at presented
        exact presentable_revoke presented
      · rw [same] at presented
        exact presentable_token presented sent
    next => cases stepped
  next stage here =>
    cases stage with
    | find clientId token =>
      obtain rfl := Option.some.inj stepped
      exact orderly.find here (serial clientId token here)
    | revokeExpired token =>
      obtain rfl := Option.some.inj stepped
      exact orderly.revokeExpired here
    | rotate exchange scope =>
      obtain rfl := Option.some.inj stepped
      exact orderly.rotate here
    | issue clientId scope exchange =>
      simp only [advance] at stepped
      split at stepped
      · obtain rfl := Option.some.inj stepped
        exact orderly.issue here _ _
      · obtain rfl := Option.some.inj stepped
        exact orderly.unsigned here
    | revoke token =>
      obtain rfl := Option.some.inj stepped
      exact orderly.revoke here
    | answered answer => cases stepped

theorem orderly_start : Orderly start where
  held := by simp [start]
  spending := by simp [start]
  alone := by simp [start]
  asked := by simp [start]
  exchanged := by simp [start]
  once := by simp [start]
  revoked := by simp [start]
  begun := by simp [start]
  written := by simp [start]

theorem Orderly.rotatesOnce (orderly : Orderly s) : RotatesOnce s where
  once := orderly.once
  rightful := fun exchange among => (orderly.exchanged exchange among).rightful
  live := fun exchange among => (orderly.exchanged exchange among).live
  unchanged := by
    intro n mismatch among
    obtain ⟨stage, here, other, _⟩ := orderly.written n among
    exact other (Option.some.inj (here.symm.trans mismatch))

theorem refresh_tokens_rotate_once (server : Server) (requests : Nat → Request)
    (choices : List Choice)
    (serial : Along (Tokens.step server requests) Serial start choices) :
    Always (Tokens.step server requests) RotatesOnce start choices := by
  have always := serial.always Orderly
    (fun _ _ _ allowed orderly stepped => orderly.step allowed stepped) orderly_start
  exact always.mono fun _ orderly => orderly.rotatesOnce

def oneClient : Server where
  clients := fun _ => some { clientId := "app", clientSecret := "s3cret",
                             authorizationGrantType := "client_credentials", scopes := ["read"] }
  accessTokenTtl := 3600
  refreshTokenTtl := 86400
  issuer := none

def refreshes : Nat → Request
  | 0 => .token { grantType := "client_credentials", clientId := "app", clientSecret := "s3cret",
                  scope := "", refreshToken := none }
  | _ => .token { grantType := "refresh_token", clientId := "app", clientSecret := "s3cret",
                  scope := "", refreshToken := some (.issued 0) }

def calls (ns : List Nat) : List Choice := ns.map fun n => { call := n, now := 100, signed := true }

theorem refresh_tokens_rotate_once_exchanged :
    Always (Tokens.step oneClient refreshes) RotatesOnce start (calls [0, 0, 1, 1, 1, 1]) := by
  refine refresh_tokens_rotate_once oneClient refreshes _ ?_
  refine ⟨fun _ _ looking => (by cases looking), ?_⟩
  rintro _ ⟨⟩
  refine ⟨fun _ _ looking => (by cases looking), ?_⟩
  rintro _ ⟨⟩
  refine ⟨fun _ _ looking => (by cases looking), ?_⟩
  rintro _ ⟨⟩
  refine ⟨fun _ _ _ m exchange scope there => ?_, ?_⟩
  · rcases update_eq_some.mp there with ⟨-, impossible⟩ | ⟨-, there⟩
    · cases impossible
    · rcases update_eq_some.mp there with ⟨-, impossible⟩ | ⟨-, there⟩
      · cases impossible
      · rcases update_eq_some.mp there with ⟨-, impossible⟩ | ⟨-, there⟩
        · cases impossible
        · cases there
  rintro _ ⟨⟩
  refine ⟨fun _ _ looking => (by cases looking), ?_⟩
  rintro _ ⟨⟩
  refine ⟨fun _ _ looking => (by cases looking), ?_⟩
  exact fun _ _ => trivial

-- Both exchanges find the token before one of them revokes it.
theorem refresh_token_exchanged_twice :
    ¬ ∀ (server : Server) (requests : Nat → Request) (choices : List Choice),
      Always (Tokens.step server requests) RotatesOnce start choices := by
  intro always
  obtain ⟨s, ran, twice⟩ : ∃ s, run (Tokens.step oneClient refreshes) start
      (calls [0, 0, 1, 2, 1, 2, 1, 2, 1, 2]) = some s ∧
      s.exchanges.map (·.token) = [.issued 0, .issued 0] := ⟨_, rfl, rfl⟩
  have once := (always oneClient refreshes _ _ [] (List.append_nil _).symm s ran).once
  rw [twice] at once
  simp at once

end Firefly.Security.Tokens
