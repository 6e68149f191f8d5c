import Firefly.Web.Idempotency
import Firefly.Shared.Runs

set_option autoImplicit false

namespace Firefly.Web.Origins

open Runs

structure Received extends Request where
  pathAndQuery : String
  authorization : Option HeaderValue
  cookie : Option HeaderValue

structure State where
  store : Std.TreeMap String IdempotencyRecord
  stages : Nat → Option Stage
  returned : Nat → Option Response

def start : State := { store := ∅, stages := fun _ => none, returned := fun _ => none }

inductive Choice where
  | arrive (n : Nat) (readable : Bool)
  | respond (n : Nat) (response : Response) (failure : Option String)
  | put (n : Nat) (written : Bool)
  | expire (key : String)
deriving DecidableEq, Repr

def State.go (s : State) (n : Nat) (stage : Stage) : State :=
  { s with stages := Function.update s.stages n (some stage) }

@[simp] theorem go_store (s : State) (n : Nat) (stage : Stage) : (s.go n stage).store = s.store := rfl

@[simp] theorem go_returned (s : State) (n : Nat) (stage : Stage) :
    (s.go n stage).returned = s.returned := rfl

@[simp] theorem go_stages (s : State) (n m : Nat) (stage : Stage) :
    (s.go n stage).stages m = if m = n then some stage else s.stages m := by
  simp [State.go, Function.update_apply]

def step (config : IdempotencyConfig) (requests : Nat → Received) (s : State) : Choice → Option State
  | .arrive n readable =>
    match s.stages n with
    | none =>
      -- a store that cannot be read answers as an empty one would
      let seen := if readable then s.store else ∅
      some (s.go n (lookup config seen (requests n).toRequest))
    | some _ => none
  | .respond n response failure =>
    match s.stages n with
    | some (.calling recording) =>
      some ({ s with returned := Function.update s.returned n (some response) }.go n
        (record config recording response failure))
    | _ => none
  | .put n written =>
    match s.stages n with
    | some (.storing key record response) =>
      -- an error of the store is swallowed
      let store := if written then s.store.insert key record else s.store
      some ({ s with store := store }.go n (.answered (.response response)))
    | _ => none
  | .expire key => some { s with store := s.store.erase key }

structure SameKey (config : IdempotencyConfig) (request origin : Request) : Prop where
  key : request.key = origin.key
  named : request.key ≠ ""
  covered : request.method ∈ config.methods ∧ origin.method ∈ config.methods
  body : ∃ sent first, request.body = .ok sent ∧ origin.body = .ok first ∧
    config.hash sent = config.hash first

structure SameRequest (request origin : Received) : Prop where
  method : request.method = origin.method
  path : request.pathAndQuery = origin.pathAndQuery
  authorization : request.authorization = origin.authorization
  cookie : request.cookie = origin.cookie
  body : request.body = origin.body

def RepliesFrom (config : IdempotencyConfig) (requests : Nat → Received)
    (Same : Received → Received → Prop) (s : State) : Prop :=
  ∀ n response, s.stages n = some (.answered (.response response)) →
    s.returned n = some response ∨
    ∃ origin original requestHash, s.returned origin = some original ∧
      isSuccess original.status = true ∧
      response = replay (capture config.hash requestHash original) ∧
      Same (requests n) (requests origin)

section Origins

variable {config : IdempotencyConfig} {requests : Nat → Received} {s s' : State}

structure Recordable (config : IdempotencyConfig) (request : Request) (key requestHash : String) :
    Prop where
  keyed : request.key = key
  named : key ≠ ""
  covered : request.method ∈ config.methods
  body : ∃ body, request.body = .ok body ∧ config.hash body = requestHash

def Faithful (config : IdempotencyConfig) (requests : Nat → Received) (s : State) (n : Nat) :
    Stage → Prop
  | .calling recording =>
    s.returned n = none ∧ ∀ key requestHash, recording = some (key, requestHash) →
      Recordable config (requests n).toRequest key requestHash
  | .storing key record response =>
    s.returned n = some response ∧ isSuccess response.status = true ∧
      ∃ requestHash, Recordable config (requests n).toRequest key requestHash ∧
        record = capture config.hash requestHash response
  | .answered _ => True

structure Traced (config : IdempotencyConfig) (requests : Nat → Received) (s : State) : Prop where
  waiting : ∀ n, s.stages n = none → s.returned n = none
  stages : ∀ n stage, s.stages n = some stage → Faithful config requests s n stage
  records : ∀ key record, s.store[key]? = some record → ∃ origin original requestHash,
    s.returned origin = some original ∧ isSuccess original.status = true ∧
      Recordable config (requests origin).toRequest key requestHash ∧
      record = capture config.hash requestHash original
  replies : RepliesFrom config requests
    (fun request origin => SameKey config request.toRequest origin.toRequest) s

inductive Found (config : IdempotencyConfig) (store : Std.TreeMap String IdempotencyRecord)
    (request : Request) : Stage → Prop
  | through : Found config store request (.calling none)
  | fresh (requestHash : String) (recordable : Recordable config request request.key requestHash) :
      Found config store request (.calling (some (request.key, requestHash)))
  | refused (status : Nat) (detail : String) :
      Found config store request (.answered (.problem status detail))
  | known (record : IdempotencyRecord) (held : store[request.key]? = some record)
      (recordable : Recordable config request request.key record.requestHash) :
      Found config store request (.answered (.response (replay record)))

theorem lookup_found (config : IdempotencyConfig) (store : Std.TreeMap String IdempotencyRecord)
    (request : Request) : Found config store request (lookup config store request) := by
  unfold lookup
  by_cases skipped : request.key = "" ∨ request.method ∉ config.methods
  · rw [if_pos skipped]
    exact .through
  · rw [if_neg skipped]
    rw [not_or, not_not] at skipped
    cases read : request.body with
    | error e => exact .refused _ _
    | ok body =>
      cases held : store[request.key]? with
      | none => exact .fresh _ ⟨rfl, skipped.1, skipped.2, body, read, rfl⟩
      | some found =>
        by_cases differs : found.requestHash ≠ config.hash body
        · simp only [if_pos differs]
          exact .refused _ _
        · simp only [if_neg differs]
          rw [not_not] at differs
          exact .known found held ⟨rfl, skipped.1, skipped.2, body, read, differs.symm⟩

theorem Recordable.same {request origin : Request} {key requestHash : String}
    (first : Recordable config request key requestHash)
    (second : Recordable config origin key requestHash) : SameKey config request origin where
  key := first.keyed.trans second.keyed.symm
  named := fun empty => first.named (first.keyed.symm.trans empty)
  covered := ⟨first.covered, second.covered⟩
  body := by
    obtain ⟨sent, read, hashed⟩ := first.body
    obtain ⟨original, read', hashed'⟩ := second.body
    exact ⟨sent, original, read, read', hashed.trans hashed'.symm⟩

theorem traced_start : Traced config requests start where
  waiting := by simp [start]
  stages := by simp [start]
  records := by simp [start]
  replies := by simp [RepliesFrom, start]

theorem Faithful.of_go {n m : Nat} {stage other : Stage}
    (faithful : Faithful config requests s m stage) :
    Faithful config requests (s.go n other) m stage := by
  cases stage <;> exact faithful

theorem Traced.arrive (traced : Traced config requests s) {n : Nat} (readable : Bool)
    (absent : s.stages n = none) :
    Traced config requests
      (s.go n (lookup config (if readable then s.store else ∅) (requests n).toRequest)) := by
  have found := lookup_found config (if readable then s.store else ∅) (requests n).toRequest
  generalize lookup config (if readable then s.store else ∅) (requests n).toRequest = stage at found
  refine ⟨?_, ?_, traced.records, ?_⟩
  · intro m there
    rw [go_stages] at there
    split at there
    · cases there
    · exact traced.waiting m there
  · intro m other there
    rw [go_stages] at there
    split at there
    next same =>
      subst same
      obtain rfl := Option.some.inj there
      cases found with
      | through => exact ⟨traced.waiting m absent, by simp⟩
      | fresh requestHash recordable =>
        refine ⟨traced.waiting m absent, fun key hash same => ?_⟩
        obtain ⟨rfl, rfl⟩ := Prod.mk.inj (Option.some.inj same)
        exact recordable
      | refused status detail => trivial
      | known record held recordable => trivial
    next => exact (traced.stages m other there).of_go
  · intro m response there
    rw [go_stages] at there
    split at there
    next same =>
      subst same
      obtain rfl := Option.some.inj there
      cases found with
      | known record held recordable =>
        have stored : s.store[(requests m).key]? = some record := by
          cases readable with
          | true => simpa using held
          | false => simp at held
        obtain ⟨origin, original, requestHash, returned, success, recorded, rfl⟩ :=
          traced.records _ record stored
        exact .inr ⟨origin, original, requestHash, returned, success, rfl, recordable.same recorded⟩
    next => exact traced.replies m response there

theorem record_faithful {n : Nat} {recording : Option (String × String)}
    (faithful : ∀ key requestHash, recording = some (key, requestHash) →
      Recordable config (requests n).toRequest key requestHash)
    (response : Response) (failure : Option String) (returned : s.returned n = some response) :
    Faithful config requests s n (record config recording response failure) ∧
      ∀ answer, record config recording response failure = .answered (.response answer) →
        answer = response := by
  cases recording with
  | none => simp [record, Faithful]
  | some pair =>
    obtain ⟨key, requestHash⟩ := pair
    cases success : isSuccess response.status with
    | false => simp [record, Faithful, success]
    | true =>
      cases failure with
      | some e => simp [record, Faithful, success]
      | none =>
        simp only [record, success, Bool.not_true, Bool.false_eq_true, if_false]
        exact ⟨⟨returned, success, requestHash, faithful key requestHash rfl, rfl⟩, by simp⟩

theorem Traced.respond (traced : Traced config requests s) {n : Nat}
    {recording : Option (String × String)} (here : s.stages n = some (.calling recording))
    (response : Response) (failure : Option String) :
    Traced config requests ({ s with returned := Function.update s.returned n (some response) }.go n
      (record config recording response failure)) := by
  obtain ⟨unanswered, faithful⟩ := traced.stages n _ here
  -- nobody has been given a response of `n` yet
  have kept : ∀ m original, s.returned m = some original →
      Function.update s.returned n (some response) m = some original := by
    intro m original returned
    rw [Function.update_of_ne, returned]
    rintro rfl
    cases unanswered.symm.trans returned
  have recorded := record_faithful
    (s := { s with returned := Function.update s.returned n (some response) })
    faithful response failure (Function.update_self ..)
  refine ⟨?_, ?_, ?_, ?_⟩
  · intro m there
    rw [go_stages] at there
    split at there
    next => cases there
    next apart => exact (Function.update_of_ne apart ..).trans (traced.waiting m there)
  · intro m other there
    rw [go_stages] at there
    split at there
    next same =>
      subst same
      obtain rfl := Option.some.inj there
      exact recorded.1.of_go
    next apart =>
      have known := traced.stages m other there
      cases other with
      | calling recording => exact ⟨(Function.update_of_ne apart ..).trans known.1, known.2⟩
      | storing key record stored => exact ⟨kept m _ known.1, known.2⟩
      | answered answer => trivial
  · intro key found held
    obtain ⟨origin, original, requestHash, returned, rest⟩ := traced.records key found held
    exact ⟨origin, original, requestHash, kept origin _ returned, rest⟩
  · intro m answer there
    rw [go_stages] at there
    split at there
    next same =>
      subst same
      obtain rfl := recorded.2 answer (Option.some.inj there)
      exact .inl (Function.update_self ..)
    next =>
      rcases traced.replies m answer there with own | ⟨origin, original, requestHash, returned, rest⟩
      · exact .inl (kept m _ own)
      · exact .inr ⟨origin, original, requestHash, kept origin _ returned, rest⟩

theorem Traced.put (traced : Traced config requests s) {n : Nat} {key : String}
    {record : IdempotencyRecord} {response : Response}
    (here : s.stages n = some (.storing key record response)) (written : Bool) :
    Traced config requests
      ({ s with store := if written then s.store.insert key record else s.store }.go n
        (.answered (.response response))) := by
  obtain ⟨returned, success, requestHash, recordable, captured⟩ := traced.stages n _ here
  refine ⟨?_, ?_, ?_, ?_⟩
  · intro m there
    rw [go_stages] at there
    split at there
    · cases there
    · exact traced.waiting m there
  · intro m other there
    rw [go_stages] at there
    split at there
    next =>
      obtain rfl := Option.some.inj there
      trivial
    next =>
      have known := traced.stages m other there
      cases other <;> exact known
  · intro other found held
    cases written with
    | false => exact traced.records other found held
    | true =>
      simp only [go_store, if_true, Std.TreeMap.getElem?_insert] at held
      split at held
      next same =>
        obtain rfl := Std.LawfulEqCmp.eq_of_compare same
        obtain rfl := Option.some.inj held
        exact ⟨n, response, requestHash, returned, success, recordable, captured⟩
      next => exact traced.records other found held
  · intro m answer there
    rw [go_stages] at there
    split at there
    next same =>
      subst same
      obtain rfl : response = answer :=
        Answer.response.inj (Stage.answered.inj (Option.some.inj there))
      exact .inl returned
    next => exact traced.replies m answer there

theorem Traced.expire (traced : Traced config requests s) (key : String) :
    Traced config requests { s with store := s.store.erase key } where
  waiting := traced.waiting
  stages := fun n stage there => by
    have known := traced.stages n stage there
    cases stage <;> exact known
  records := fun other record held => by
    rw [Std.TreeMap.getElem?_erase] at held
    split at held
    · cases held
    · exact traced.records other record held
  replies := traced.replies

theorem Traced.step (traced : Traced config requests s) {choice : Choice}
    (stepped : Origins.step config requests s choice = some s') : Traced config requests s' := by
  cases choice with
  | arrive n readable =>
    simp only [Origins.step] at stepped
    split at stepped
    next absent =>
      obtain rfl := Option.some.inj stepped
      exact traced.arrive readable absent
    next => cases stepped
  | respond n response failure =>
    simp only [Origins.step] at stepped
    split at stepped
    next recording here =>
      obtain rfl := Option.some.inj stepped
      exact traced.respond here response failure
    next => cases stepped
  | put n written =>
    simp only [Origins.step] at stepped
    split at stepped
    next key record response here =>
      obtain rfl := Option.some.inj stepped
      exact traced.put here written
    next => cases stepped
  | expire key =>
    obtain rfl := Option.some.inj stepped
    exact traced.expire key

theorem replays_stay_with_their_key (config : IdempotencyConfig) (requests : Nat → Received)
    (choices : List Choice) :
    Always (Origins.step config requests) (RepliesFrom config requests
      fun request origin => SameKey config request.toRequest origin.toRequest) start choices := by
  have everywhere : Along (Origins.step config requests) (fun _ _ => True) start choices :=
    along_of_forall (fun _ _ _ => trivial) start
  have always := everywhere.always (Traced config requests)
    (fun _ _ _ _ traced stepped => traced.step stepped) traced_start
  exact always.mono fun _ traced => traced.replies

end Origins

def posts : IdempotencyConfig where
  methods := ["POST", "PUT", "PATCH"]
  hash := fun body => String.ofList (body.map fun byte => Char.ofNat byte.toNat)

def twoCallers (n : Nat) : Received where
  idempotencyKey := some [107, 49]
  method := "POST"
  body := .ok []
  pathAndQuery := if n = 0 then "/statements" else "/refunds"
  authorization := some (if n = 0 then [97] else [98])
  cookie := none

def statement : Response := { status := 200, headers := [], body := [97, 108, 105, 99, 101] }

theorem key_serves_another_caller :
    ¬ ∀ (config : IdempotencyConfig) (requests : Nat → Received) (choices : List Choice),
      Always (step config requests) (RepliesFrom config requests SameRequest) start choices := by
  intro always
  obtain ⟨s, ran, answered, returned⟩ : ∃ s, run (step posts twoCallers) start
      [.arrive 0 true, .respond 0 statement none, .put 0 true, .arrive 1 true] = some s ∧
      s.stages 1 = some (.answered (.response
        (replay (capture posts.hash (posts.hash []) statement)))) ∧
      s.returned = Function.update (fun _ => none) 0 (some statement) := ⟨_, rfl, rfl, rfl⟩
  have reply := always posts twoCallers _ _ [] (List.append_nil _).symm s ran 1 _ answered
  rw [returned] at reply
  rcases reply with own | ⟨origin, original, _, from_origin, _, _, same⟩
  · simp at own
  · obtain rfl : origin = 0 := by
      by_contra apart
      simp [Function.update_of_ne apart] at from_origin
    exact absurd same.path (by decide)

end Firefly.Web.Origins
