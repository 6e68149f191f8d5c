import Mathlib

set_option autoImplicit false

namespace Firefly.Web

abbrev HeaderValue := List UInt8

def visibleCode (code : Nat) : Bool := code == 9 || 32 ≤ code && code < 127

def toStr (value : HeaderValue) : Option String :=
  if value.all fun byte => visibleCode byte.toNat then
    some (String.ofList (value.map fun byte => Char.ofNat byte.toNat))
  else none

def fromStr (text : String) : Option HeaderValue :=
  if text.toList.all fun c => visibleCode c.toNat then
    some (text.toList.map fun c => UInt8.ofNat c.toNat)
  else none

abbrev HeaderMap := List (String × HeaderValue)

def HeaderMap.insert (headers : HeaderMap) (name : String) (value : HeaderValue) : HeaderMap :=
  headers.filter (·.1 ≠ name) ++ [(name, value)]

def HeaderMap.getAll (headers : HeaderMap) (name : String) : List HeaderValue :=
  (headers.filter (·.1 = name)).map Prod.snd

structure Response where
  status : Nat
  headers : HeaderMap
  body : List UInt8
deriving DecidableEq, Repr

def isSuccess (status : Nat) : Bool := 200 ≤ status && status < 300

structure IdempotencyRecord where
  statusCode : Nat
  headers : Std.TreeMap String String
  body : List UInt8
  bodyHash : String
  requestHash : String

def REPLAY_HEADER : String := "idempotent-replay"

-- The first value of a header is kept, one that is no visible text is left out.
def captureHeader (headers : Std.TreeMap String String) (header : String × HeaderValue) :
    Std.TreeMap String String :=
  match toStr header.2 with
  | some text => headers.insertIfNew header.1 text
  | none => headers

def capture (hash : List UInt8 → String) (requestHash : String) (response : Response) :
    IdempotencyRecord :=
  { statusCode := response.status
    headers := response.headers.foldl captureHeader ∅
    body := response.body
    bodyHash := hash response.body
    requestHash }

def replayHeader (headers : HeaderMap) (header : String × String) : HeaderMap :=
  match fromStr header.2 with
  | some value => headers.insert header.1 value
  | none => headers

def replay (record : IdempotencyRecord) : Response :=
  { status := if 100 ≤ record.statusCode ∧ record.statusCode < 1000 then record.statusCode else 200
    headers := HeaderMap.insert (record.headers.toList.foldl replayHeader []) REPLAY_HEADER
      "true".toUTF8.toList
    body := record.body }

structure Request where
  idempotencyKey : Option HeaderValue
  method : String
  body : Except String (List UInt8)

def Request.key (request : Request) : String :=
  (request.idempotencyKey.bind toStr).getD ""

structure IdempotencyConfig where
  methods : List String
  hash : List UInt8 → String

inductive Answer where
  | response (response : Response)
  | problem (status : Nat) (detail : String)
deriving DecidableEq, Repr

/-- `calling` holds the key and the hash of the request when its response is to be recorded. -/
inductive Stage where
  | calling (recording : Option (String × String))
  | storing (key : String) (record : IdempotencyRecord) (response : Response)
  | answered (answer : Answer)

/-- `completions` are the responses with a 2xx status that the inner service has completed. -/
structure State where
  store : Std.TreeMap String IdempotencyRecord
  stages : Nat → Option Stage
  completions : List (Nat × Response)

def start : State := { store := ∅, stages := fun _ => none, completions := [] }

inductive Choice where
  | arrive (caller : Nat)
  | respond (caller : Nat) (response : Response) (failure : Option String)
  | put (caller : Nat)
deriving DecidableEq, Repr

def State.go (s : State) (caller : Nat) (stage : Stage) : State :=
  { s with stages := Function.update s.stages caller (some stage) }

def lookup (config : IdempotencyConfig) (store : Std.TreeMap String IdempotencyRecord)
    (request : Request) : Stage :=
  if request.key = "" ∨ request.method ∉ config.methods then .calling none
  else
    match request.body with
    | .error e => .answered (.problem 400 ("read body: " ++ e))
    | .ok body =>
      match store[request.key]? with
      | some record =>
        if record.requestHash ≠ config.hash body then
          .answered (.problem 409 "idempotency-key reused with different payload")
        else .answered (.response (replay record))
      | none => .calling (some (request.key, config.hash body))

def record (config : IdempotencyConfig) (recording : Option (String × String)) (response : Response)
    (failure : Option String) : Stage :=
  match recording with
  | none => .answered (.response response)
  | some (key, requestHash) =>
    if !isSuccess response.status then .answered (.response response)
    else
      match failure with
      | some e => .answered (.problem 400 ("capture response body: " ++ e))
      | none => .storing key (capture config.hash requestHash response) response

def step (config : IdempotencyConfig) (request : Request) (s : State) : Choice → Option State
  | .arrive caller =>
    match s.stages caller with
    | none => some (s.go caller (lookup config s.store request))
    | some _ => none
  | .respond caller response failure =>
    match s.stages caller with
    | some (.calling recording) =>
      some ({ s with
        completions :=
          if isSuccess response.status && failure.isNone then s.completions ++ [(caller, response)]
          else s.completions }.go caller (record config recording response failure))
    | _ => none
  | .put caller =>
    match s.stages caller with
    | some (.storing key record response) =>
      some ({ s with store := s.store.insert key record }.go caller (.answered (.response response)))
    | _ => none

structure Replays (answer original : Response) : Prop where
  status : answer.status = original.status
  body : answer.body = original.body
  headers : ∀ name, name ≠ REPLAY_HEADER →
    answer.headers.getAll name = original.headers.getAll name
  marker : answer.headers.getAll REPLAY_HEADER = ["true".toUTF8.toList]

structure ExecutedOnce (s : State) : Prop where
  once : s.completions.length ≤ 1
  replayed : ∀ caller response, s.stages caller = some (.answered (.response response)) →
    isSuccess response.status = true →
    ∃ winner original, s.completions = [(winner, original)] ∧
      (caller = winner → response = original) ∧ (caller ≠ winner → Replays response original)

def Stage.pending : Stage → Bool
  | .calling _ | .storing _ _ _ => true
  | .answered _ => false

def Plain (headers : HeaderMap) : Prop :=
  (headers.map Prod.fst).Nodup ∧ ∀ header ∈ headers, (toStr header.2).isSome = true

def Alone (config : IdempotencyConfig) (request : Request) (s : State) : Choice → Prop
  | .arrive _ => request.key ≠ "" ∧ request.method ∈ config.methods ∧
      ∀ caller stage, s.stages caller = some stage → stage.pending = false
  | .respond _ response _ => isSuccess response.status = true → Plain response.headers
  | .put _ => True

end Firefly.Web
