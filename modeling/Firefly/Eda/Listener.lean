import Firefly.Eda.Broker

set_option autoImplicit false

namespace Firefly.Eda

open InMemory

def HEADER_ORIGINAL_TOPIC : String := "x-original-topic"

def HEADER_EXCEPTION : String := "x-exception"

structure ListenerPolicy where
  retries : Nat
  deadLetterTopic : Option String
  deadLetterStore : Bool

structure EdaDeadLetterEntry where
  event : Event
  errorType : String
  errorMessage : String
  attempts : Nat

def deadLetterEvent (original : Event) (deadLetterTopic exceptionCode : String) : Event :=
  { original with
    headers := (original.headers.insert HEADER_ORIGINAL_TOPIC original.topic).insert
      HEADER_EXCEPTION exceptionCode
    topic := deadLetterTopic }

-- The handler of a subscription is an inner handler under the policy it was wrapped with. A step is one
-- call of an inner handler.

/-- A publication under way: the first listener of the queue is being tried, or waits for the
publication of its dead letter, which is the frame above. -/
structure Frame where
  event : Event
  queue : List (Subscription ListenerPolicy)
  attempt : Nat

structure State where
  broker : InMemoryBroker ListenerPolicy
  stack : List Frame
  captured : List EdaDeadLetterEntry
  routed : List Event
  result : Option (Except EdaError Unit)

-- The listener on top returns `Ok`: the next one of its event follows, or the publication returns
-- to the listener that dead-lettered.
def returnOk : List Frame → List Frame
  | [] => []
  | frame :: rest =>
    match frame.queue.tail with
    | [] => returnOk rest
    | queue => { frame with queue, attempt := 0 } :: rest

def State.proceed (s : State) (stack : List Frame) : State :=
  { s with stack, result := if stack.isEmpty then some (.ok ()) else none }

def State.publish (s : State) (event : Event) (order : List String) : State :=
  match s.broker.selectHandlers event.topic order with
  -- Only the first publication may find the broker closed.
  | .error err => { s with stack := [], result := some (.error err) }
  | .ok (broker, queue) => { s with broker }.proceed
      (if queue.isEmpty then returnOk s.stack else { event, queue, attempt := 0 } :: s.stack)

def start (broker : InMemoryBroker ListenerPolicy) (event : Event) (order : List String) : State :=
  State.publish { broker, stack := [], captured := [], routed := [], result := none } event order

/-- How the inner handler answers, and the order of the groups should an event be published. -/
structure Choice where
  outcome : Except FireflyError Unit
  order : List String

def State.capture (s : State) (sub : Subscription ListenerPolicy) (frame : Frame) (err : FireflyError) : State :=
  if sub.handler.deadLetterStore then
    { s with captured := s.captured ++ [{
        event := frame.event
        errorType := err.code
        errorMessage := err.detail
        attempts := frame.attempt + 1 }] }
  else s

def exhaust (s : State) (sub : Subscription ListenerPolicy) (frame : Frame) (err : FireflyError)
    (order : List String) : Option State :=
  let s := s.capture sub frame err
  match sub.handler.deadLetterTopic with
  | some topic =>
    let dlq := deadLetterEvent frame.event topic err.code
    if order.Perm (s.broker.matching topic).groups then
      some ({ s with routed := s.routed ++ [dlq] }.publish dlq order)
    else none
  | none =>
    if sub.handler.deadLetterStore then some (s.proceed (returnOk s.stack))
    -- the error ends the dispatch, and that of every publication below
    else some { s with stack := [], result := some (.error (.handler err)) }

def step (s : State) (choice : Choice) : Option State :=
  match s.stack with
  | [] => none
  | frame :: rest =>
    match frame.queue with
    | [] => none
    | sub :: _ =>
      match choice.outcome with
      | .ok () => some (s.proceed (returnOk s.stack))
      | .error err =>
        if frame.attempt < sub.handler.retries then
          some { s with stack := { frame with attempt := frame.attempt + 1 } :: rest }
        else exhaust s sub frame err choice.order

def deadLetterOf (s : State) (choice : Choice) : Option String :=
  match s.stack, choice.outcome with
  | { queue := sub :: _, attempt, .. } :: _, .error _ =>
    if attempt < sub.handler.retries then none else sub.handler.deadLetterTopic
  | _, _ => none

def FirstOnly (s : State) (choice : Choice) : Prop :=
  (deadLetterOf s choice).isSome = true → s.stack.length = 1

def NamesFirst (event : Event) (s : State) : Prop :=
  ∀ dlq ∈ s.routed, dlq.headers[HEADER_ORIGINAL_TOPIC]? = some event.topic

end Firefly.Eda
