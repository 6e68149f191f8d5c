import Firefly.Shared.Text
import Firefly.Shared.Usize

set_option autoImplicit false

-- Every call on the broker takes the lock once, so that calls are served one after the other.

namespace Firefly.Eda

structure Event where
  id : String
  eventType : String
  source : String
  topic : String
  correlationId : String
  headers : Std.TreeMap String String
  payload : Option (List UInt8)
  key : Option (List UInt8)

structure FireflyError where
  code : String
  detail : String
deriving DecidableEq, Repr

inductive EdaError where
  | closed
  | handler (error : FireflyError)
deriving DecidableEq, Repr

end Firefly.Eda

namespace Firefly.Eda.InMemory

structure Subscription (H : Type) where
  matcher : String → Bool
  group : Option String
  handler : H

structure InMemoryBroker (H : Type) where
  subscriptions : List (Subscription H)
  groupCursors : String × String → Option Usize
  closed : Bool

structure Matches (H : Type) where
  toInvoke : List (Subscription H)
  groups : List String
  groupMatches : String → List (Subscription H)

structure Reply (H : Type) where
  ran : List (Subscription H)
  result : Except EdaError Unit

inductive Call (H : Type) where
  | subscribe (topic : String) (handler : H)
  | subscribeGroup (topic group : String) (handler : H)
  -- `order` is the order in which the map of the groups is gone through.
  | publish (event : Event) (order : List String)
  | close

section Broker

variable {H : Type}

def InMemoryBroker.new : InMemoryBroker H where
  subscriptions := []
  groupCursors := fun _ => none
  closed := false

def Matches.new : Matches H where
  toInvoke := []
  groups := []
  groupMatches := fun _ => []

def Matches.note (topic : String) (found : Matches H) (sub : Subscription H) : Matches H :=
  if !sub.matcher topic then found
  else
    match sub.group with
    | none => { found with toInvoke := found.toInvoke ++ [sub] }
    | some group =>
      { found with
        groups := if group ∈ found.groups then found.groups else found.groups ++ [group]
        groupMatches := Function.update found.groupMatches group (found.groupMatches group ++ [sub]) }

def InMemoryBroker.matching (broker : InMemoryBroker H) (topic : String) : Matches H :=
  broker.subscriptions.foldl (Matches.note topic) Matches.new

def cursorOf (cursors : String × String → Option Usize) (topic group : String) : Usize :=
  (cursors (topic, group)).getD 0

-- The list of a group that the map holds is never empty, so the index is one of it.
def pickMembers (topic : String) (members : String → List (Subscription H)) :
    (String × String → Option Usize) → List String →
      (String × String → Option Usize) × List (Subscription H)
  | cursors, [] => (cursors, [])
  | cursors, group :: rest =>
    let cursor := cursorOf cursors topic group
    let advanced := Function.update cursors (topic, group) (some (cursor + 1))
    let (final, picked) := pickMembers topic members advanced rest
    (final, (members group)[cursor.toNat % (members group).length]?.toList ++ picked)

def InMemoryBroker.selectHandlers (broker : InMemoryBroker H) (topic : String) (order : List String) :
    Except EdaError (InMemoryBroker H × List (Subscription H)) :=
  if broker.closed then .error .closed
  else
    let found := broker.matching topic
    let (cursors, picked) := pickMembers topic found.groupMatches broker.groupCursors order
    .ok ({ broker with groupCursors := cursors }, found.toInvoke ++ picked)

section Calls

variable (glob : String → Except String (String → Bool))
variable (invoke : H → Event → Except FireflyError Unit)

def dispatch (event : Event) : List (Subscription H) → Reply H
  | [] => { ran := [], result := .ok () }
  | sub :: rest =>
    match invoke sub.handler event with
    | .error err => { ran := [sub], result := .error (.handler err) }
    | .ok () => { dispatch event rest with ran := sub :: (dispatch event rest).ran }

def InMemoryBroker.publish (broker : InMemoryBroker H) (event : Event) (order : List String) :
    InMemoryBroker H × Reply H :=
  match broker.selectHandlers event.topic order with
  | .error err => (broker, { ran := [], result := .error err })
  | .ok (next, toInvoke) => (next, dispatch invoke event toInvoke)

def invalidPattern (topic err : String) : FireflyError where
  code := "https://fireflyframework.org/problems/bad-request"
  detail := "firefly/eda: invalid topic pattern " ++ Text.debugStr topic ++ ": " ++ err

-- The pattern is compiled before the lock is taken and the flag is looked at.
def InMemoryBroker.addSubscription (broker : InMemoryBroker H) (topic : String)
    (group : Option String) (handler : H) : InMemoryBroker H × Reply H :=
  match glob topic with
  | .error err => (broker, { ran := [], result := .error (.handler (invalidPattern topic err)) })
  | .ok matcher =>
    if broker.closed then (broker, { ran := [], result := .error .closed })
    else
      ({ broker with subscriptions := broker.subscriptions ++ [⟨matcher, group, handler⟩] },
        { ran := [], result := .ok () })

def InMemoryBroker.close (_broker : InMemoryBroker H) : InMemoryBroker H where
  subscriptions := []
  groupCursors := fun _ => none
  closed := true

-- `none`: the map is not gone through in such an order.
def InMemoryBroker.answer (broker : InMemoryBroker H) : Call H → Option (InMemoryBroker H × Reply H)
  | .subscribe topic handler => some (broker.addSubscription glob topic none handler)
  | .subscribeGroup topic group handler =>
    some (broker.addSubscription glob topic (some group) handler)
  | .publish event order =>
    if order.Perm (broker.matching event.topic).groups then some (broker.publish invoke event order)
    else none
  | .close => some (broker.close, { ran := [], result := .ok () })

structure Entry (H : Type) where
  before : InMemoryBroker H
  call : Call H
  reply : Reply H

def InMemoryBroker.serve : InMemoryBroker H → List (Call H) → Option (List (Entry H))
  | _, [] => some []
  | broker, call :: calls =>
    (broker.answer glob invoke call).bind fun (next, reply) =>
      (serve next calls).map fun log => { before := broker, call, reply } :: log

end Calls

end Broker

end Firefly.Eda.InMemory
