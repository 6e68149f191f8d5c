import Firefly.Shared.Json

set_option autoImplicit false

namespace Firefly.Session.Layer

open Json

abbrev SessionData := Std.TreeMap String Value

def CREATED_AT_KEY : String := "_created_at"
def LAST_ACCESSED_KEY : String := "_last_accessed"

/-- `lineage` is no field of the source: it is the id that the session was created under, which every
later id of it keeps. -/
structure SessionInner where
  id : Nat
  previousId : Option Nat
  isNew : Bool
  invalidated : Bool
  modified : Bool
  data : SessionData
  lineage : Nat

namespace SessionInner

def new (id : Nat) (now : Int) : SessionInner :=
  { id, previousId := none, isNew := true, invalidated := false, modified := true
    data := ((∅ : SessionData).insert CREATED_AT_KEY (.int now)).insert LAST_ACCESSED_KEY (.int now)
    lineage := id }

-- The refreshed access time alone does not make the session modified.
def load (id : Nat) (data : SessionData) (lineage : Nat) (now : Int) : SessionInner :=
  { id, previousId := none, isNew := false, invalidated := false, modified := false
    data := (data.insertIfNew CREATED_AT_KEY (.int now)).insert LAST_ACCESSED_KEY (.int now)
    lineage }

def setAttributeValue (self : SessionInner) (name : String) (value : Value) : SessionInner :=
  { self with data := self.data.insert name value, modified := true }

def removeAttribute (self : SessionInner) (name : String) : SessionInner :=
  if self.data.contains name then { self with data := self.data.erase name, modified := true }
  else self

def rotateId (self : SessionInner) (newSessionId : Nat) : SessionInner :=
  if self.invalidated then self
  else { self with previousId := some self.id, id := newSessionId, modified := true }

def invalidate (self : SessionInner) : SessionInner :=
  { self with invalidated := true, modified := true }

end SessionInner

inductive Op where
  | set (name : String) (value : Value)
  | remove (name : String)
  | rotateId
  | invalidate
deriving DecidableEq, Repr

def Op.apply (state : SessionInner × Nat) : Op → SessionInner × Nat
  | .set name value => (state.1.setAttributeValue name value, state.2)
  | .remove name => (state.1.removeAttribute name, state.2)
  | .rotateId => (state.1.rotateId state.2, state.2 + 1)
  | .invalidate => (state.1.invalidate, state.2)

structure Stored where
  data : SessionData
  lineage : Nat

structure Visit where
  loaded : Option Nat
  known : Nat → Bool
  inner : SessionInner

inductive Stage where
  | dropping (id : Nat)
  | handling (visit : Visit)
  | deletingPrevious (visit : Visit) (previous : Nat)
  | settling (visit : Visit)

/-- `owner` remembers which session an id was ever stored for, `buried` which stored ids a request
has rotated away or invalidated, and `retired` what each completed request that rotated or
invalidated its session owes: the ids that must not resolve any more. -/
structure State where
  store : Nat → Option Stored
  fresh : Nat
  stages : Nat → Option Stage
  owner : Nat → Option Nat
  buried : Nat → Bool
  retired : List (Nat → Bool)

def start : State :=
  { store := fun _ => none, fresh := 0, stages := fun _ => none, owner := fun _ => none
    buried := fun _ => false, retired := [] }

inductive Choice where
  | arrive (request : Nat) (cookieId : Option Nat) (stale : Bool) (now : Int)
  | drop (request : Nat) (now : Int)
  | handle (request : Nat) (ops : List Op)
  | persist (request : Nat)
  | expire (id : Nat)

namespace State

def put (s : State) (request : Nat) (stage : Option Stage) : State :=
  { s with stages := Function.update s.stages request stage }

def delete (s : State) (id : Nat) : State :=
  { s with store := Function.update s.store id none }

def bury (s : State) (id : Nat) : State :=
  { s.delete id with buried := fun other => s.buried other || other == id && (s.owner id).isSome }

def save (s : State) (inner : SessionInner) : State :=
  { s with
    store := Function.update s.store inner.id (some { data := inner.data, lineage := inner.lineage })
    owner := Function.update s.owner inner.id (some inner.lineage) }

def create (s : State) (request : Nat) (now : Int) : State :=
  { s with fresh := s.fresh + 1 }.put request
    (some (.handling
      { loaded := none, known := fun _ => false, inner := SessionInner.new s.fresh now }))

def issued (inner : SessionInner) : Option Nat :=
  if inner.invalidated then none else some inner.id

def complete (s : State) (request : Nat) (visit : Visit) : State :=
  { s.put request none with
    retired :=
      if visit.inner.previousId.isSome || visit.inner.invalidated then
        s.retired ++ [fun id => visit.known id && issued visit.inner != some id]
      else s.retired }

def settle (s : State) (request : Nat) (visit : Visit) : State :=
  if visit.inner.invalidated || visit.inner.modified then s.put request (some (.settling visit))
  else s.complete request visit

def handled (s : State) (request : Nat) (visit : Visit) (ops : List Op) : State :=
  let (inner, fresh) := ops.foldl Op.apply (visit.inner, s.fresh)
  let visit := { visit with inner }
  let s := { s with fresh }
  match inner.previousId with
  | some previous =>
    if previous ≠ inner.id then s.put request (some (.deletingPrevious visit previous))
    else s.settle request visit
  | none => s.settle request visit

end State

def step (s : State) : Choice → Option State
  | .arrive request cookieId stale now =>
    some (if (s.stages request).isSome then s
      else
        match cookieId with
        | none => s.create request now
        | some id =>
          match s.store id with
          | none => s.create request now
          | some stored =>
            if stale then s.put request (some (.dropping id))
            else s.put request (some (.handling
              { loaded := some id
                known := fun other => s.owner other == some stored.lineage
                inner := SessionInner.load id stored.data stored.lineage now })))
  | .drop request now =>
    some (match s.stages request with
      | some (.dropping id) => (s.delete id).create request now
      | _ => s)
  | .handle request ops =>
    some (match s.stages request with
      | some (.handling visit) => s.handled request visit ops
      | _ => s)
  | .persist request =>
    some (match s.stages request with
      | some (.deletingPrevious visit previous) => (s.bury previous).settle request visit
      | some (.settling visit) =>
        if visit.inner.invalidated then (s.bury visit.inner.id).complete request visit
        else (s.save visit.inner).complete request visit
      | _ => s)
  -- the time to live of an entry runs out
  | .expire id => some (s.delete id)

def RetiredDead (s : State) : Prop :=
  ∀ dead ∈ s.retired, ∀ id, dead id = true → s.store id = none

def rotations (ops : List Op) : Nat := (ops.takeWhile (· ≠ .invalidate)).count .rotateId

def Undisturbed (s : State) : Choice → Prop
  | .handle request ops => ∀ visit, s.stages request = some (.handling visit) →
      visit.loaded.isSome → rotations ops ≤ 1
  | .persist request =>
      (∀ visit previous, s.stages request = some (.deletingPrevious visit previous) →
        visit.inner.invalidated = false → s.buried previous = false) ∧
      ∀ visit, s.stages request = some (.settling visit) →
        visit.inner.previousId = none → visit.inner.invalidated = false →
        s.buried visit.inner.id = false
  | _ => True

end Firefly.Session.Layer
