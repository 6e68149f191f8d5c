import Firefly.Session.Layer
import Firefly.Shared.Runs
import Firefly.Shared.Tables

set_option autoImplicit false

namespace Firefly.Security.Bridge

open Runs Json Tables Session.Layer

abbrev Store := Nat → Option SessionData

def persist (store : Store) (inner : SessionInner) : Store :=
  let cleared := match inner.previousId with
    | some prev => if prev ≠ inner.id then Function.update store prev none else store
    | none => store
  if inner.invalidated then Function.update cleared inner.id none
  else Function.update cleared inner.id (some inner.data)

/-- What a request was given: `cookie` with what was `stored` under it, and the session `shown`; ids
from `minted` on were not in use. -/
structure Resolution where
  cookie : Option Nat
  stored : Option SessionData
  minted : Nat
  shown : SessionInner

structure Write where
  name : String
  value : String
  inner : SessionInner
  stored : Option SessionData

/-- `resolved` is the cache, by the id at resolution time: the handle is known by that id. A request
has its handle, and whether it carried an id that was not stored. -/
structure State where
  store : Store
  resolved : Nat → Option SessionInner
  requests : Nat → Option (Nat × Bool)
  nextId : Nat
  resolutions : List Resolution
  writes : List Write

def start : State where
  store := fun _ => none
  resolved := fun _ => none
  requests := fun _ => none
  nextId := 0
  resolutions := []
  writes := []

inductive Op where
  | setAttribute (name value : String)
  | removeAttribute (name : String)
  | rotateId
  | invalidate
deriving DecidableEq, Repr

def Op.apply (inner : SessionInner) (nextId : Nat) : Op → SessionInner × Nat
  | .setAttribute name value => (inner.setAttributeValue name (.string value), nextId)
  | .removeAttribute name => (inner.removeAttribute name, nextId)
  | .rotateId => (inner.rotateId nextId, nextId + 1)
  | .invalidate => (inner.invalidate, nextId)

/-- The last four happen elsewhere: a session is created, written or deleted (or it expires), or
somebody makes up an id. -/
inductive Choice where
  | session (request : Nat) (cookie : Option Nat) (now : Int)
  | operate (request : Nat) (op : Op)
  | create (data : SessionData)
  | write (id : Nat) (data : SessionData)
  | delete (id : Nat)
  | makeUp

def resolve (s : State) (cookie : Option Nat) (now : Int) : Nat × SessionInner × Nat :=
  match cookie with
  | some id =>
    match s.resolved id with
    | some existing => (id, existing, s.nextId)
    | none =>
      match s.store id with
      | some data => (id, SessionInner.load id data id now, s.nextId)
      | none => (s.nextId, SessionInner.new s.nextId now, s.nextId + 1)
  | none => (s.nextId, SessionInner.new s.nextId now, s.nextId + 1)

def recordWrite (orphan : Bool) (inner : SessionInner) (store : Store) : Op → List Write
  | .setAttribute name value =>
    if orphan then [{ name, value, inner, stored := store inner.id }] else []
  | _ => []

def step (s : State) : Choice → Option State
  | .session request cookie now =>
    match s.requests request with
    | some _ => none
    | none =>
      -- an id that nobody has drawn yet cannot be carried
      if cookie.all (· < s.nextId) then
        let (key, inner, nextId) := resolve s cookie now
        some { s with
          resolved := Function.update s.resolved key (some inner)
          requests := Function.update s.requests request
            (some (key, cookie.any fun id => (s.store id).isNone))
          nextId
          resolutions := { cookie, stored := cookie.bind s.store, minted := s.nextId,
                           shown := inner } :: s.resolutions }
      else none
  | .operate request op =>
    match s.requests request with
    | none => none
    | some (key, orphan) =>
      match s.resolved key with
      | none => none
      | some inner =>
        let (inner, nextId) := op.apply inner s.nextId
        let store := persist s.store inner
        some { s with
          store
          resolved := Function.update s.resolved key (some inner)
          nextId
          writes := recordWrite orphan inner store op ++ s.writes }
  | .create data =>
    some { s with store := Function.update s.store s.nextId (some data), nextId := s.nextId + 1 }
  | .write id data =>
    if id < s.nextId then some { s with store := Function.update s.store id (some data) } else none
  | .delete id => some { s with store := Function.update s.store id none }
  | .makeUp => some { s with nextId := s.nextId + 1 }

def SameAttributes (data stored : SessionData) : Prop :=
  ∀ name, name ≠ CREATED_AT_KEY → name ≠ LAST_ACCESSED_KEY → data[name]? = stored[name]?

def Resolution.Right (r : Resolution) : Prop :=
  match r.stored with
  | some data => SameAttributes r.shown.data data
  | none => r.minted ≤ r.shown.id ∧ SameAttributes r.shown.data ∅

def Write.Live (w : Write) : Prop :=
  w.inner.invalidated = false ∧
    ∃ data, w.stored = some data ∧ data[w.name]? = some (.string w.value)

structure ShowsStore (s : State) : Prop where
  resolutions : ∀ r ∈ s.resolutions, r.Right
  writes : ∀ w ∈ s.writes, w.Live

/-- A handle is found in the cache only while it has the id it was resolved for, is valid and in the
store; it is changed only while no other handle was resolved for its id; no other write goes to the
id of a valid handle; and an invalidated one is not written to on behalf of an unknown cookie. -/
def Coherent (s : State) : Choice → Prop
  | .session _ cookie _ => ∀ id inner, cookie = some id → s.resolved id = some inner →
      inner.id = id ∧ inner.invalidated = false ∧ s.store id ≠ none
  | .operate request op => ∀ key orphan inner, s.requests request = some (key, orphan) →
      s.resolved key = some inner →
      (inner.id = key ∨ inner.invalidated = true ∨ op = .rotateId ∨ op = .invalidate ∨
        s.resolved inner.id = none) ∧
      (orphan = true → inner.invalidated = true → ∀ name value, op ≠ .setAttribute name value)
  | .write id _ => ∀ inner, s.resolved id = some inner → inner.id ≠ id ∨ inner.invalidated = true
  | _ => True

section Coherence

variable {s s' : State}

structure InStep (s : State) : Prop where
  handles : ∀ key inner, s.resolved key = some inner → key < s.nextId ∧ inner.id < s.nextId
  stored : ∀ id data, s.store id = some data → id < s.nextId
  synced : ∀ key inner data, s.resolved key = some inner → inner.id = key →
    inner.invalidated = false → s.store key = some data → SameAttributes inner.data data
  shows : ShowsStore s

theorem sameAttributes_load (id lineage : Nat) (data : SessionData) (now : Int) :
    SameAttributes (SessionInner.load id data lineage now).data data := by
  intro name created accessed
  simp [SessionInner.load, Std.TreeMap.getElem?_insert, Std.TreeMap.getElem?_insertIfNew,
    Ne.symm created, Ne.symm accessed]

theorem sameAttributes_new (id : Nat) (now : Int) :
    SameAttributes (SessionInner.new id now).data ∅ := by
  intro name created accessed
  simp [SessionInner.new, Ne.symm created, Ne.symm accessed]

theorem persist_eq_some {store : Store} {inner : SessionInner} {id : Nat} {data : SessionData}
    (kept : persist store inner id = some data) :
    (id = inner.id ∧ inner.invalidated = false ∧ data = inner.data) ∨
      (id ≠ inner.id ∧ store id = some data) := by
  have cleared : ∀ prev, (if prev ≠ inner.id then Function.update store prev none else store) id =
      some data → store id = some data := by
    intro prev there
    by_cases rotated : prev ≠ inner.id
    · rw [if_pos rotated] at there
      exact (update_none_eq_some.mp there).2
    · rwa [if_neg rotated] at there
  cases before : inner.previousId <;> cases spent : inner.invalidated <;>
    simp only [persist, before, spent, if_true, Bool.false_eq_true, if_false, update_eq_some,
      update_none_eq_some] at kept
  case none.false =>
    rcases kept with ⟨own, rfl⟩ | ⟨apart, there⟩
    · exact .inl ⟨own, rfl, rfl⟩
    · exact .inr ⟨apart, there⟩
  case none.true => exact .inr kept
  case some.false prev =>
    rcases kept with ⟨own, rfl⟩ | ⟨apart, there⟩
    · exact .inl ⟨own, rfl, rfl⟩
    · exact .inr ⟨apart, cleared prev there⟩
  case some.true prev => exact .inr ⟨kept.1, cleared prev kept.2⟩

theorem InStep.session (inStep : InStep s) {request : Nat} {cookie : Option Nat} {now : Int}
    (coherent : Coherent s (.session request cookie now))
    (drawn : cookie.all (· < s.nextId) = true) :
    InStep { s with
      resolved := Function.update s.resolved (resolve s cookie now).1
        (some (resolve s cookie now).2.1)
      requests := Function.update s.requests request
        (some ((resolve s cookie now).1, cookie.any fun id => (s.store id).isNone))
      nextId := (resolve s cookie now).2.2
      resolutions := { cookie, stored := cookie.bind s.store, minted := s.nextId,
                       shown := (resolve s cookie now).2.1 } :: s.resolutions } := by
  -- a fresh session has an id that nothing is stored or cached under
  have fresh : cookie.bind s.store = none →
      resolve s cookie now = (s.nextId, SessionInner.new s.nextId now, s.nextId + 1) →
      InStep { s with
        resolved := Function.update s.resolved s.nextId (some (SessionInner.new s.nextId now))
        requests := Function.update s.requests request
          (some (s.nextId, cookie.any fun id => (s.store id).isNone))
        nextId := s.nextId + 1
        resolutions := { cookie, stored := cookie.bind s.store, minted := s.nextId,
                         shown := SessionInner.new s.nextId now } :: s.resolutions } := by
    intro unstored _
    refine ⟨fun key inner found => ?_, fun id data kept => Nat.lt_succ_of_lt (inStep.stored id data kept),
      fun key inner data found own valid kept => ?_, ⟨fun r among => ?_, inStep.shows.writes⟩⟩
    · rcases update_eq_some.mp found with ⟨rfl, rfl⟩ | ⟨_, before⟩
      · exact ⟨Nat.lt_succ_self _, Nat.lt_succ_self _⟩
      · have bounds := inStep.handles key inner before
        exact ⟨Nat.lt_succ_of_lt bounds.1, Nat.lt_succ_of_lt bounds.2⟩
    · rcases update_eq_some.mp found with ⟨rfl, _⟩ | ⟨_, before⟩
      · exact absurd (inStep.stored _ data kept) (Nat.lt_irrefl _)
      · exact inStep.synced key inner data before own valid kept
    · rcases List.mem_cons.mp among with rfl | earlier
      · simp only [Resolution.Right, unstored]
        exact ⟨le_refl _, sameAttributes_new _ _⟩
      · exact inStep.shows.resolutions r earlier
  cases cookie with
  | none => exact fresh rfl rfl
  | some id =>
    have bound : id < s.nextId := by simpa using drawn
    cases cached : s.resolved id with
    | some existing =>
      have found : resolve s (some id) now = (id, existing, s.nextId) := by simp [resolve, cached]
      obtain ⟨own, valid, present⟩ := coherent id existing rfl cached
      obtain ⟨data, stored⟩ := Option.ne_none_iff_exists'.mp present
      rw [found]
      have same : Function.update s.resolved id (some existing) = s.resolved := by
        rw [← cached, Function.update_eq_self]
      rw [same]
      refine ⟨inStep.handles, inStep.stored, inStep.synced, ⟨fun r among => ?_, inStep.shows.writes⟩⟩
      rcases List.mem_cons.mp among with rfl | earlier
      · simp only [Resolution.Right, Option.bind_some, stored]
        exact inStep.synced id existing data cached own valid stored
      · exact inStep.shows.resolutions r earlier
    | none =>
      cases stored : s.store id with
      | none =>
        have found : resolve s (some id) now =
            (s.nextId, SessionInner.new s.nextId now, s.nextId + 1) := by
          simp [resolve, cached, stored]
        rw [found]
        exact fresh (by simp [stored]) found
      | some data =>
        have found : resolve s (some id) now =
            (id, SessionInner.load id data id now, s.nextId) := by simp [resolve, cached, stored]
        rw [found]
        refine ⟨fun key inner there => ?_, inStep.stored, fun key inner kept there own valid held => ?_,
          ⟨fun r among => ?_, inStep.shows.writes⟩⟩
        · rcases update_eq_some.mp there with ⟨rfl, rfl⟩ | ⟨_, before⟩
          · exact ⟨bound, bound⟩
          · exact inStep.handles key inner before
        · rcases update_eq_some.mp there with ⟨rfl, rfl⟩ | ⟨_, before⟩
          · obtain rfl := Option.some.inj (stored.symm.trans held)
            exact sameAttributes_load key key data now
          · exact inStep.synced key inner kept before own valid held
        · rcases List.mem_cons.mp among with rfl | earlier
          · simp only [Resolution.Right, Option.bind_some, stored]
            exact sameAttributes_load id id data now
          · exact inStep.shows.resolutions r earlier

theorem apply_ids (inner : SessionInner) (nextId : Nat) (op : Op) :
    nextId ≤ (op.apply inner nextId).2 ∧
      ((op.apply inner nextId).1.id = inner.id ∨
        (op.apply inner nextId).1.id = nextId ∧ op = .rotateId ∧ nextId < (op.apply inner nextId).2) := by
  cases op with
  | setAttribute name value => exact ⟨le_refl _, .inl rfl⟩
  | removeAttribute name =>
    refine ⟨le_refl _, .inl ?_⟩
    simp only [Op.apply, SessionInner.removeAttribute]
    split <;> rfl
  | rotateId =>
    refine ⟨Nat.le_succ _, ?_⟩
    by_cases spent : inner.invalidated = true
    · exact .inl (congrArg SessionInner.id (if_pos spent))
    · exact .inr ⟨congrArg SessionInner.id (if_neg spent), rfl, Nat.lt_succ_self _⟩
  | invalidate => exact ⟨le_refl _, .inl rfl⟩

theorem InStep.operate (inStep : InStep s) {request key : Nat} {orphan : Bool} {op : Op}
    {inner : SessionInner} (coherent : Coherent s (.operate request op))
    (asked : s.requests request = some (key, orphan)) (cached : s.resolved key = some inner) :
    InStep { s with
      store := persist s.store (op.apply inner s.nextId).1
      resolved := Function.update s.resolved key (some (op.apply inner s.nextId).1)
      nextId := (op.apply inner s.nextId).2
      writes := recordWrite orphan (op.apply inner s.nextId).1
        (persist s.store (op.apply inner s.nextId).1) op ++ s.writes } := by
  obtain ⟨alone, valid_write⟩ := coherent key orphan inner asked cached
  obtain ⟨later, ids⟩ := apply_ids inner s.nextId op
  have bounds := inStep.handles key inner cached
  have applied : (op.apply inner s.nextId).1.id < (op.apply inner s.nextId).2 := by
    rcases ids with same | ⟨same, _, more⟩ <;> omega
  refine ⟨fun other found there => ?_, fun id data kept => ?_, fun other found data there own valid kept => ?_,
    ⟨inStep.shows.resolutions, fun w among => ?_⟩⟩
  · rcases update_eq_some.mp there with ⟨rfl, rfl⟩ | ⟨_, before⟩
    · exact ⟨Nat.lt_of_lt_of_le bounds.1 later, applied⟩
    · have known := inStep.handles other found before
      exact ⟨Nat.lt_of_lt_of_le known.1 later, Nat.lt_of_lt_of_le known.2 later⟩
  · rcases persist_eq_some kept with ⟨rfl, _, _⟩ | ⟨_, before⟩
    · exact applied
    · exact Nat.lt_of_lt_of_le (inStep.stored id data before) later
  · rcases update_eq_some.mp there with ⟨rfl, rfl⟩ | ⟨same, there'⟩
    · rcases persist_eq_some kept with ⟨_, _, rfl⟩ | ⟨apart, _⟩
      · exact fun _ _ _ => rfl
      · exact absurd own.symm apart
    · rcases persist_eq_some kept with ⟨rfl, unspent, rfl⟩ | ⟨_, before⟩
      · -- another handle was resolved for the id that this one is saved under
        exfalso
        rcases ids with kept_id | ⟨fresh, _, _⟩
        · rw [kept_id] at there'
          rcases alone with ownKey | spent | rotated | ended | nobody
          · exact same (kept_id.trans ownKey)
          · have still : (op.apply inner s.nextId).1.invalidated = true := by
              cases op <;> simp [Op.apply, SessionInner.setAttributeValue, SessionInner.removeAttribute,
                SessionInner.rotateId, SessionInner.invalidate, spent]
              split <;> simp [spent]
            rw [still] at unspent
            cases unspent
          · subst rotated
            simp only [Op.apply, SessionInner.rotateId] at kept_id unspent
            split at kept_id
            next spent =>
              rw [if_pos spent, spent] at unspent
              cases unspent
            · simp only at kept_id
              omega
          · subst ended
            cases unspent
          · cases nobody.symm.trans there'
        · have known := inStep.handles _ _ there'
          omega
      · exact inStep.synced other found data there' own valid before
  · rcases List.mem_append.mp among with now | earlier
    · cases op with
      | setAttribute name value =>
        simp only [recordWrite] at now
        split at now
        next unknown =>
          obtain rfl := List.mem_singleton.mp now
          have valid : inner.invalidated = false := by
            by_contra spent
            exact valid_write unknown (by simpa using spent) name value rfl
          refine ⟨valid, inner.data.insert name (.string value), ?_, by simp⟩
          simp [persist, Op.apply, SessionInner.setAttributeValue, valid]
        next => simp at now
      | _ => simp [recordWrite] at now
    · exact inStep.shows.writes w earlier

theorem InStep.step (inStep : InStep s) {choice : Choice} (coherent : Coherent s choice)
    (stepped : Bridge.step s choice = some s') : InStep s' := by
  cases choice with
  | session request cookie now =>
    simp only [Bridge.step] at stepped
    split at stepped
    · cases stepped
    · split at stepped
      next drawn =>
        obtain rfl := Option.some.inj stepped
        exact inStep.session coherent drawn
      next => cases stepped
  | operate request op =>
    simp only [Bridge.step] at stepped
    split at stepped
    · cases stepped
    next key orphan asked =>
      split at stepped
      · cases stepped
      next inner cached =>
        obtain rfl := Option.some.inj stepped
        exact inStep.operate coherent asked cached
  | create data =>
    obtain rfl := Option.some.inj stepped
    refine ⟨fun key inner found => ?_, fun id other kept => ?_, fun key inner other found own valid kept => ?_,
      ⟨inStep.shows.resolutions, inStep.shows.writes⟩⟩
    · have known := inStep.handles key inner found
      exact ⟨Nat.lt_succ_of_lt known.1, Nat.lt_succ_of_lt known.2⟩
    · rcases update_eq_some.mp kept with ⟨rfl, _⟩ | ⟨_, before⟩
      · exact Nat.lt_succ_self _
      · exact Nat.lt_succ_of_lt (inStep.stored id other before)
    · have known := (inStep.handles key inner found).1
      rcases update_eq_some.mp kept with ⟨rfl, _⟩ | ⟨_, before⟩
      · exact absurd known (Nat.lt_irrefl _)
      · exact inStep.synced key inner other found own valid before
  | write id data =>
    simp only [Bridge.step] at stepped
    split at stepped
    next drawn =>
      obtain rfl := Option.some.inj stepped
      refine ⟨inStep.handles, fun other kept held => ?_, fun key inner kept found own valid held => ?_,
        ⟨inStep.shows.resolutions, inStep.shows.writes⟩⟩
      · rcases update_eq_some.mp held with ⟨rfl, _⟩ | ⟨_, before⟩
        · exact drawn
        · exact inStep.stored other kept before
      · rcases update_eq_some.mp held with ⟨rfl, _⟩ | ⟨_, before⟩
        · rcases coherent inner found with apart | spent
          · exact absurd own apart
          · rw [valid] at spent
            cases spent
        · exact inStep.synced key inner kept found own valid before
    next => cases stepped
  | delete id =>
    obtain rfl := Option.some.inj stepped
    exact ⟨inStep.handles,
      fun other kept held => inStep.stored other kept (update_none_eq_some.mp held).2,
      fun key inner kept found own valid held =>
        inStep.synced key inner kept found own valid (update_none_eq_some.mp held).2,
      ⟨inStep.shows.resolutions, inStep.shows.writes⟩⟩
  | makeUp =>
    obtain rfl := Option.some.inj stepped
    refine ⟨fun key inner found => ?_, fun id data kept => Nat.lt_succ_of_lt (inStep.stored id data kept),
      inStep.synced, ⟨inStep.shows.resolutions, inStep.shows.writes⟩⟩
    have known := inStep.handles key inner found
    exact ⟨Nat.lt_succ_of_lt known.1, Nat.lt_succ_of_lt known.2⟩

theorem inStep_start : InStep start where
  handles := by simp [start]
  stored := by simp [start]
  synced := by simp [start]
  shows := ⟨by simp [start], by simp [start]⟩

end Coherence

theorem bridge_shows_store (choices : List Choice)
    (coherent : Along Bridge.step Coherent start choices) :
    Always Bridge.step ShowsStore start choices := by
  have always := coherent.always InStep
    (fun _ _ _ allowed inStep stepped => inStep.step allowed stepped) inStep_start
  exact always.mono fun _ inStep => inStep.shows

def login : List Choice :=
  [.session 0 none 5, .operate 0 (.setAttribute "SECURITY_CONTEXT" "ada"), .operate 0 .rotateId]

theorem bridge_shows_store_rotated :
    Always Bridge.step ShowsStore start (login ++ [.session 1 (some 1) 7]) := by
  refine bridge_shows_store _ ?_
  refine ⟨fun id inner cookie => (by cases cookie), ?_⟩
  rintro _ ⟨⟩
  refine ⟨?_, ?_⟩
  · rintro key orphan inner ⟨⟩ ⟨⟩
    exact ⟨.inl rfl, fun orphaned => by cases orphaned⟩
  rintro _ ⟨⟩
  refine ⟨?_, ?_⟩
  · rintro key orphan inner ⟨⟩ ⟨⟩
    exact ⟨.inl rfl, fun orphaned => by cases orphaned⟩
  rintro _ ⟨⟩
  refine ⟨?_, fun _ _ => trivial⟩
  rintro id inner ⟨⟩ cached
  cases cached

-- The old id still finds the handle, whose session has the new id by now.
theorem rotated_session_resolved_by_old_id :
    ¬ ∀ choices, Always Bridge.step ShowsStore start choices := by
  intro always
  obtain ⟨s, ran, r, rest, resolved, gone, minted, id⟩ : ∃ s,
      run Bridge.step start (login ++ [.session 1 (some 0) 7]) = some s ∧
      ∃ r rest, s.resolutions = r :: rest ∧ r.stored = none ∧ r.minted = 2 ∧ r.shown.id = 1 :=
    ⟨_, rfl, _, _, rfl, rfl, rfl, rfl⟩
  have right := (always _ _ [] (List.append_nil _).symm s ran).resolutions r (by simp [resolved])
  simp [Resolution.Right, gone, minted, id] at right

end Firefly.Security.Bridge
