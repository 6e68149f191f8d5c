import Firefly.Cqrs.Bus

set_option autoImplicit false

namespace Firefly.Cqrs

section Transparency

variable {M C R : Type} (messages : Messages M C) (hash : List UInt8 → String)
  (handlers : Nat → Option (M → Option C → Except CqrsError R)) (outer inner : List Check)

def answer (env : Envelope M C) : Except CqrsError R :=
  (dispatchEnvelope messages hash (uncachedBus handlers outer inner) env { asked := 0, stored := 0 }
    ∅).1

def Transparent (dispatches : List (Dispatch M C)) : Prop :=
  answers messages hash (cachedBus handlers outer inner) ∅ dispatches =
    dispatches.map fun dispatch => answer messages hash handlers outer inner dispatch.envelope

def runChecks : List Check → Envelope M C → Except CqrsError Unit
  | [], _ => .ok ()
  | check :: checks, env =>
    match runCheck messages check env with
    | .error e => .error e
    | .ok () => runChecks checks env

structure Reaches (env : Envelope M C) (key : String) : Prop where
  registered : (handlers (messages.typeId env.message)).isSome = true
  admitted : runChecks messages outer env = .ok ()
  cacheable : (cacheTtl messages env).isSome = true
  derived : env.cacheKeyOverride = none
  keyed : keyOf messages hash env = .ok key

/-- Dispatches that meet under one key are answered alike once one of them succeeds. -/
def KeyDecides : Prop :=
  ∀ first second key, Reaches messages hash handlers outer first key →
    Reaches messages hash handlers outer second key →
    ∀ result, answer messages hash handlers outer inner first = .ok result →
      answer messages hash handlers outer inner second = .ok result

def rest (handler : M → Option C → Except CqrsError R) (env : Envelope M C) : Except CqrsError R :=
  match runChecks messages inner env with
  | .error e => .error e
  | .ok () => handler env.message env.context

variable {messages hash handlers outer inner}
variable {env : Envelope M C} {times : Times} {cache : QueryCache R}
  {handler : M → Option C → Except CqrsError R}

theorem foldr_checks (checks : List Check) (next : DynHandler M C R) :
    (checks.map Middleware.check).foldr (wrap messages hash) next env times cache =
      match runChecks messages checks env with
      | .error e => (.error e, cache)
      | .ok () => next env times cache := by
  induction checks with
  | nil => rfl
  | cons check checks ih =>
    simp only [List.map_cons, List.foldr_cons, wrap, runChecks]
    cases runCheck messages check env with
    | error e => rfl
    | ok done => exact ih

theorem answer_eq (registered : handlers (messages.typeId env.message) = some handler) :
    answer messages hash handlers outer inner env =
      match runChecks messages outer env with
      | .error e => .error e
      | .ok () => rest messages inner handler env := by
  rw [answer, dispatchEnvelope]
  simp only [uncachedBus, registered, List.foldr_append, foldr_checks]
  cases runChecks messages outer env with
  | error e => rfl
  | ok done =>
    rw [rest]
    cases runChecks messages inner env <;> rfl

theorem inner_chain (handler : M → Option C → Except CqrsError R) :
    (inner.map Middleware.check).foldr (wrap messages hash)
        (fun env _ cache => (handler env.message env.context, cache)) env times cache =
      (rest messages inner handler env, cache) := by
  rw [foldr_checks, rest]
  cases runChecks messages inner env <;> rfl

theorem dispatch_eq (registered : handlers (messages.typeId env.message) = some handler) :
    dispatchEnvelope messages hash (cachedBus handlers outer inner) env times cache =
      match runChecks messages outer env with
      | .error e => (.error e, cache)
      | .ok () =>
        wrap messages hash .queryCache (fun env _ cache => (rest messages inner handler env, cache))
          env times cache := by
  have inside : (inner.map Middleware.check).foldr (wrap messages hash)
      (fun env _ cache => (handler env.message env.context, cache)) =
        fun env _ cache => (rest messages inner handler env, cache) := by
    funext env times cache
    exact inner_chain handler
  rw [dispatchEnvelope]
  simp only [cachedBus, registered, List.foldr_append, List.foldr_cons, foldr_checks, inside]

variable (messages hash handlers outer inner) in
def Sound (cache : QueryCache R) : Prop :=
  ∀ (key : String) (entry : CacheEntry R), cache[key]? = some entry →
    ∃ first, Reaches messages hash handlers outer first key ∧
      answer messages hash handlers outer inner first = .ok entry.value

theorem sound_store (sound : Sound messages hash handlers outer inner cache) {key : String}
    {result : R} (reaches : Reaches messages hash handlers outer env key)
    (answered : answer messages hash handlers outer inner env = .ok result) (now ttl : Nat) :
    Sound messages hash handlers outer inner (cache.store now key result ttl) := by
  intro key' entry held
  rw [QueryCache.store, Std.TreeMap.getElem?_insert] at held
  split at held
  next same =>
    obtain rfl := Std.LawfulEqCmp.eq_of_compare same
    obtain rfl := Option.some.inj held
    exact ⟨env, reaches, answered⟩
  next => exact sound key' entry held

theorem dispatch_sound (decides : KeyDecides messages hash handlers outer inner)
    (sound : Sound messages hash handlers outer inner cache)
    (derived : env.cacheKeyOverride = none) (times : Times) :
    (dispatchEnvelope messages hash (cachedBus handlers outer inner) env times cache).1 =
        answer messages hash handlers outer inner env ∧
      Sound messages hash handlers outer inner
        (dispatchEnvelope messages hash (cachedBus handlers outer inner) env times cache).2 := by
  cases registered : handlers (messages.typeId env.message) with
  | none =>
    simp only [dispatchEnvelope, answer, cachedBus, uncachedBus, registered]
    exact ⟨trivial, sound⟩
  | some handler =>
    rw [dispatch_eq registered, answer_eq registered]
    cases admitted : runChecks messages outer env with
    | error e => exact ⟨rfl, sound⟩
    | ok done =>
      dsimp only
      have answered : answer messages hash handlers outer inner env =
          rest messages inner handler env := by
        rw [answer_eq registered, admitted]
      simp only [wrap]
      split
      next => exact ⟨rfl, sound⟩
      next ttl cacheable =>
        split
        next => exact ⟨rfl, sound⟩
        next key keyed =>
          have reaches : Reaches messages hash handlers outer env key :=
            ⟨by simp [registered], admitted, by simp [cacheable], derived, keyed⟩
          split
          next hit found =>
            obtain ⟨entry, held, rfl⟩ := lookup_entry found
            obtain ⟨first, reaches', stored⟩ := sound key entry held
            have same := decides first env key reaches' reaches entry.value stored
            exact ⟨(answered ▸ same).symm, sound⟩
          next =>
            cases result : rest messages inner handler env with
            | error e => exact ⟨rfl, sound⟩
            | ok result =>
              exact ⟨rfl, sound_store sound reaches (answered.trans ‹_›) _ _⟩

theorem answers_eq (decides : KeyDecides messages hash handlers outer inner)
    (dispatches : List (Dispatch M C))
    (derived : ∀ dispatch ∈ dispatches, dispatch.envelope.cacheKeyOverride = none)
    (sound : Sound messages hash handlers outer inner cache) :
    answers messages hash (cachedBus handlers outer inner) cache dispatches =
      dispatches.map fun dispatch => answer messages hash handlers outer inner dispatch.envelope := by
  induction dispatches generalizing cache with
  | nil => rfl
  | cons dispatch later ih =>
    obtain ⟨same, kept⟩ := dispatch_sound decides sound (derived dispatch (by simp)) dispatch.times
    have tail := ih (fun other among => derived other (by simp [among])) kept
    rw [answers, List.map_cons, ← same, ← tail]

theorem second_answer {first second : Envelope M C} {key : String}
    (reaches : Reaches messages hash handlers outer first key)
    (reaches' : Reaches messages hash handlers outer second key) {result : R}
    (answered : answer messages hash handlers outer inner first = .ok result) :
    answers messages hash (cachedBus handlers outer inner) ∅
        [{ envelope := first, times := { asked := 0, stored := 0 } },
          { envelope := second, times := { asked := 0, stored := 0 } }] =
      [.ok result, .ok result] := by
  obtain ⟨handler, registered⟩ := Option.isSome_iff_exists.mp reaches.registered
  obtain ⟨handler', registered'⟩ := Option.isSome_iff_exists.mp reaches'.registered
  obtain ⟨ttl, cacheable⟩ := Option.isSome_iff_exists.mp reaches.cacheable
  obtain ⟨ttl', cacheable'⟩ := Option.isSome_iff_exists.mp reaches'.cacheable
  have computed : rest messages inner handler first = .ok result := by
    rw [answer_eq registered, reaches.admitted] at answered
    exact answered
  have miss : QueryCache.lookup (∅ : QueryCache R) 0 key = none := by simp [QueryCache.lookup]
  have hit : QueryCache.lookup ((∅ : QueryCache R).store 0 key result ttl) 0 key = some result := by
    simp only [QueryCache.lookup, QueryCache.store, Std.TreeMap.getElem?_insert_self]
    by_cases expires : ttl > 0 <;> simp [expires]
  have stored : dispatchEnvelope messages hash (cachedBus handlers outer inner) first
      { asked := 0, stored := 0 } ∅ = (.ok result, (∅ : QueryCache R).store 0 key result ttl) := by
    rw [dispatch_eq registered, reaches.admitted]
    simp only [wrap, cacheable, reaches.keyed, miss, computed]
  have served : dispatchEnvelope messages hash (cachedBus handlers outer inner) second
      { asked := 0, stored := 0 } ((∅ : QueryCache R).store 0 key result ttl) =
        (.ok result, (∅ : QueryCache R).store 0 key result ttl) := by
    rw [dispatch_eq registered', reaches'.admitted]
    simp only [wrap, cacheable', reaches'.keyed, hit]
  simp only [answers, stored, served]

end Transparency

theorem query_cache_transparent_iff {M C R : Type} (messages : Messages M C)
    (hash : List UInt8 → String) (handlers : Nat → Option (M → Option C → Except CqrsError R))
    (outer inner : List Check) :
    (∀ dispatches : List (Dispatch M C),
      (∀ dispatch ∈ dispatches, dispatch.envelope.cacheKeyOverride = none) →
        Transparent messages hash handlers outer inner dispatches) ↔
      KeyDecides messages hash handlers outer inner := by
  constructor
  · intro transparent first second key reaches reaches' result answered
    have seen := transparent
      [{ envelope := first, times := { asked := 0, stored := 0 } },
        { envelope := second, times := { asked := 0, stored := 0 } }]
      (by simp [reaches.derived, reaches'.derived])
    rw [Transparent, second_answer reaches reaches' answered] at seen
    exact (List.cons.inj (List.cons.inj seen).2).1.symm
  · intro decides dispatches derived
    exact answers_eq decides dispatches derived fun key entry held => by simp at held

def balance : Messages Unit String where
  typeId := fun _ => 0
  typeName := fun _ => "GetBalance"
  validate := fun _ => .ok ()
  cacheTtl := fun _ => some 30000000000
  cacheJson := fun _ => .ok [123, 125]
  authorize := fun _ user =>
    { authorized := user == some "alice", errors := [], summary := none }

def balanceHandlers : Nat → Option (Unit → Option String → Except CqrsError String)
  | 0 => some fun _ _ => .ok "100"
  | _ => none

def asUser (user : String) : Dispatch Unit String where
  envelope := {
    message := ()
    context := some user
    cacheTtlOverride := none
    cacheKeyOverride := none }
  times := { asked := 0, stored := 0 }

def hexDigits (json : List UInt8) : String :=
  String.ofList (json.flatMap fun byte => Nat.toDigits 16 byte.toNat)

theorem denied_context_answered :
    ¬ ∀ dispatches : List (Dispatch Unit String),
      (∀ dispatch ∈ dispatches, dispatch.envelope.cacheKeyOverride = none) →
        Transparent balance hexDigits balanceHandlers [] [.authorization true] dispatches := by
  intro transparent
  have seen := transparent [asUser "alice", asUser "bob"] (by simp [asUser])
  have cached : answers balance hexDigits (cachedBus balanceHandlers [] [.authorization true]) ∅
      [asUser "alice", asUser "bob"] = [.ok "100", .ok "100"] := rfl
  have denied : answer balance hexDigits balanceHandlers [] [.authorization true]
      (asUser "bob").envelope =
        .error (.authorization { authorized := false, errors := [], summary := none }) := rfl
  rw [Transparent, cached] at seen
  simp [denied] at seen

end Firefly.Cqrs
