import Firefly.Shared.NestedMap
import Firefly.Shared.Runs

set_option autoImplicit false

namespace Firefly.Orchestration.Signal

open NestedMap

structure Pair where
  correlationId : String
  signal : String
deriving DecidableEq, Repr

structure SignalService (V : Type) where
  waiters : Nested String String (List Nat) := {}
  delivered : Nested String String V := {}

variable {V : Type}

namespace SignalService

def parked (service : SignalService V) (pair : Pair) : List Nat :=
  (find service.waiters pair.correlationId pair.signal).getD []

def buffered (service : SignalService V) (pair : Pair) : Option V :=
  find service.delivered pair.correlationId pair.signal

def subscribe (service : SignalService V) (pair : Pair) (receiver : Nat) :
    Option V × SignalService V :=
  match take service.delivered pair.correlationId pair.signal with
  | (some payload, delivered) => (some payload, { service with delivered })
  | (none, _) =>
    (none,
      { service with
        waiters := put service.waiters pair.correlationId pair.signal
          (service.parked pair ++ [receiver]) })

def deliver (service : SignalService V) (live : Nat → Bool) (pair : Pair) (payload : V) :
    List Nat × SignalService V :=
  let (found, waiters) := take service.waiters pair.correlationId pair.signal
  let reached := (found.getD []).filter live
  if reached.isEmpty then
    ([], { waiters, delivered := put service.delivered pair.correlationId pair.signal payload })
  else (reached, { service with waiters })

def listActive (service : SignalService V) : List String :=
  ((service.waiters.keys ++ service.delivered.keys).dedup).mergeSort (· ≤ ·)

def unregister (service : SignalService V) (correlationId : String) : SignalService V :=
  { waiters := service.waiters.erase correlationId
    delivered := service.delivered.erase correlationId }

end SignalService

structure Signals (V : Type) where
  service : SignalService V := {}
  next : Nat := 0
  dropped : List Nat := []
  received : List (Nat × V) := []

inductive Action (V : Type) where
  | subscribe (pair : Pair)
  | deliver (pair : Pair) (payload : V)
  | unregister (correlationId : String)
  | drop (receiver : Nat)

namespace Signals

abbrev parked (s : Signals V) (pair : Pair) : List Nat := s.service.parked pair

abbrev buffered (s : Signals V) (pair : Pair) : Option V := s.service.buffered pair

def live (s : Signals V) (receiver : Nat) : Bool := receiver ∉ s.dropped

def subscribe (s : Signals V) (pair : Pair) : Option V × Signals V :=
  let (payload, service) := s.service.subscribe pair s.next
  (payload,
    { s with
      service
      next := s.next + 1
      received := s.received ++ (payload.map fun payload => (s.next, payload)).toList })

def deliver (s : Signals V) (pair : Pair) (payload : V) : Bool × Signals V :=
  let (reached, service) := s.service.deliver s.live pair payload
  (!reached.isEmpty,
    { s with service, received := s.received ++ reached.map fun receiver => (receiver, payload) })

-- A receiver can be dropped once there is one.
def perform (s : Signals V) : Action V → Signals V
  | .subscribe pair => (s.subscribe pair).2
  | .deliver pair payload => (s.deliver pair payload).2
  | .unregister correlationId => { s with service := s.service.unregister correlationId }
  | .drop receiver => if receiver < s.next then { s with dropped := receiver :: s.dropped } else s

def step (s : Signals V) (action : Action V) : Option (Signals V) := some (s.perform action)

def handed (pair : Pair) : Signals V → List (Action V) → List (Option V)
  | _, [] => []
  | s, .subscribe other :: actions =>
    (if other = pair then [(s.subscribe other).1] else []) ++
      handed pair (s.perform (.subscribe other)) actions
  | s, action :: actions => handed pair (s.perform action) actions

end Signals

end Firefly.Orchestration.Signal

namespace Firefly.Orchestration.Signal

open NestedMap

variable {V : Type}

namespace SignalService

variable {service : SignalService V} {pair other : Pair}

theorem pair_eq_iff : pair.correlationId = other.correlationId ∧ pair.signal = other.signal ↔
    pair = other := by
  cases pair
  cases other
  simp

theorem found_taken {β : Type} (m : Nested String String β) :
    find (take m pair.correlationId pair.signal).2 other.correlationId other.signal =
      if pair = other then none else find m other.correlationId other.signal := by
  simp only [find_take, pair_eq_iff]

theorem subscribe_fst (receiver : Nat) : (service.subscribe pair receiver).1 = service.buffered pair := by
  unfold subscribe buffered
  rw [← take_fst]
  split <;> simp [*]

theorem buffered_subscribe (receiver : Nat) :
    (service.subscribe pair receiver).2.buffered other =
      if pair = other then none else service.buffered other := by
  have found := take_fst service.delivered pair.correlationId pair.signal
  have rest := @found_taken pair other V service.delivered
  unfold subscribe
  split
  next payload delivered taken =>
    rw [taken] at rest
    exact rest
  next taken =>
    -- nothing was taken
    rw [taken] at found
    split
    next same => exact same ▸ found.symm
    next => rfl

theorem parked_subscribe (receiver : Nat) :
    (service.subscribe pair receiver).2.parked other =
      if pair = other ∧ service.buffered pair = none then service.parked other ++ [receiver]
      else service.parked other := by
  have found := take_fst service.delivered pair.correlationId pair.signal
  unfold subscribe
  split
  next payload delivered taken =>
    rw [taken] at found
    have held : service.buffered pair ≠ none := by rw [buffered, ← found]; simp
    simp [held, parked]
  next taken =>
    rw [taken] at found
    have empty : service.buffered pair = none := found.symm
    simp only [parked, find_put, pair_eq_iff, empty, and_true]
    split
    next same => rw [same]; rfl
    next => rfl

theorem deliver_fst (live : Nat → Bool) (payload : V) :
    (service.deliver live pair payload).1 = (service.parked pair).filter live := by
  unfold deliver
  simp only [take_fst]
  split
  next none_left => exact (List.isEmpty_iff.mp none_left).symm
  next => rfl

theorem parked_deliver (live : Nat → Bool) (payload : V) :
    (service.deliver live pair payload).2.parked other =
      if pair = other then [] else service.parked other := by
  have same : (service.deliver live pair payload).2.waiters =
      (take service.waiters pair.correlationId pair.signal).2 := by
    simp only [deliver]
    split <;> rfl
  rw [parked, same, found_taken]
  split <;> rfl

theorem buffered_deliver (live : Nat → Bool) (payload : V) :
    (service.deliver live pair payload).2.buffered other =
      if pair = other ∧ (service.parked pair).filter live = [] then some payload
      else service.buffered other := by
  unfold deliver buffered
  simp only [take_fst]
  by_cases reached : (service.parked pair).filter live = []
  · have reached' : ((find service.waiters pair.correlationId pair.signal).getD []).filter live = [] :=
      reached
    simp only [reached, reached', List.isEmpty_nil, if_true, and_true, find_put, pair_eq_iff]
  · have reached' : (((find service.waiters pair.correlationId pair.signal).getD []).filter
        live).isEmpty = false := by
      rw [← Bool.not_eq_true, List.isEmpty_iff]
      exact reached
    simp [reached, reached']

theorem parked_unregister (correlationId : String) :
    (service.unregister correlationId).parked other =
      if correlationId = other.correlationId then [] else service.parked other := by
  simp only [parked, unregister, find_erase]
  split <;> rfl

theorem buffered_unregister (correlationId : String) :
    (service.unregister correlationId).buffered other =
      if correlationId = other.correlationId then none else service.buffered other := by
  simp only [buffered, unregister, find_erase]

end SignalService

open SignalService Signals

def Attended (s : Signals V) (correlationId : String) : Prop :=
  ∃ signal, (∃ receiver ∈ s.parked ⟨correlationId, signal⟩, s.live receiver = true) ∨
    (s.buffered ⟨correlationId, signal⟩).isSome = true

def Concerns (pair : Pair) : Action V → Prop
  | .subscribe other | .deliver other _ => other = pair
  | .unregister correlationId => correlationId = pair.correlationId
  | .drop _ => False

def Resets (pair : Pair) : Action V → Prop
  | .deliver other _ => other = pair
  | .unregister correlationId => correlationId = pair.correlationId
  | .subscribe _ | .drop _ => False

structure Contract (s : Signals V) : Prop where
  disjoint : ∀ pair, s.parked pair = [] ∨ s.buffered pair = none
  answers : ∀ pair payload, (s.deliver pair payload).1 = true ↔
    ∃ receiver ∈ s.parked pair, s.live receiver = true
  reaches : ∀ pair payload, (s.deliver pair payload).1 = true →
    (s.deliver pair payload).2.received = s.received ++
        ((s.parked pair).filter s.live).map (fun receiver => (receiver, payload)) ∧
      (s.deliver pair payload).2.buffered pair = none
  buffers : ∀ pair payload, (s.deliver pair payload).1 = false →
    (s.deliver pair payload).2.buffered pair = some payload ∧
      ∀ actions, (∀ action ∈ actions, ¬ Resets pair action) →
        handed pair (s.deliver pair payload).2 actions = [] ∨
          ∃ more, handed pair (s.deliver pair payload).2 actions =
            some payload :: List.replicate more none
  frame : ∀ pair action, ¬ Concerns pair action →
    (s.perform action).parked pair = s.parked pair ∧
      (s.perform action).buffered pair = s.buffered pair
  active : ∀ correlationId, correlationId ∈ s.service.listActive ↔ Attended s correlationId

def Allowed (s : Signals V) : Action V → Prop
  | .subscribe pair =>
    (s.buffered pair).isSome = true →
      (∃ signal, s.parked ⟨pair.correlationId, signal⟩ ≠ []) →
        ∃ signal, (∃ receiver ∈ s.parked ⟨pair.correlationId, signal⟩, s.live receiver = true) ∨
          (signal ≠ pair.signal ∧ (s.buffered ⟨pair.correlationId, signal⟩).isSome = true)
  | .deliver pair _ =>
    (∃ receiver ∈ s.parked pair, s.live receiver = true) →
      (∃ signal, signal ≠ pair.signal ∧ s.parked ⟨pair.correlationId, signal⟩ ≠ []) →
        ∃ signal, signal ≠ pair.signal ∧
          ((∃ receiver ∈ s.parked ⟨pair.correlationId, signal⟩, s.live receiver = true) ∨
            (s.buffered ⟨pair.correlationId, signal⟩).isSome = true)
  | .unregister _ => True
  | .drop receiver =>
    ∀ pair : Pair, receiver ∈ s.parked pair →
      ∃ signal, (∃ other ∈ s.parked ⟨pair.correlationId, signal⟩,
          other ≠ receiver ∧ s.live other = true) ∨
        (s.buffered ⟨pair.correlationId, signal⟩).isSome = true

structure Sound (s : Signals V) : Prop where
  waiters : Pruned s.service.waiters
  delivered : Pruned s.service.delivered
  filled : ∀ outer inner, find s.service.waiters outer inner ≠ some []
  disjoint : ∀ pair, s.parked pair = [] ∨ s.buffered pair = none
  known : ∀ pair, ∀ receiver ∈ s.parked pair, receiver < s.next
  dropped : ∀ receiver ∈ s.dropped, receiver < s.next

section Sound

variable {s : Signals V} {pair other : Pair}

theorem parked_subscribe : (s.perform (.subscribe pair)).parked other =
    if pair = other ∧ s.buffered pair = none then s.parked other ++ [s.next] else s.parked other :=
  SignalService.parked_subscribe s.next

theorem buffered_subscribe : (s.perform (.subscribe pair)).buffered other =
    if pair = other then none else s.buffered other :=
  SignalService.buffered_subscribe s.next

theorem parked_deliver (payload : V) : (s.perform (.deliver pair payload)).parked other =
    if pair = other then [] else s.parked other :=
  SignalService.parked_deliver s.live payload

theorem buffered_deliver (payload : V) : (s.perform (.deliver pair payload)).buffered other =
    if pair = other ∧ (s.parked pair).filter s.live = [] then some payload else s.buffered other :=
  SignalService.buffered_deliver s.live payload

theorem parked_unregister (correlationId : String) :
    (s.perform (.unregister correlationId)).parked other =
      if correlationId = other.correlationId then [] else s.parked other :=
  SignalService.parked_unregister correlationId

theorem buffered_unregister (correlationId : String) :
    (s.perform (.unregister correlationId)).buffered other =
      if correlationId = other.correlationId then none else s.buffered other :=
  SignalService.buffered_unregister correlationId

theorem service_drop (receiver : Nat) : (s.perform (.drop receiver)).service = s.service := by
  simp only [Signals.perform]
  split <;> rfl

theorem sound_start : Sound ({} : Signals V) where
  waiters := by intro outer within held; simp at held
  delivered := by intro outer within held; simp at held
  filled := by simp [find]
  disjoint := fun pair => .inl (by simp [SignalService.parked, find])
  known := by simp [SignalService.parked, find]
  dropped := by simp

theorem deliver_fst_iff (pair : Pair) (payload : V) :
    (s.deliver pair payload).1 = true ↔ ∃ receiver ∈ s.parked pair, s.live receiver = true := by
  show (!(s.service.deliver s.live pair payload).1.isEmpty) = true ↔ _
  rw [SignalService.deliver_fst]
  simp [List.filter_eq_nil_iff]

theorem filter_live_eq_nil (pair : Pair) (payload : V) :
    (s.parked pair).filter s.live = [] ↔ (s.deliver pair payload).1 = false := by
  rw [← Bool.not_eq_true, deliver_fst_iff, List.filter_eq_nil_iff]
  push Not
  rfl

theorem mem_listActive (sound : Sound s) (correlationId : String) :
    correlationId ∈ s.service.listActive ↔ ∃ signal, s.parked ⟨correlationId, signal⟩ ≠ [] ∨
      (s.buffered ⟨correlationId, signal⟩).isSome = true := by
  have parked : ∀ signal, (find s.service.waiters correlationId signal).isSome = true ↔
      s.parked ⟨correlationId, signal⟩ ≠ [] := by
    intro signal
    have filled := sound.filled correlationId signal
    unfold Signals.parked SignalService.parked
    cases held : find s.service.waiters correlationId signal with
    | none => simp
    | some receivers =>
      rw [held] at filled
      simpa using filled
  rw [SignalService.listActive, List.mem_mergeSort, List.mem_dedup, List.mem_append,
    Std.TreeMap.mem_keys, Std.TreeMap.mem_keys, mem_iff_find sound.waiters,
    mem_iff_find sound.delivered, exists_or]
  simp only [parked]
  rfl

theorem Sound.subscribe (sound : Sound s) (pair : Pair) : Sound (s.perform (.subscribe pair)) := by
  have later : ∀ {receiver}, receiver < s.next → receiver < s.next + 1 := fun below => by omega
  refine { waiters := ?_, delivered := ?_, filled := ?_, disjoint := ?_, known := ?_, dropped := ?_ }
  · show Pruned (s.service.subscribe pair s.next).2.waiters
    unfold SignalService.subscribe
    split
    next => exact sound.waiters
    next => exact pruned_put sound.waiters _
  · show Pruned (s.service.subscribe pair s.next).2.delivered
    unfold SignalService.subscribe
    split
    next payload delivered taken =>
      have rest := @pruned_take _ _ _ _ _ _ _ pair.correlationId pair.signal sound.delivered
      rwa [taken] at rest
    next => exact sound.delivered
  · intro outer inner
    show find (s.service.subscribe pair s.next).2.waiters outer inner ≠ _
    unfold SignalService.subscribe
    split
    next => exact sound.filled outer inner
    next =>
      rw [find_put]
      split
      next => simp
      next => exact sound.filled outer inner
  · intro other
    rw [parked_subscribe, buffered_subscribe]
    by_cases same : pair = other
    · exact .inr (if_pos same)
    · rw [if_neg same, if_neg fun both => same both.1]
      exact sound.disjoint other
  · intro other receiver among
    rw [parked_subscribe] at among
    split at among
    next =>
      rcases List.mem_append.mp among with before | here
      · exact later (sound.known other receiver before)
      · rw [List.mem_singleton.mp here]
        exact Nat.lt_succ_self _
    next => exact later (sound.known other receiver among)
  · exact fun receiver among => later (sound.dropped receiver among)

theorem Sound.deliver (sound : Sound s) (pair : Pair) (payload : V) :
    Sound (s.perform (.deliver pair payload)) := by
  have waiters : (s.service.deliver s.live pair payload).2.waiters =
      (take s.service.waiters pair.correlationId pair.signal).2 := by
    simp only [SignalService.deliver]
    split <;> rfl
  refine { waiters := ?_, delivered := ?_, filled := ?_, disjoint := ?_, known := ?_,
           dropped := sound.dropped }
  · show Pruned (s.service.deliver s.live pair payload).2.waiters
    rw [waiters]
    exact pruned_take sound.waiters
  · show Pruned (s.service.deliver s.live pair payload).2.delivered
    simp only [SignalService.deliver]
    split
    next => exact pruned_put sound.delivered _
    next => exact sound.delivered
  · intro outer inner
    show find (s.service.deliver s.live pair payload).2.waiters outer inner ≠ _
    rw [waiters, find_take]
    split
    next => simp
    next => exact sound.filled outer inner
  · intro other
    rw [parked_deliver, buffered_deliver]
    by_cases same : pair = other
    · exact .inl (if_pos same)
    · rw [if_neg same, if_neg fun both => same both.1]
      exact sound.disjoint other
  · intro other receiver among
    rw [parked_deliver] at among
    split at among
    next => cases among
    next => exact sound.known other receiver among

theorem Sound.unregister (sound : Sound s) (correlationId : String) :
    Sound (s.perform (.unregister correlationId)) := by
  refine { waiters := pruned_erase sound.waiters, delivered := pruned_erase sound.delivered,
           filled := ?_, disjoint := ?_, known := ?_, dropped := sound.dropped }
  · intro outer inner
    show find (s.service.waiters.erase correlationId) outer inner ≠ _
    rw [find_erase]
    split
    next => simp
    next => exact sound.filled outer inner
  · intro other
    rw [parked_unregister, buffered_unregister]
    split
    next => exact .inl rfl
    next => exact sound.disjoint other
  · intro other receiver among
    rw [parked_unregister] at among
    split at among
    next => cases among
    next => exact sound.known other receiver among

theorem Sound.drop (sound : Sound s) (receiver : Nat) : Sound (s.perform (.drop receiver)) := by
  simp only [Signals.perform]
  split
  next below =>
    refine { waiters := sound.waiters, delivered := sound.delivered, filled := sound.filled,
             disjoint := sound.disjoint, known := sound.known, dropped := ?_ }
    intro other among
    rcases List.mem_cons.mp among with rfl | before
    · exact below
    · exact sound.dropped other before
  next => exact sound

theorem Sound.perform (sound : Sound s) (action : Action V) : Sound (s.perform action) := by
  cases action with
  | subscribe pair => exact sound.subscribe pair
  | deliver pair payload => exact sound.deliver pair payload
  | unregister correlationId => exact sound.unregister correlationId
  | drop receiver => exact sound.drop receiver

theorem unconcerned (action : Action V) (apart : ¬ Concerns pair action) :
    (s.perform action).parked pair = s.parked pair ∧
      (s.perform action).buffered pair = s.buffered pair := by
  cases action with
  | subscribe other =>
    have apart : other ≠ pair := apart
    simp [parked_subscribe, buffered_subscribe, apart]
  | deliver other payload =>
    have apart : other ≠ pair := apart
    simp [parked_deliver, buffered_deliver, apart]
  | unregister correlationId =>
    have apart : correlationId ≠ pair.correlationId := apart
    simp [parked_unregister, buffered_unregister, apart]
  | drop receiver => simp [Signals.parked, Signals.buffered, service_drop]

theorem buffered_quiet (action : Action V) (quiet : ¬ Resets pair action)
    (other : action ≠ .subscribe pair) : (s.perform action).buffered pair = s.buffered pair := by
  refine (unconcerned action ?_).2
  cases action with
  | subscribe pair' => exact fun same => other (congrArg _ same)
  | deliver _ _ => exact quiet
  | unregister _ => exact quiet
  | drop _ => exact id

theorem handed_empty (actions : List (Action V)) (quiet : ∀ action ∈ actions, ¬ Resets pair action)
    (empty : s.buffered pair = none) : ∃ more, handed pair s actions = List.replicate more none := by
  induction actions generalizing s with
  | nil => exact ⟨0, rfl⟩
  | cons action actions ih =>
    have still : (s.perform action).buffered pair = none := by
      by_cases here : action = .subscribe pair
      · rw [here, buffered_subscribe, if_pos rfl]
      · rw [buffered_quiet action (quiet action (by simp)) here, empty]
    obtain ⟨more, rest⟩ := ih (fun other among => quiet other (List.mem_cons_of_mem _ among)) still
    cases action with
    | subscribe other =>
      by_cases same : other = pair
      · subst same
        have none_left : (s.subscribe other).1 = none :=
          (SignalService.subscribe_fst s.next).trans empty
        exact ⟨more + 1, by rw [handed, if_pos rfl, none_left, rest]; rfl⟩
      · exact ⟨more, by rw [handed, if_neg same, rest]; rfl⟩
    | deliver other payload => exact ⟨more, rest⟩
    | unregister correlationId => exact ⟨more, rest⟩
    | drop receiver => exact ⟨more, rest⟩

theorem handed_buffered {payload : V} (actions : List (Action V))
    (quiet : ∀ action ∈ actions, ¬ Resets pair action) (held : s.buffered pair = some payload) :
    handed pair s actions = [] ∨
      ∃ more, handed pair s actions = some payload :: List.replicate more none := by
  induction actions generalizing s with
  | nil => exact .inl rfl
  | cons action actions ih =>
    have later := fun other among => quiet other (List.mem_cons_of_mem action among)
    have now := quiet action (by simp)
    cases action with
    | subscribe other =>
      by_cases same : other = pair
      · subst same
        have taken : (s.subscribe other).1 = some payload :=
          (SignalService.subscribe_fst s.next).trans held
        obtain ⟨more, rest⟩ := handed_empty (s := s.perform (.subscribe other)) actions later
          (by rw [buffered_subscribe, if_pos rfl])
        exact .inr ⟨more, by rw [handed, if_pos rfl, taken, rest]; rfl⟩
      · rw [handed, if_neg same, List.nil_append]
        exact ih later (by rw [buffered_subscribe, if_neg same, held])
    | deliver other payload => exact ih later (by rw [buffered_quiet _ now nofun, held])
    | unregister correlationId => exact ih later (by rw [buffered_quiet _ now nofun, held])
    | drop receiver => exact ih later (by rw [buffered_quiet _ now nofun, held])

def Manned (s : Signals V) : Prop :=
  ∀ pair, s.parked pair ≠ [] → Attended s pair.correlationId

theorem contract_iff (sound : Sound s) : Contract s ↔ Manned s := by
  constructor
  · intro contract pair parked
    rw [← contract.active, mem_listActive sound]
    exact ⟨pair.signal, .inl parked⟩
  · intro manned
    refine { disjoint := sound.disjoint, answers := deliver_fst_iff, reaches := ?_, buffers := ?_,
             frame := fun pair action => unconcerned action, active := ?_ }
    · intro pair payload answered
      have reached : (s.parked pair).filter s.live ≠ [] := by
        rw [Ne, filter_live_eq_nil pair payload, answered]
        decide
      have parked : s.parked pair ≠ [] := by
        intro empty
        simp [empty] at reached
      constructor
      · show s.received ++ (s.service.deliver s.live pair payload).1.map _ = _
        rw [SignalService.deliver_fst]
      · show (s.perform (.deliver pair payload)).buffered pair = none
        rw [buffered_deliver, if_neg fun both => reached both.2]
        exact (sound.disjoint pair).resolve_left parked
    · intro pair payload answered
      have held : (s.deliver pair payload).2.buffered pair = some payload := by
        show (s.perform (.deliver pair payload)).buffered pair = some payload
        rw [buffered_deliver, if_pos ⟨rfl, (filter_live_eq_nil pair payload).mpr answered⟩]
      exact ⟨held, fun actions quiet => handed_buffered actions quiet held⟩
    · intro correlationId
      rw [mem_listActive sound]
      constructor
      · rintro ⟨signal, parked | held⟩
        · exact manned ⟨correlationId, signal⟩ parked
        · exact ⟨signal, .inr held⟩
      · rintro ⟨signal, ⟨receiver, parked, -⟩ | held⟩
        · exact ⟨signal, .inl (List.ne_nil_of_mem parked)⟩
        · exact ⟨signal, .inr held⟩

theorem live_subscribe : (s.perform (.subscribe pair)).live = s.live := rfl

theorem live_drop {receiver : Nat} (below : receiver < s.next) (other : Nat) :
    (s.perform (.drop receiver)).live other = true ↔ other ≠ receiver ∧ s.live other = true := by
  simp [Signals.perform, below, Signals.live]

theorem manned_subscribe (sound : Sound s) (manned : Manned s) (pair : Pair) :
    Manned (s.perform (.subscribe pair)) ↔ Allowed s (.subscribe pair) := by
  unfold Manned Attended Allowed
  simp only [parked_subscribe, buffered_subscribe, live_subscribe]
  cases held : s.buffered pair with
  | none =>
    -- the new receiver is parked and live
    simp only [and_true, Option.isSome_none, Bool.false_eq_true, false_imp_iff, iff_true]
    have fresh : s.live s.next = true := by
      have below := sound.dropped s.next
      simp only [Signals.live, decide_eq_true_eq]
      exact fun among => Nat.lt_irrefl _ (below among)
    intro other parked
    by_cases same : pair.correlationId = other.correlationId
    · refine ⟨pair.signal, .inl ⟨s.next, ?_, fresh⟩⟩
      rw [← same, if_pos rfl]
      simp
    · have away : ∀ signal, pair ≠ ⟨other.correlationId, signal⟩ := by
        rintro signal rfl
        exact same rfl
      rw [if_neg (away other.signal)] at parked
      obtain ⟨signal, attended⟩ := manned other parked
      exact ⟨signal, by rwa [if_neg (away signal), if_neg (away signal)]⟩
  | some payload =>
    simp only [reduceCtorEq, and_false, if_false, Option.isSome_some, true_imp_iff]
    have rest : ∀ id signal, (if pair = ⟨id, signal⟩ then none else s.buffered ⟨id, signal⟩).isSome
        = true ↔ pair ≠ ⟨id, signal⟩ ∧ (s.buffered ⟨id, signal⟩).isSome = true := by
      intro id signal
      by_cases same : pair = ⟨id, signal⟩ <;> simp [same]
    simp only [rest]
    have apart : ∀ signal, pair ≠ ⟨pair.correlationId, signal⟩ ↔ signal ≠ pair.signal := by
      intro signal
      rw [Ne, Ne, not_iff_not]
      constructor
      · intro same
        rw [same]
      · rintro rfl
        rfl
    constructor
    · rintro manned' ⟨signal, parked⟩
      obtain ⟨signal', attended⟩ := manned' ⟨pair.correlationId, signal⟩ parked
      rw [apart] at attended
      exact ⟨signal', attended⟩
    · intro allowed other parked
      by_cases same : pair.correlationId = other.correlationId
      · obtain ⟨signal, attended⟩ := allowed ⟨other.signal, by rwa [same]⟩
        rw [← apart] at attended
        exact ⟨signal, by rwa [← same]⟩
      · obtain ⟨signal, attended⟩ := manned other parked
        refine ⟨signal, attended.imp_right fun buffered => ⟨?_, buffered⟩⟩
        rintro rfl
        exact same rfl

theorem manned_deliver (sound : Sound s) (manned : Manned s) (pair : Pair) (payload : V) :
    Manned (s.perform (.deliver pair payload)) ↔ Allowed s (.deliver pair payload) := by
  have live : (s.perform (.deliver pair payload)).live = s.live := rfl
  unfold Manned Attended Allowed
  simp only [parked_deliver, buffered_deliver, live]
  have elsewhere : ∀ {other : Pair}, pair.correlationId ≠ other.correlationId →
      ∀ signal, pair ≠ ⟨other.correlationId, signal⟩ := by
    rintro other away signal rfl
    exact away rfl
  by_cases reached : (s.parked pair).filter s.live = []
  · -- the payload is buffered
    have gone : ¬ ∃ receiver ∈ s.parked pair, s.live receiver = true := by
      simpa [List.filter_eq_nil_iff] using reached
    simp only [gone, false_imp_iff, iff_true, reached, and_true]
    intro other parked
    by_cases same : pair.correlationId = other.correlationId
    · exact ⟨pair.signal, .inr (by rw [← same, if_pos rfl]; rfl)⟩
    · have away := elsewhere same
      rw [if_neg (away other.signal)] at parked
      obtain ⟨signal, attended⟩ := manned other parked
      exact ⟨signal, by rwa [if_neg (away signal), if_neg (away signal)]⟩
  · have found : ∃ receiver ∈ s.parked pair, s.live receiver = true := by
      simpa [List.filter_eq_nil_iff] using reached
    simp only [found, true_imp_iff, reached, and_false, if_false]
    have unbuffered : s.buffered pair = none := by
      refine (sound.disjoint pair).resolve_left fun empty => ?_
      simp [empty] at reached
    have apart : ∀ signal, pair = ⟨pair.correlationId, signal⟩ ↔ signal = pair.signal := by
      intro signal
      constructor
      · intro same
        rw [same]
      · rintro rfl
        rfl
    have left : ∀ signal,
        ((∃ receiver ∈ if pair = ⟨pair.correlationId, signal⟩ then []
            else s.parked ⟨pair.correlationId, signal⟩, s.live receiver = true) ∨
          (s.buffered ⟨pair.correlationId, signal⟩).isSome = true) ↔
        signal ≠ pair.signal ∧
          ((∃ receiver ∈ s.parked ⟨pair.correlationId, signal⟩, s.live receiver = true) ∨
            (s.buffered ⟨pair.correlationId, signal⟩).isSome = true) := by
      intro signal
      by_cases same : signal = pair.signal
      · subst same
        simp [unbuffered]
      · simp [apart, same]
    constructor
    · rintro manned' ⟨signal, other, parked⟩
      obtain ⟨signal', attended⟩ := manned' ⟨pair.correlationId, signal⟩
        (by rwa [if_neg fun same => other ((apart signal).mp same)])
      exact ⟨signal', (left signal').mp attended⟩
    · intro allowed other parked
      by_cases same : pair.correlationId = other.correlationId
      · have away : pair ≠ other := by
          intro here
          simp [here] at parked
        rw [if_neg away] at parked
        have signals : other.signal ≠ pair.signal := fun here =>
          away (SignalService.pair_eq_iff.mp ⟨same, here.symm⟩)
        obtain ⟨signal, attended⟩ := allowed ⟨other.signal, signals, by rwa [same]⟩
        rw [← same]
        exact ⟨signal, (left signal).mpr attended⟩
      · have away := elsewhere same
        rw [if_neg (away other.signal)] at parked
        obtain ⟨signal, attended⟩ := manned other parked
        exact ⟨signal, by rwa [if_neg (away signal)]⟩

theorem manned_unregister (manned : Manned s) (correlationId : String) :
    Manned (s.perform (.unregister correlationId)) := by
  have live : (s.perform (.unregister correlationId)).live = s.live := rfl
  intro other parked
  rw [parked_unregister] at parked
  by_cases same : correlationId = other.correlationId
  · rw [if_pos same] at parked
    exact absurd rfl parked
  · rw [if_neg same] at parked
    obtain ⟨signal, attended⟩ := manned other parked
    refine ⟨signal, ?_⟩
    rwa [parked_unregister, buffered_unregister, if_neg same, if_neg same, live]

theorem manned_drop (sound : Sound s) (manned : Manned s) (receiver : Nat) :
    Manned (s.perform (.drop receiver)) ↔ Allowed s (.drop receiver) := by
  by_cases below : receiver < s.next
  · unfold Manned Attended Allowed
    simp only [Signals.parked, Signals.buffered, service_drop, live_drop below]
    constructor
    · intro manned' pair among
      exact manned' pair (List.ne_nil_of_mem among)
    · intro allowed other parked
      obtain ⟨signal, ⟨found, among, live⟩ | held⟩ := manned other parked
      · by_cases same : found = receiver
        · subst same
          exact allowed ⟨other.correlationId, signal⟩ among
        · exact ⟨signal, .inl ⟨found, among, same, live⟩⟩
      · exact ⟨signal, .inr held⟩
  · -- there is no such receiver yet
    have same : s.perform (.drop receiver) = s := if_neg below
    rw [same]
    refine iff_of_true manned fun pair among => ?_
    exact absurd (sound.known pair receiver among) below

theorem manned_iff (sound : Sound s) (manned : Manned s) (action : Action V) :
    Manned (s.perform action) ↔ Allowed s action := by
  cases action with
  | subscribe pair => exact manned_subscribe sound manned pair
  | deliver pair payload => exact manned_deliver sound manned pair payload
  | unregister correlationId => exact iff_of_true (manned_unregister manned correlationId) trivial
  | drop receiver => exact manned_drop sound manned receiver

end Sound

theorem signal_contract_iff (actions : List (Action V)) :
    Runs.Always Signals.step Contract ({} : Signals V) actions ↔
      Runs.Along Signals.step Allowed {} actions := by
  have start : Contract ({} : Signals V) := by
    refine (contract_iff sound_start).mpr fun pair parked => absurd ?_ parked
    simp [Signals.parked, SignalService.parked, find]
  refine Runs.always_iff_along (I := Sound) (fun s action sound contract => ?_) actions sound_start
    start
  have kept := sound.perform action
  refine ⟨s.perform action, rfl, ?_, fun _ => kept⟩
  rw [contract_iff kept]
  exact manned_iff sound ((contract_iff sound).mp contract) action

def givenUp : List (Action Unit) := [.subscribe ⟨"run-1", "approved"⟩, .drop 0]

theorem given_up_listed : ¬ Runs.Always Signals.step Contract {} givenUp := by
  intro always
  have contract := always givenUp [] (List.append_nil _).symm _ rfl
  let s := (({} : Signals Unit).perform (.subscribe ⟨"run-1", "approved"⟩)).perform (.drop 0)
  have sound : Sound s := (sound_start.perform _).perform _
  have idle : ∀ pair, Signals.parked ({} : Signals Unit) pair = [] ∧
      Signals.buffered ({} : Signals Unit) pair = none := fun pair =>
    ⟨by simp [SignalService.parked, find], by simp [SignalService.buffered, find]⟩
  have parked : ∀ pair, s.parked pair = if ⟨"run-1", "approved"⟩ = pair then [0] else [] := by
    intro pair
    rw [Signals.parked, service_drop, ← Signals.parked, parked_subscribe, (idle _).1, (idle _).2]
    simp
  have buffered : ∀ pair, s.buffered pair = none := by
    intro pair
    rw [Signals.buffered, service_drop, ← Signals.buffered, buffered_subscribe, (idle _).2, ite_self]
  have listed : "run-1" ∈ s.service.listActive :=
    (mem_listActive sound _).mpr ⟨"approved", .inl (by simp [parked])⟩
  obtain ⟨signal, ⟨receiver, among, live⟩ | held⟩ := (contract.active "run-1").mp listed
  · -- the only receiver is the one that was dropped
    obtain rfl : receiver = 0 := by
      by_contra other
      rw [parked] at among
      split at among <;> simp [other] at among
    exact absurd live (by decide)
  · obtain ⟨payload, held⟩ := Option.isSome_iff_exists.mp held
    cases (buffered ⟨"run-1", signal⟩).symm.trans held

end Firefly.Orchestration.Signal
