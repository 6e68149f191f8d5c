import Firefly.Cache.Memory
import Firefly.Cqrs.Bus
import Firefly.Shared.Runs

set_option autoImplicit false

namespace Firefly.Cqrs.Invalidation

open Runs

def invalidate {V : Type} (cache : QueryCache V) (start : String) : QueryCache V :=
  cache.filter fun key _ => !Cache.startsWith key start

def invalidateType {V : Type} (cache : QueryCache V) (typeName : String) : QueryCache V :=
  invalidate cache (typeName ++ ":")

structure Computed (R : Type) where
  result : R
  started : Nat
deriving DecidableEq, Repr

/-- Where a dispatch stands in the middleware. A slot is the key and the ttl of its entry. -/
inductive Stage (R : Type) where
  | asking (key : String) (ttl : Nat)
  | missed (slot : Option (String × Nat))
  | running (slot : Option (String × Nat)) (started : Nat)
  | storing (key : String) (ttl : Nat) (computed : Computed R)
deriving DecidableEq, Repr

structure Task (M C R : Type) where
  envelope : Envelope M C
  begun : Nat
  stage : Stage R

inductive Event (R : Type) where
  | invalidated (start : String)
  | answered (key : Option String) (begun started : Nat) (answer : Except CqrsError R)
deriving DecidableEq, Repr

structure State (M C R : Type) where
  cache : QueryCache (Computed R)
  now : Nat
  tasks : Nat → Option (Task M C R)
  log : List (Event R)

inductive Choice (M C R : Type) where
  | dispatch (task : Nat) (envelope : Envelope M C)
  | lookup (task : Nat)
  | handle (task : Nat)
  | finish (task : Nat) (answer : Except CqrsError R)
  | store (task : Nat)
  | invalidate (start : String)
  | invalidateType (typeName : String)
  | pass (duration : Nat)

section Dispatches

variable {M C R : Type} (messages : Messages M C) (hash : List UInt8 → String)

def start : State M C R :=
  { cache := ∅, now := 0, tasks := fun _ => none, log := [] }

-- A dispatch that is not cacheable, or for which no key can be derived, goes past the cache.
def enter (env : Envelope M C) : Stage R :=
  match cacheTtl messages env with
  | none => .missed none
  | some ttl =>
    match keyOf messages hash env with
    | .error _ => .missed none
    | .ok key => .asking key ttl

def State.put (s : State M C R) (task : Nat) (work : Task M C R) (stage : Stage R) : State M C R :=
  { s with tasks := Function.update s.tasks task (some { work with stage }) }

def State.answer (s : State M C R) (task : Nat) (event : Event R) : State M C R :=
  { s with tasks := Function.update s.tasks task none, log := s.log ++ [event] }

def finish (s : State M C R) (task : Nat) (work : Task M C R) (slot : Option (String × Nat))
    (started : Nat) : Except CqrsError R → State M C R
  | .error e => s.answer task (.answered (slot.map (·.1)) work.begun started (.error e))
  | .ok result =>
    match slot with
    | none => s.answer task (.answered none work.begun started (.ok result))
    | some (key, ttl) => s.put task work (.storing key ttl { result, started })

-- One step of one dispatch, up to the next point at which others may come between.
def advance (s : State M C R) (task : Nat) (work : Task M C R) :
    Choice M C R → Stage R → State M C R
  | .lookup _, .asking key ttl =>
    match s.cache.lookup s.now key with
    | some hit => s.answer task (.answered (some key) work.begun hit.started (.ok hit.result))
    | none => s.put task work (.missed (some (key, ttl)))
  | .handle _, .missed slot => s.put task work (.running slot s.log.length)
  | .finish _ answer, .running slot started => finish s task work slot started answer
  | .store _, .storing key ttl computed =>
    { s with cache := s.cache.store s.now key computed ttl }.answer task
      (.answered (some key) work.begun computed.started (.ok computed.result))
  | _, _ => s

def advanceTask (s : State M C R) (task : Nat) (choice : Choice M C R) : State M C R :=
  match s.tasks task with
  | none => s
  | some work => advance s task work choice work.stage

def step (s : State M C R) (choice : Choice M C R) : Option (State M C R) :=
  match choice with
  | .dispatch task envelope =>
    -- a task makes one dispatch after the other
    if (s.tasks task).isSome then some s
    else
      some { s with
        tasks := Function.update s.tasks task
          (some { envelope, begun := s.log.length, stage := enter messages hash envelope }) }
  | .lookup task | .handle task | .finish task _ | .store task => some (advanceTask s task choice)
  | .invalidate start =>
    some { s with cache := invalidate s.cache start, log := s.log ++ [.invalidated start] }
  | .invalidateType typeName =>
    some { s with
      cache := invalidateType s.cache typeName
      log := s.log ++ [.invalidated (typeName ++ ":")] }
  | .pass duration => some { s with now := s.now + duration }

def Invalidated (events : List (Event R)) (key : String) : Prop :=
  ∃ start, .invalidated start ∈ events ∧ Cache.startsWith key start

def Final (s : State M C R) : Prop :=
  ∀ key begun started answer, .answered (some key) begun started answer ∈ s.log →
    ¬ Invalidated ((s.log.take begun).drop started) key

def Stage.Fresh (log : List (Event R)) : Stage R → Prop
  | .storing key _ computed => ¬ Invalidated (log.drop computed.started) key
  | _ => True

def Fresh (s : State M C R) : Choice M C R → Prop
  | .store task => ∀ work ∈ s.tasks task, work.stage.Fresh s.log
  | _ => True

def Event.covers (key : String) : Event R → Bool
  | .invalidated start => Cache.startsWith key start
  | .answered .. => false

instance (events : List (Event R)) (key : String) : Decidable (Invalidated events key) :=
  decidable_of_iff (events.any (·.covers key)) (by
    rw [List.any_eq_true]
    constructor
    · rintro ⟨event, member, covers⟩
      cases event with
      | invalidated start => exact ⟨start, member, covers⟩
      | answered => exact absurd covers Bool.false_ne_true
    · rintro ⟨start, member, covers⟩
      exact ⟨_, member, covers⟩)

instance (log : List (Event R)) : ∀ stage : Stage R, Decidable (stage.Fresh log)
  | .storing key _ computed => inferInstanceAs (Decidable (¬ Invalidated (log.drop computed.started) key))
  | .asking .. | .missed _ | .running .. => isTrue trivial

instance (s : State M C R) : ∀ choice, Decidable (Fresh s choice)
  | .store task => inferInstanceAs (Decidable (∀ work ∈ s.tasks task, work.stage.Fresh s.log))
  | .dispatch .. | .lookup _ | .handle _ | .finish .. | .invalidate _ | .invalidateType _ | .pass _ =>
    isTrue trivial

theorem run_alone (s : State M C R) {task : Nat} (free : s.tasks task = none)
    (env : Envelope M C) (answer : Except CqrsError R) :
    run (step messages hash) s
        [.dispatch task env, .lookup task, .handle task, .finish task answer, .store task] =
      some ([.lookup task, .handle task, .finish task answer, .store task].foldl
        (advanceTask · task ·)
        { s with
          tasks := Function.update s.tasks task (some
            { envelope := env, begun := s.log.length, stage := enter messages hash env }) }) := by
  rw [run_cons, step, free]
  rfl

theorem undisturbed (s : State M C R) {task : Nat} (free : s.tasks task = none)
    (env : Envelope M C) (answer : Except CqrsError R) :
    let next : DynHandler M C (Computed R) := fun _ _ cache =>
      (answer.map fun result => { result, started := s.log.length }, cache)
    let wrapped := wrap messages hash .queryCache next env { asked := s.now, stored := s.now } s.cache
    ∃ s' key started, run (step messages hash) s
        [.dispatch task env, .lookup task, .handle task, .finish task answer, .store task] = some s' ∧
      s'.tasks task = none ∧ s'.cache = wrapped.2 ∧
      s'.log = s.log ++ [.answered key s.log.length started (wrapped.1.map (·.result))] := by
  intro next wrapped
  simp only [run_alone messages hash s free, Option.some.injEq, wrapped, wrap, enter]
  cases cacheTtl messages env with
  | none =>
    cases answer <;>
      simp [next, advanceTask, advance, State.put, State.answer, finish, Except.map]
  | some ttl =>
    cases keyOf messages hash env with
    | error e =>
      cases answer <;>
        simp [next, advanceTask, advance, State.put, State.answer, finish, Except.map]
    | ok key =>
      cases found : s.cache.lookup s.now key with
      | some hit => simp [found, advanceTask, advance, State.answer, Except.map]
      | none =>
        cases answer <;>
          simp [next, found, advanceTask, advance, State.put, State.answer, finish, Except.map]
section Log

variable {log : List (Event R)} {key : String} {position : Nat}

omit messages hash

theorem drop_concat (event : Event R) (within : position ≤ log.length) :
    (log ++ [event]).drop position = log.drop position ++ [event] :=
  List.drop_append_of_le_length within

theorem take_concat (event : Event R) (within : position ≤ log.length) :
    (log ++ [event]).take position = log.take position :=
  List.take_append_of_le_length within

theorem not_invalidated_answered {events : List (Event R)} {key' : Option String}
    {begun started : Nat} {answer : Except CqrsError R} (spared : ¬ Invalidated events key) :
    ¬ Invalidated (events ++ [.answered key' begun started answer]) key := by
  rintro ⟨start, member, covers⟩
  exact spared ⟨start, by simpa using member, covers⟩

theorem not_invalidated_concat {events : List (Event R)} {start : String}
    (spared : ¬ Invalidated events key) (other : Cache.startsWith key start = false) :
    ¬ Invalidated (events ++ [.invalidated start]) key := by
  rintro ⟨start', member, covers⟩
  rcases List.mem_append.mp member with before | last
  · exact spared ⟨start', before, covers⟩
  · obtain rfl : start' = start := by simpa using last
    rw [other] at covers
    exact Bool.false_ne_true covers

theorem not_invalidated_take {begun started : Nat} (spared : ¬ Invalidated (log.drop started) key) :
    ¬ Invalidated ((log.take begun).drop started) key := by
  rintro ⟨start, member, covers⟩
  refine spared ⟨start, ?_, covers⟩
  rw [List.drop_take] at member
  exact List.mem_of_mem_take member

theorem not_invalidated_own {begun started : Nat} (after : begun ≤ started) :
    ¬ Invalidated ((log.take begun).drop started) key := by
  have none_left : (log.take begun).drop started = [] := by
    apply List.drop_eq_nil_of_le
    exact (List.length_take_le _ _).trans after
  rintro ⟨start, member, -⟩
  simp [none_left] at member

end Log

def Stage.Timely (begun now : Nat) : Stage R → Prop
  | .running _ started => begun ≤ started ∧ started ≤ now
  | .storing _ _ computed => begun ≤ computed.started ∧ computed.started ≤ now
  | _ => True

structure Inv (s : State M C R) : Prop where
  final : Final s
  past : ∀ key begun started answer, .answered key begun started answer ∈ s.log →
    begun ≤ s.log.length
  entries : ∀ (key : String) (entry : CacheEntry (Computed R)), s.cache[key]? = some entry →
    entry.value.started ≤ s.log.length ∧ ¬ Invalidated (s.log.drop entry.value.started) key
  tasks : ∀ task work, s.tasks task = some work →
    work.begun ≤ s.log.length ∧ work.stage.Timely work.begun s.log.length

theorem enter_timely (env : Envelope M C) {begun now : Nat} :
    (enter messages hash env : Stage R).Timely begun now := by
  rw [enter]
  cases cacheTtl messages env with
  | none => trivial
  | some ttl => cases keyOf messages hash env <;> trivial

section Inv

variable {s : State M C R} {task : Nat} {work : Task M C R}

omit messages hash

theorem Stage.Timely.later {begun now later : Nat} {stage : Stage R}
    (timely : stage.Timely begun now) (le : now ≤ later) : stage.Timely begun later := by
  cases stage with
  | running slot started => exact ⟨timely.1, timely.2.trans le⟩
  | storing key ttl computed => exact ⟨timely.1, timely.2.trans le⟩
  | _ => trivial

theorem inv_start : Inv (start : State M C R) :=
  ⟨by simp [Final, start], by simp [start], by simp [start], by simp [start]⟩

theorem Inv.put (inv : Inv s) (works : s.tasks task = some work) {stage : Stage R}
    (timely : stage.Timely work.begun s.log.length) : Inv (s.put task work stage) where
  final := inv.final
  past := inv.past
  entries := inv.entries
  tasks other work' held := by
    simp only [State.put, Function.update_apply] at held
    split at held
    · obtain rfl := Option.some.inj held
      exact ⟨(inv.tasks task work works).1, timely⟩
    · exact inv.tasks other work' held

theorem final_concat (inv : Inv s) {event : Event R}
    (final : ∀ key begun started answer, event = .answered (some key) begun started answer →
      begun ≤ s.log.length ∧ ¬ Invalidated ((s.log.take begun).drop started) key) :
    ∀ key begun started answer, .answered (some key) begun started answer ∈ s.log ++ [event] →
      ¬ Invalidated (((s.log ++ [event]).take begun).drop started) key := by
  intro key begun started answer member
  rcases List.mem_append.mp member with before | last
  · rw [take_concat event (inv.past _ _ _ _ before)]
    exact inv.final key begun started answer before
  · obtain ⟨within, spared⟩ := final key begun started answer (List.mem_singleton.mp last).symm
    rwa [take_concat event within]

theorem Inv.answer (inv : Inv s) (works : s.tasks task = some work) {key : Option String}
    {started : Nat} {answer : Except CqrsError R}
    (spared : ∀ key', key = some key' →
      ¬ Invalidated ((s.log.take work.begun).drop started) key') :
    Inv (s.answer task (.answered key work.begun started answer)) where
  final := by
    apply final_concat inv
    rintro key' begun started' answer' same
    obtain ⟨own, rfl, rfl, -⟩ := Event.answered.inj same
    exact ⟨(inv.tasks task work works).1, spared key' own⟩
  past key' begun started' answer' member := by
    simp only [State.answer, List.length_append, List.length_singleton]
    rcases List.mem_append.mp member with before | last
    · exact (inv.past key' begun started' answer' before).trans (Nat.le_succ _)
    · obtain ⟨-, rfl, -⟩ := Event.answered.inj (List.mem_singleton.mp last)
      exact (inv.tasks task work works).1.trans (Nat.le_succ _)
  entries key' entry held := by
    obtain ⟨within, fresh⟩ := inv.entries key' entry held
    simp only [State.answer]
    rw [drop_concat _ within, List.length_append]
    exact ⟨within.trans (Nat.le_succ _), not_invalidated_answered fresh⟩
  tasks other work' held := by
    simp only [State.answer, Function.update_apply] at held ⊢
    split at held
    · simp at held
    · obtain ⟨begun, timely⟩ := inv.tasks other work' held
      rw [List.length_append]
      exact ⟨begun.trans (Nat.le_succ _), timely.later (Nat.le_succ _)⟩

theorem Inv.stored (inv : Inv s) {key : String} {computed : Computed R}
    (within : computed.started ≤ s.log.length)
    (fresh : ¬ Invalidated (s.log.drop computed.started) key) (ttl : Nat) :
    Inv { s with cache := s.cache.store s.now key computed ttl } where
  final := inv.final
  past := inv.past
  entries key' entry held := by
    simp only [QueryCache.store, Std.TreeMap.getElem?_insert] at held
    split at held
    · rename_i same
      obtain rfl := Option.some.inj held
      obtain rfl : key = key' := by simpa using same
      exact ⟨within, fresh⟩
    · exact inv.entries key' entry held
  tasks := inv.tasks

theorem Inv.invalidate (inv : Inv s) (start : String) :
    Inv { s with
      cache := invalidate s.cache start
      log := s.log ++ [.invalidated start] } where
  final := by
    apply final_concat inv
    rintro key begun started answer same
    cases same
  past key begun started answer member := by
    rcases List.mem_append.mp member with before | last
    · rw [List.length_append]
      exact (inv.past key begun started answer before).trans (Nat.le_succ _)
    · simp at last
  entries key entry held := by
    simp only [Invalidation.invalidate, Std.TreeMap.getElem?_filter',
      Option.filter_eq_some_iff, Bool.not_eq_true'] at held
    obtain ⟨within, fresh⟩ := inv.entries key entry held.1
    simp only
    rw [drop_concat _ within, List.length_append]
    exact ⟨within.trans (Nat.le_succ _), not_invalidated_concat fresh held.2⟩
  tasks other work' held := by
    obtain ⟨begun, timely⟩ := inv.tasks other work' held
    simp only [List.length_append]
    exact ⟨begun.trans (Nat.le_succ _), timely.later (Nat.le_succ _)⟩

theorem Inv.lookup (inv : Inv s) (works : s.tasks task = some work) :
    Inv (advance s task work (.lookup task) work.stage) := by
  cases staged : work.stage with
  | asking key ttl =>
    simp only [advance]
    cases found : s.cache.lookup s.now key with
    | none => exact inv.put works trivial
    | some hit =>
      apply inv.answer works
      intro key' same
      obtain rfl : key = key' := Option.some.inj same
      obtain ⟨entry, held, rfl⟩ := lookup_entry found
      exact not_invalidated_take (inv.entries key entry held).2
  | _ => exact inv

theorem Inv.handle (inv : Inv s) (works : s.tasks task = some work) :
    Inv (advance s task work (.handle task) work.stage) := by
  cases staged : work.stage with
  | missed slot => exact inv.put works ⟨(inv.tasks task work works).1, le_refl _⟩
  | _ => exact inv

theorem Inv.finish (inv : Inv s) (works : s.tasks task = some work)
    (answer : Except CqrsError R) :
    Inv (advance s task work (.finish task answer) work.stage) := by
  cases staged : work.stage with
  | running slot started =>
    have timely := (inv.tasks task work works).2
    rw [staged] at timely
    cases answer with
    | error e => exact inv.answer works fun _ _ => not_invalidated_own timely.1
    | ok result =>
      cases slot with
      | none => exact inv.answer works fun _ _ => not_invalidated_own timely.1
      | some slot => exact inv.put works timely
  | _ => exact inv

theorem Inv.store (inv : Inv s) (works : s.tasks task = some work)
    (fresh : work.stage.Fresh s.log) :
    Inv (advance s task work (.store task) work.stage) := by
  cases staged : work.stage with
  | storing key ttl computed =>
    have timely := (inv.tasks task work works).2
    rw [staged] at timely fresh
    have stored := inv.stored timely.2 fresh ttl
    exact stored.answer works fun _ _ => not_invalidated_own timely.1
  | _ => exact inv

theorem Inv.advanceTask (inv : Inv s) {choice : Choice M C R}
    (advances : ∀ work, s.tasks task = some work → Inv (advance s task work choice work.stage)) :
    Inv (advanceTask s task choice) := by
  rw [Invalidation.advanceTask]
  cases works : s.tasks task with
  | none => exact inv
  | some work => exact advances work works

end Inv

theorem step_inv (s : State M C R) (choice : Choice M C R) (s' : State M C R)
    (fresh : Fresh s choice) (inv : Inv s) (stepped : step messages hash s choice = some s') :
    Inv s' := by
  cases choice with
  | dispatch task envelope =>
    simp only [step] at stepped
    split at stepped
    · obtain rfl := Option.some.inj stepped
      exact inv
    · obtain rfl := Option.some.inj stepped
      refine ⟨inv.final, inv.past, inv.entries, ?_⟩
      intro other work held
      simp only [Function.update_apply] at held
      split at held
      · obtain rfl := Option.some.inj held
        exact ⟨le_refl _, enter_timely messages hash envelope⟩
      · exact inv.tasks other work held
  | lookup task =>
    obtain rfl := Option.some.inj stepped
    exact inv.advanceTask fun work works => inv.lookup works
  | handle task =>
    obtain rfl := Option.some.inj stepped
    exact inv.advanceTask fun work works => inv.handle works
  | finish task answer =>
    obtain rfl := Option.some.inj stepped
    exact inv.advanceTask fun work works => inv.finish works answer
  | store task =>
    obtain rfl := Option.some.inj stepped
    exact inv.advanceTask fun work works => inv.store works (fresh work works)
  | invalidate start =>
    obtain rfl := Option.some.inj stepped
    exact inv.invalidate start
  | invalidateType typeName =>
    obtain rfl := Option.some.inj stepped
    exact inv.invalidate (typeName ++ ":")
  | pass duration =>
    obtain rfl := Option.some.inj stepped
    exact ⟨inv.final, inv.past, inv.entries, inv.tasks⟩

theorem invalidation_final (choices : List (Choice M C R))
    (fresh : Along (step messages hash) Fresh start choices) :
    Always (step messages hash) Final start choices :=
  (fresh.always Inv (step_inv messages hash) inv_start).mono fun _ inv => inv.final

def Stage.slot : Stage R → Option (String × Nat)
  | .asking key ttl => some (key, ttl)
  | .missed slot => slot
  | .running slot _ => slot
  | .storing key ttl _ => some (key, ttl)

def Keyed (s : State M C R) : Prop :=
  ∀ task work, s.tasks task = some work → ∀ key ttl, work.stage.slot = some (key, ttl) →
    (enter messages hash work.envelope : Stage R) = .asking key ttl

theorem enter_slot {env : Envelope M C} {key : String} {ttl : Nat}
    (slotted : (enter messages hash env : Stage R).slot = some (key, ttl)) :
    (enter messages hash env : Stage R) = .asking key ttl := by
  rw [enter] at slotted ⊢
  cases lifetime : cacheTtl messages env with
  | none => simp [lifetime, Stage.slot] at slotted
  | some ttl' =>
    cases derived : keyOf messages hash env with
    | error e => simp [lifetime, derived, Stage.slot] at slotted
    | ok key' => simpa [lifetime, derived, Stage.slot] using slotted

section Keyed

variable {messages hash}
variable {s : State M C R} {task : Nat} {work : Task M C R}

theorem Keyed.put (keyed : Keyed messages hash s) (works : s.tasks task = some work)
    {stage : Stage R} (slot : stage.slot = work.stage.slot) :
    Keyed messages hash (s.put task work stage) := by
  intro other work' held key ttl slotted
  simp only [State.put, Function.update_apply] at held
  split at held
  · obtain rfl := Option.some.inj held
    exact keyed task work works key ttl (slot.symm.trans slotted)
  · exact keyed other work' held key ttl slotted

theorem Keyed.answer (keyed : Keyed messages hash s) (event : Event R) :
    Keyed messages hash (s.answer task event) := by
  intro other work' held
  simp only [State.answer, Function.update_apply] at held
  split at held
  · simp at held
  · exact keyed other work' held

theorem Keyed.advance (keyed : Keyed messages hash s) (works : s.tasks task = some work)
    (choice : Choice M C R) : Keyed messages hash (advance s task work choice work.stage) := by
  unfold Invalidation.advance
  split
  · rename_i staged
    split
    · exact keyed.answer _
    · exact keyed.put works (by rw [staged]; rfl)
  · rename_i staged
    exact keyed.put works (by rw [staged]; rfl)
  · rename_i answer slot started staged
    cases answer with
    | error e => exact keyed.answer _
    | ok result =>
      cases slot with
      | none => exact keyed.answer _
      | some slot => exact keyed.put works (by rw [staged]; rfl)
  · exact Keyed.answer (s := { s with cache := s.cache.store s.now _ _ _ }) keyed _
  · exact keyed

theorem Keyed.advanceTask (keyed : Keyed messages hash s) (choice : Choice M C R) :
    Keyed messages hash (advanceTask s task choice) := by
  rw [Invalidation.advanceTask]
  cases works : s.tasks task with
  | none => exact keyed
  | some work => exact keyed.advance works choice

theorem step_keyed {choice : Choice M C R} {s' : State M C R} (keyed : Keyed messages hash s)
    (stepped : step messages hash s choice = some s') : Keyed messages hash s' := by
  cases choice with
  | dispatch task envelope =>
    simp only [step] at stepped
    split at stepped
    · obtain rfl := Option.some.inj stepped
      exact keyed
    · obtain rfl := Option.some.inj stepped
      intro other work held key ttl slotted
      simp only [Function.update_apply] at held
      split at held
      · obtain rfl := Option.some.inj held
        exact enter_slot messages hash slotted
      · exact keyed other work held key ttl slotted
  | lookup | handle | finish | store =>
    obtain rfl := Option.some.inj stepped
    exact keyed.advanceTask _
  | invalidate | invalidateType | pass =>
    obtain rfl := Option.some.inj stepped
    exact keyed

end Keyed

theorem lookup_store {V : Type} (cache : QueryCache V) (now : Nat) (key : String) (value : V)
    (ttl : Nat) : (cache.store now key value ttl).lookup now key = some value := by
  simp only [QueryCache.lookup, QueryCache.store, Std.TreeMap.getElem?_insert_self]
  by_cases lasting : ttl > 0
  · simp [lasting]
  · simp [lasting]

theorem stored_of_stale {log : List (Event R)} {stage : Stage R} (stale : ¬ stage.Fresh log) :
    ∃ key ttl computed, stage = .storing key ttl computed ∧
      Invalidated (log.drop computed.started) key := by
  cases stage with
  | storing key ttl computed => exact ⟨key, ttl, computed, rfl, not_not.mp stale⟩
  | _ => exact absurd trivial stale

theorem stale_store_seen (choices : List (Choice M C R)) {s : State M C R}
    (ran : run (step messages hash) start choices = some s) {task : Nat}
    (stale : ¬ Fresh s (.store task)) :
    ∃ envelope s', run (step messages hash) s [.store task, .dispatch task envelope, .lookup task] =
      some s' ∧ ¬ Final s' := by
  have keyed : Keyed messages hash s :=
    run_invariant (Keyed messages hash) (fun _ _ _ _ kept stepped => step_keyed kept stepped)
      (by simp [Keyed, start]) ran
  simp only [Fresh, not_forall] at stale
  obtain ⟨work, works, stale⟩ := stale
  obtain ⟨key, ttl, computed, staged, start', member, covers⟩ := stored_of_stale stale
  have asks : (enter messages hash work.envelope : Stage R) = .asking key ttl :=
    keyed task work works key ttl (by rw [staged]; rfl)
  have found := lookup_store s.cache s.now key computed ttl
  let stored := { s with cache := s.cache.store s.now key computed ttl }.answer task
    (.answered (some key) work.begun computed.started (.ok computed.result))
  let asked : State M C R := { stored with
    tasks := Function.update stored.tasks task
      (some { envelope := work.envelope, begun := stored.log.length, stage := .asking key ttl }) }
  have first : step messages hash s (.store task) = some stored := by
    simp only [step, advanceTask, Option.mem_def.mp works, staged, advance, stored]
  have second : step messages hash stored (.dispatch task work.envelope) = some asked := by
    have free : stored.tasks task = none := by simp [stored, State.answer]
    simp only [step, free, Option.isSome_none, Bool.false_eq_true, if_false, asks, asked]
  let answered := asked.answer task
    (.answered (some key) stored.log.length computed.started (.ok computed.result))
  have third : step messages hash asked (.lookup task) = some answered := by
    have hit : asked.cache.lookup asked.now key = some computed := found
    have waits : asked.tasks task = some
        { envelope := work.envelope, begun := stored.log.length, stage := .asking key ttl } := by
      simp [asked]
    simp only [step, advanceTask, waits, advance, hit]
    rfl
  refine ⟨work.envelope, answered, ?_, ?_⟩
  · rw [run_cons, first, Option.bind_some, run_cons, second, Option.bind_some, run_cons, third]
    rfl
  · intro final
    refine final key stored.log.length computed.started (.ok computed.result)
      (List.mem_append_right _ (List.mem_singleton_self _)) ⟨start', ?_, covers⟩
    have before : answered.log.take stored.log.length = stored.log := List.take_left
    rw [before]
    simp only [stored, State.answer, List.drop_append]
    exact List.mem_append_left _ member

end Dispatches

def count : Messages Unit Unit where
  typeId _ := 0
  typeName _ := "Count"
  validate _ := .ok ()
  cacheTtl _ := some 0
  cacheJson _ := .ok []
  authorize _ _ := { authorized := true, errors := [], summary := none }

def counting : Envelope Unit Unit :=
  { message := (), context := none, cacheTtlOverride := none, cacheKeyOverride := none }

theorem counted_again :
    Always (step count fun _ => "0") Final (start : State Unit Unit Nat)
      [.dispatch 0 counting, .lookup 0, .handle 0, .finish 0 (.ok 1), .store 0,
        .invalidateType "Count", .dispatch 1 counting, .lookup 1] := by
  exact invalidation_final count (fun _ => "0") _ (by decide)

theorem old_count_returned :
    ¬ ∀ choices : List (Choice Unit Unit Nat), Always (step count fun _ => "0") Final start choices := by
  intro always
  have final := always [.dispatch 0 counting, .lookup 0, .handle 0, .invalidateType "Count",
    .finish 0 (.ok 1), .store 0, .dispatch 1 counting, .lookup 1] _ [] (List.append_nil _).symm _ rfl
  exact final "Count:0" 2 0 (.ok 1) (by decide) ⟨"Count:", by decide, by decide⟩

end Firefly.Cqrs.Invalidation
