import Firefly.Cache.Failover
import Firefly.Cache.Memory

set_option autoImplicit false

namespace Firefly.Cache.Winners

open Runs

inductive Call where
  | setIfAbsent (key : String) (value : List UInt8) (ttl : Option Nat)
  | delete (key : String)
  | get (key : String)
  | exists (key : String)
deriving DecidableEq, Repr

/-- What a caller has learnt from the primary; it still has to call the secondary. -/
structure Pending where
  call : Call
  stored : Bool
deriving DecidableEq, Repr

inductive Event where
  | won (key : String) (time : Nat) (expiry : Option Nat)
  | deleted (key : String)
deriving DecidableEq, Repr

structure State where
  primary : MemoryAdapter
  secondary : MemoryAdapter
  now : Nat
  callers : Nat → Option Pending
  log : List Event

-- `entries` is what the secondary, a memory adapter without a bound, holds at the beginning.
def start (primary : MemoryAdapter) (entries : Std.TreeMap String MemEntry) : State :=
  { primary, secondary := { entries }, now := 0, callers := fun _ => none, log := [] }

-- A failed call has no effect; an error that is no transport failure ends the whole call.
def failed (error : CacheError) (call : Call) (primary : MemoryAdapter) :
    MemoryAdapter × Option Pending :=
  match call with
  | .get _ => (primary, some { call, stored := false })
  | _ => (primary, if isTransport error then some { call, stored := false } else none)

def atPrimary (now : Nat) (failure : Option CacheError) (primary : MemoryAdapter) (call : Call) :
    MemoryAdapter × Option Pending :=
  match failure with
  | some error => failed error call primary
  | none =>
    match call with
    | .setIfAbsent key value ttl =>
      let (stored, primary) := primary.setIfAbsent now key value ttl
      (primary, some { call, stored })
    | .delete key => (primary.delete key, some { call, stored := false })
    | .get key =>
      match primary.get now key with
      | (.ok _, primary) => (primary, none)
      | (.error _, primary) => (primary, some { call, stored := false })
    | .exists key =>
      match primary.exists' now key with
      | (true, primary) => (primary, none)
      | (false, primary) => (primary, some { call, stored := false })

def atSecondary (now : Nat) (secondary : MemoryAdapter) (pending : Pending) :
    MemoryAdapter × Option Event :=
  match pending.call with
  | .setIfAbsent key value ttl =>
    let (stored, secondary) := secondary.setIfAbsent now key value ttl
    (secondary, if pending.stored || stored then some (.won key now (deadline now ttl)) else none)
  | .delete key => (secondary.delete key, some (.deleted key))
  | .get key => ((secondary.get now key).2, none)
  | .exists key => ((secondary.exists' now key).2, none)

inductive Choice where
  | begin (caller : Nat) (call : Call) (failure : Option CacheError)
  | finish (caller : Nat)
  | pass (duration : Nat)
deriving DecidableEq, Repr

def step (s : State) : Choice → Option State
  | .begin caller call failure =>
    -- a caller makes one call after the other
    if (s.callers caller).isSome then some s
    else
      let (primary, pending) := atPrimary s.now failure s.primary call
      some { s with primary, callers := Function.update s.callers caller pending }
  | .finish caller =>
    match s.callers caller with
    | none => some s
    | some pending =>
      let (secondary, event) := atSecondary s.now s.secondary pending
      some { s with
        secondary
        callers := Function.update s.callers caller none
        log := s.log ++ event.toList }
  | .pass duration => some { s with now := s.now + duration }

def standing (key : String) (log : List Event) : List (Option Nat) :=
  log.foldl (fun expiries event =>
    match event with
    | .won other _ expiry => if other = key then expiries ++ [expiry] else expiries
    | .deleted other => if other = key then [] else expiries) []

def OneWinner (log : List Event) : Prop :=
  Guarded (fun before event => ∀ key time expiry, event = .won key time expiry →
    ∀ earlier ∈ standing key before, pastDeadline time earlier = true) log

def liveAt (now : Nat) (store : MemoryAdapter) (key : String) : Bool :=
  store.entries[key]?.any fun entry => !entry.expired now

/-- A `set_if_absent` that has stored its key in the primary finds no live entry of the key in the
secondary. -/
def Level (s : State) : Choice → Prop
  | .finish caller => ∀ key value ttl,
      s.callers caller = some { call := .setIfAbsent key value ttl, stored := true } →
      liveAt s.now s.secondary key = false
  | _ => True

section Secondary

variable {now time : Nat} {store : MemoryAdapter} {key other : String}

theorem expired_later {entry : MemEntry} (later : now ≤ time)
    (expired : entry.expired now = true) : entry.expired time = true := by
  cases exp : entry.exp with
  | none => simp [MemEntry.expired, pastDeadline, exp] at expired
  | some deadline =>
    simp only [MemEntry.expired, pastDeadline, exp, decide_eq_true_eq] at expired ⊢
    omega

theorem liveAt_delete :
    liveAt time (store.delete key) other = if key = other then false else liveAt time store other := by
  by_cases same : key = other <;>
    simp [liveAt, MemoryAdapter.delete, Std.TreeMap.getElem?_erase, same]

theorem liveAt_collected (other : String) (dead : liveAt now store key = false) (later : now ≤ time) :
    liveAt time { store with entries := store.entries.erase key } other =
      liveAt time store other := by
  by_cases same : key = other
  · subst same
    cases held : store.entries[key]? with
    | none => simp [liveAt, held]
    | some entry =>
      have expired : entry.expired now = true := by simpa [liveAt, held] using dead
      simp [liveAt, held, expired_later later expired]
  · simp [liveAt, Std.TreeMap.getElem?_erase, same]

theorem liveAt_get (later : now ≤ time) :
    liveAt time (store.get now key).2 other = liveAt time store other := by
  simp only [MemoryAdapter.get]
  cases held : store.entries[key]? with
  | none => rfl
  | some entry =>
    cases expired : entry.expired now with
    | true =>
      have dead : liveAt now store key = false := by simp [liveAt, held, expired]
      simpa [liveAt, expired] using liveAt_collected other dead later
    | false =>
      -- the access stamp moves, the expiry does not
      simp only [expired, Bool.not_false, if_true]
      by_cases same : key = other
      · subst same
        simp [liveAt, held, MemEntry.expired]
      · simp [liveAt, Std.TreeMap.getElem?_insert, same]

theorem liveAt_exists (later : now ≤ time) :
    liveAt time (store.exists' now key).2 other = liveAt time store other := by
  simp only [MemoryAdapter.exists']
  cases held : store.entries[key]? with
  | none => rfl
  | some entry =>
    cases expired : entry.expired now with
    | true =>
      have dead : liveAt now store key = false := by simp [liveAt, held, expired]
      simpa [liveAt, expired] using liveAt_collected other dead later
    | false => simp [expired]

theorem setIfAbsent_eq (value : List UInt8) (ttl : Option Nat) :
    store.setIfAbsent now key value ttl =
      if liveAt now store key then (false, { store with accessSeq := store.accessSeq + 1 })
      else (true, MemoryAdapter.insert now { store with accessSeq := store.accessSeq + 1 } key value
        ttl store.accessSeq) := by
  unfold MemoryAdapter.setIfAbsent
  cases held : store.entries[key]? with
  | none => simp [liveAt, held]
  | some entry => cases expired : entry.expired now <;> simp [liveAt, held, expired]

theorem liveAt_insert (roomy : store.maxEntries = none) (value : List UInt8) (ttl : Option Nat)
    (seq : Nat) :
    liveAt time (MemoryAdapter.insert now store key value ttl seq) other =
      if key = other then !pastDeadline time (deadline now ttl) else liveAt time store other := by
  by_cases same : key = other <;>
    simp [liveAt, MemoryAdapter.insert, MemoryAdapter.enforceBound, roomy,
      Std.TreeMap.getElem?_insert, same, MemEntry.expired]

end Secondary

def Granted (log : List Event) (key : String) (time : Nat) : Prop :=
  ∃ expiry ∈ standing key log, pastDeadline time expiry = false

section Standing

variable {log : List Event} {key other : String} {time : Nat}

theorem granted_won {at_ : Nat} {expiry : Option Nat} :
    Granted (log ++ [.won other at_ expiry]) key time ↔
      Granted log key time ∨ other = key ∧ pastDeadline time expiry = false := by
  by_cases same : other = key
  · simp only [Granted, standing, List.foldl_append, List.foldl_cons, List.foldl_nil, same, if_true,
      List.mem_append, List.mem_singleton, true_and]
    constructor
    · rintro ⟨earlier, before | rfl, alive⟩
      · exact Or.inl ⟨earlier, before, alive⟩
      · exact Or.inr alive
    · rintro (⟨earlier, before, alive⟩ | alive)
      · exact ⟨earlier, Or.inl before, alive⟩
      · exact ⟨expiry, Or.inr rfl, alive⟩
  · simp [Granted, standing, List.foldl_append, same]

theorem granted_deleted :
    Granted (log ++ [.deleted other]) key time ↔ other ≠ key ∧ Granted log key time := by
  by_cases same : other = key <;> simp [Granted, standing, List.foldl_append, same]

theorem Granted.earlier {now : Nat} (granted : Granted log key time) (later : now ≤ time) :
    Granted log key now := by
  obtain ⟨expiry, among, alive⟩ := granted
  refine ⟨expiry, among, ?_⟩
  cases expiry with
  | none => rfl
  | some deadline =>
    simp only [pastDeadline, decide_eq_false_iff_not] at alive ⊢
    omega

theorem oneWinner_won {expiry : Option Nat} (one : OneWinner log) :
    OneWinner (log ++ [.won key time expiry]) ↔ ¬ Granted log key time := by
  constructor
  · rintro guarded ⟨earlier, among, alive⟩
    have expired := guarded log (.won key time expiry) [] rfl key time expiry rfl earlier among
    rw [alive] at expired
    cases expired
  · intro free
    refine guarded_concat one ?_
    rintro _ _ _ ⟨⟩ earlier among
    rw [← Bool.not_eq_false]
    intro alive
    exact free ⟨earlier, among, alive⟩

theorem oneWinner_deleted (one : OneWinner log) : OneWinner (log ++ [.deleted key]) := by
  refine guarded_concat one ?_
  rintro _ _ _ ⟨⟩

theorem oneWinner_nil : OneWinner [] := guarded_nil _

end Standing

structure Backed (s : State) : Prop where
  roomy : s.secondary.maxEntries = none
  known : ∀ key time, s.now ≤ time → Granted s.log key time → liveAt time s.secondary key = true

def Tight (s : State) : Prop :=
  ∀ key time, s.now ≤ time → liveAt time s.secondary key = true → Granted s.log key time

variable {s : State}

structure Alike (s next : State) : Prop where
  roomy : next.secondary.maxEntries = s.secondary.maxEntries
  later : s.now ≤ next.now
  same : ∀ key time, next.now ≤ time →
    liveAt time next.secondary key = liveAt time s.secondary key
  log : next.log = s.log

theorem Alike.backed {next : State} (alike : Alike s next) (backed : Backed s) : Backed next where
  roomy := alike.roomy.trans backed.roomy
  known := by
    intro key time later granted
    rw [alike.same key time later]
    exact backed.known key time (alike.later.trans later) (alike.log ▸ granted)

theorem Alike.tight {next : State} (alike : Alike s next) (tight : Tight s) : Tight next := by
  intro key time later held
  rw [alike.log]
  exact tight key time (alike.later.trans later) (by rwa [← alike.same key time later])

inductive Moves (s : State) : Choice → State → Prop where
  | alike (choice : Choice) (next : State) : Alike s next → Level s choice → Moves s choice next
  | won (caller : Nat) (key : String) (value : List UInt8) (ttl : Option Nat) (stored : Bool)
      (next : State) :
      s.callers caller = some { call := .setIfAbsent key value ttl, stored } →
      liveAt s.now s.secondary key = false →
      next.now = s.now → next.secondary.maxEntries = s.secondary.maxEntries →
      (∀ other time, liveAt time next.secondary other =
        if key = other then !pastDeadline time (deadline s.now ttl)
        else liveAt time s.secondary other) →
      next.log = s.log ++ [.won key s.now (deadline s.now ttl)] → Moves s (.finish caller) next
  | overlapped (caller : Nat) (key : String) (value : List UInt8) (ttl : Option Nat)
      (next : State) :
      s.callers caller = some { call := .setIfAbsent key value ttl, stored := true } →
      liveAt s.now s.secondary key = true →
      next.log = s.log ++ [.won key s.now (deadline s.now ttl)] → Moves s (.finish caller) next
  | deleted (caller : Nat) (key : String) (stored : Bool) (next : State) :
      s.callers caller = some { call := .delete key, stored } →
      next.now = s.now → next.secondary.maxEntries = s.secondary.maxEntries →
      (∀ other time, liveAt time next.secondary other =
        if key = other then false else liveAt time s.secondary other) →
      next.log = s.log ++ [.deleted key] → Moves s (.finish caller) next

theorem step_moves (roomy : s.secondary.maxEntries = none) (choice : Choice) :
    ∃ next, step s choice = some next ∧ Moves s choice next := by
  cases choice with
  | begin caller call failure =>
    by_cases busy : (s.callers caller).isSome = true
    · exact ⟨s, by simp [step, busy], .alike _ _ ⟨rfl, le_rfl, fun _ _ _ => rfl, rfl⟩ trivial⟩
    · refine ⟨_, by simp only [step, busy, if_neg, Bool.false_eq_true, not_false_eq_true]; rfl, ?_⟩
      exact .alike _ _ ⟨rfl, le_rfl, fun _ _ _ => rfl, rfl⟩ trivial
  | pass duration =>
    exact ⟨_, rfl, .alike _ _ ⟨rfl, Nat.le_add_right _ _, fun _ _ _ => rfl, rfl⟩ trivial⟩
  | finish caller =>
    cases waiting : s.callers caller with
    | none =>
      refine ⟨s, by simp [step, waiting], .alike _ _ ⟨rfl, le_rfl, fun _ _ _ => rfl, rfl⟩ ?_⟩
      simp [Level, waiting]
    | some pending =>
      refine ⟨_, by simp only [step, waiting]; rfl, ?_⟩
      obtain ⟨call, stored⟩ := pending
      cases call with
      | setIfAbsent key value ttl =>
        cases live : liveAt s.now s.secondary key with
        | true =>
          cases stored with
          | true => exact .overlapped caller key value ttl _ waiting live (by simp [atSecondary])
          | false =>
            refine .alike _ _ ⟨?_, le_rfl, ?_, ?_⟩ ?_
            · simp [atSecondary, setIfAbsent_eq, live]
            · intro other time _
              simp only [atSecondary, setIfAbsent_eq, live, if_true]
              rfl
            · simp [atSecondary, setIfAbsent_eq, live]
            · simp [Level, waiting]
        | false =>
          refine .won caller key value ttl stored _ waiting live rfl ?_ ?_ ?_
          · simp [atSecondary, setIfAbsent_eq, live, MemoryAdapter.insert]
          · intro other time
            simp only [atSecondary, setIfAbsent_eq, live, Bool.false_eq_true, if_false]
            exact liveAt_insert roomy value ttl _
          · simp [atSecondary, setIfAbsent_eq, live]
      | delete key =>
        refine .deleted caller key stored _ waiting rfl rfl ?_ rfl
        intro other time
        exact liveAt_delete
      | get key =>
        refine .alike _ _ ⟨?_, le_rfl, ?_, by simp [atSecondary]⟩ (by simp [Level, waiting])
        · simp only [atSecondary, MemoryAdapter.get]
          split <;> [rfl; (split <;> rfl)]
        · intro other time later
          exact liveAt_get later
      | «exists» key =>
        refine .alike _ _ ⟨?_, le_rfl, ?_, by simp [atSecondary]⟩ (by simp [Level, waiting])
        · simp only [atSecondary, MemoryAdapter.exists']
          split <;> [rfl; (split <;> rfl)]
        · intro other time later
          exact liveAt_exists later

theorem Moves.backed {choice : Choice} {next : State} (moves : Moves s choice next)
    (backed : Backed s) (level : Level s choice) : Backed next := by
  cases moves with
  | alike _ _ alike _ => exact alike.backed backed
  | won caller key value ttl stored _ _ dead now room live log =>
    refine ⟨room.trans backed.roomy, fun other time later granted => ?_⟩
    rw [log, granted_won] at granted
    rw [live]
    split
    next same =>
      rcases granted with before | ⟨-, alive⟩
      · -- nothing was live under the key, so no win of it stood
        subst same
        have standing := backed.known key s.now le_rfl (before.earlier (by omega))
        rw [dead] at standing
        cases standing
      · simp [alive]
    next differs =>
      rcases granted with before | ⟨same, -⟩
      · exact backed.known other time (by omega) before
      · exact absurd same differs
  | overlapped caller key value ttl _ waiting live _ =>
    have dead := level key value ttl waiting
    rw [live] at dead
    cases dead
  | deleted caller key stored _ _ now room live log =>
    refine ⟨room.trans backed.roomy, fun other time later granted => ?_⟩
    rw [log, granted_deleted] at granted
    rw [live, if_neg granted.1]
    exact backed.known other time (by omega) granted.2

theorem Moves.oneWinner {choice : Choice} {next : State} (moves : Moves s choice next)
    (backed : Backed s) (one : OneWinner s.log) (level : Level s choice) : OneWinner next.log := by
  cases moves with
  | alike _ _ alike _ => rwa [alike.log]
  | won caller key value ttl stored _ _ dead _ _ _ log =>
    rw [log, oneWinner_won one]
    intro granted
    have standing := backed.known key s.now le_rfl granted
    rw [dead] at standing
    cases standing
  | overlapped caller key value ttl _ waiting live _ =>
    have dead := level key value ttl waiting
    rw [live] at dead
    cases dead
  | deleted caller key stored _ _ _ _ _ log =>
    rw [log]
    exact oneWinner_deleted one

-- Where the secondary holds nothing else than standing wins, a step that is not level lets a
-- second caller win.
theorem Moves.level {choice : Choice} {next : State} (moves : Moves s choice next)
    (tight : Tight s) (one : OneWinner s.log) (still : OneWinner next.log) : Level s choice := by
  cases moves with
  | alike _ _ _ level => exact level
  | won caller key value ttl stored _ waiting dead _ _ _ _ =>
    intro key' value' ttl' waiting'
    rw [waiting] at waiting'
    cases waiting'
    exact dead
  | overlapped caller key value ttl _ waiting live log =>
    rw [log, oneWinner_won one] at still
    exact absurd (tight key s.now le_rfl live) still
  | deleted caller key stored _ waiting _ _ _ _ =>
    intro key' value' ttl' waiting'
    rw [waiting] at waiting'
    cases waiting'

theorem Moves.tight {choice : Choice} {next : State} (moves : Moves s choice next)
    (tight : Tight s) (level : Level s choice) : Tight next := by
  cases moves with
  | alike _ _ alike _ => exact alike.tight tight
  | won caller key value ttl stored _ _ dead now _ live log =>
    intro other time later held
    rw [log, granted_won]
    rw [live] at held
    split at held
    next same => exact Or.inr ⟨same, by simpa using held⟩
    next differs => exact Or.inl (tight other time (by omega) held)
  | overlapped caller key value ttl _ waiting live _ =>
    have dead := level key value ttl waiting
    rw [live] at dead
    cases dead
  | deleted caller key stored _ _ now _ live log =>
    intro other time later held
    rw [log, granted_deleted]
    rw [live] at held
    split at held
    next => cases held
    next differs => exact ⟨differs, tight other time (by omega) held⟩

theorem start_backed (primary : MemoryAdapter) (entries : Std.TreeMap String MemEntry) :
    Backed (start primary entries) where
  roomy := rfl
  known := by
    rintro key time _ ⟨expiry, among, _⟩
    simp [start, standing] at among

theorem start_tight (primary : MemoryAdapter) : Tight (start primary ∅) := by
  intro key time _ held
  simp [start, liveAt] at held

theorem one_winner_iff (primary : MemoryAdapter) (entries : Std.TreeMap String MemEntry)
    (choices : List Choice) :
    (Along step Level (start primary entries) choices →
      Always step (fun s => OneWinner s.log) (start primary entries) choices) ∧
    (Always step (fun s => OneWinner s.log) (start primary ∅) choices ↔
      Along step Level (start primary ∅) choices) := by
  constructor
  · intro along
    have kept : Always step (fun s => Backed s ∧ OneWinner s.log) (start primary entries) choices := by
      refine along.always _ ?_ ⟨start_backed primary entries, oneWinner_nil⟩
      rintro s choice s' level ⟨backed, one⟩ stepped
      obtain ⟨next, moved, moves⟩ := step_moves backed.roomy choice
      obtain rfl : s' = next := Option.some.inj (stepped.symm.trans moved)
      exact ⟨moves.backed backed level, moves.oneWinner backed one level⟩
    exact kept.mono fun _ both => both.2
  · apply always_iff_along (I := fun s => Backed s ∧ Tight s)
    · rintro s choice ⟨backed, tight⟩ one
      obtain ⟨next, stepped, moves⟩ := step_moves backed.roomy choice
      refine ⟨next, stepped, ⟨moves.level tight one, moves.oneWinner backed one⟩, fun level => ?_⟩
      exact ⟨moves.backed backed level, moves.tight tight level⟩
    · exact ⟨start_backed primary ∅, start_tight primary⟩
    · exact oneWinner_nil

theorem two_winners :
    ∃ s, run step (start {} ∅)
        [.begin 1 (.setIfAbsent "job" [1] none) (some (.backend "connection refused")), .finish 1,
          .begin 2 (.setIfAbsent "job" [2] none) none, .finish 2] = some s ∧
      s.log = [.won "job" 0 none, .won "job" 0 none] ∧ ¬ OneWinner s.log := by
  refine ⟨_, rfl, by decide, fun one => ?_⟩
  have expired := one [.won "job" 0 none] (.won "job" 0 none) [] rfl "job" 0 none rfl none
    (by decide)
  exact absurd expired (by decide)

-- Without an outage, two callers that overlap win one store each.
example : (run step (start {} ∅)
    [.begin 1 (.setIfAbsent "job" [1] none) none, .begin 2 (.setIfAbsent "job" [2] none) none,
      .finish 2, .finish 1]).map State.log = some [.won "job" 0 none, .won "job" 0 none] := by decide

end Firefly.Cache.Winners
