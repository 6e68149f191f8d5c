import Firefly.Shared.Runs

set_option autoImplicit false

namespace Firefly.Eventsourcing.TransactionalOutbox

open Runs

inductive Phase where
  -- At the head of the loop.
  | checking
  -- Publishing the pending records, with so many to go.
  | publishing (left : Nat)
  -- In `select!`, between the stop signal and the poll interval.
  | waiting
  | exited
deriving DecidableEq, Repr

structure Relay where
  phase : Phase := .checking
  seen : Nat
deriving DecidableEq, Repr

def Relay.live (relay : Relay) : Bool := relay.phase ≠ .exited

structure Signal where
  value : Bool := false
  version : Nat := 0
deriving DecidableEq, Repr

inductive Call where
  | idle
  -- `start` found no task and holds the lock.
  | starting
  -- It has seen a stop signal to reset.
  | resetting
  | spawning
  -- `stop` took the handle of a relay.
  | stopping (relay : Nat)
  | awaiting (relay : Nat)
deriving DecidableEq, Repr

structure Outbox where
  signal : Signal := {}
  relays : List Relay := []
  task : Option Nat := none
  -- The call that holds the lock of `task` beyond one step.
  lock : Option Nat := none
  calls : Nat → Call := fun _ => .idle

inductive Choice where
  | start (call : Nat)
  | look (call : Nat)
  | reset (call : Nat)
  | spawn (call : Nat)
  | stop (call : Nat)
  | send (call : Nat)
  | join (call : Nat)
  -- A relay reads the signal at the head of its loop; else so many records are pending.
  | check (relay pending : Nat)
  | published (relay : Nat)
  | changed (relay : Nat)
  | tick (relay : Nat)
deriving DecidableEq, Repr

namespace Outbox

def set (outbox : Outbox) (call : Nat) (phase : Call) : Outbox :=
  { outbox with calls := Function.update outbox.calls call phase }

-- `watch::Sender::send`: without a receiver the value is not stored.
def send (outbox : Outbox) (value : Bool) : Outbox :=
  if outbox.relays.any Relay.live then
    { outbox with signal := ⟨value, outbox.signal.version + 1⟩ }
  else outbox

def setRelay (outbox : Outbox) (relay : Nat) (state : Relay) : Outbox :=
  { outbox with relays := outbox.relays.set relay state }

def advance (outbox : Outbox) (relay : Nat) (phase : Phase) (next : Relay → Option Relay) :
    Option Outbox := do
  let state ← outbox.relays[relay]?
  if state.phase = phase then (next state).map (outbox.setRelay relay) else none

end Outbox

def step (outbox : Outbox) : Choice → Option Outbox
  | .start call =>
    if outbox.calls call = .idle ∧ outbox.lock = none then
      if outbox.task.isSome then some outbox
      else some { outbox.set call .starting with lock := some call }
    else none
  | .look call =>
    if outbox.calls call = .starting then
      some (outbox.set call (if outbox.signal.value then .resetting else .spawning))
    else none
  | .reset call =>
    if outbox.calls call = .resetting then some ((outbox.send false).set call .spawning) else none
  | .spawn call =>
    if outbox.calls call = .spawning then
      some { outbox.set call .idle with
        relays := outbox.relays ++ [{ seen := outbox.signal.version }]
        task := some outbox.relays.length
        lock := none }
    else none
  | .stop call =>
    if outbox.calls call = .idle ∧ outbox.lock = none then
      match outbox.task with
      | none => some outbox
      | some relay => some { outbox.set call (.stopping relay) with task := none }
    else none
  | .send call =>
    match outbox.calls call with
    | .stopping relay => some ((outbox.send true).set call (.awaiting relay))
    | _ => none
  | .join call =>
    match outbox.calls call with
    | .awaiting relay =>
      if (outbox.relays[relay]?.map Relay.live) = some false then some (outbox.set call .idle)
      else none
    | _ => none
  | .check relay pending =>
    outbox.advance relay .checking fun state =>
      some { state with phase := if outbox.signal.value then .exited else .publishing pending }
  | .published relay => do
    let state ← outbox.relays[relay]?
    match state.phase with
    | .publishing 0 => some (outbox.setRelay relay { state with phase := .waiting })
    | .publishing (left + 1) =>
      some (outbox.setRelay relay { state with phase := .publishing left })
    | _ => none
  | .changed relay =>
    outbox.advance relay .waiting fun state =>
      if state.seen = outbox.signal.version then none
      else some
        { phase := if outbox.signal.value then .exited else .checking
          seen := outbox.signal.version }
  | .tick relay => outbox.advance relay .waiting fun state => some { state with phase := .checking }

def Outbox.Live (outbox : Outbox) (relay : Nat) : Prop :=
  outbox.relays[relay]?.map Relay.live = some true

instance (outbox : Outbox) (relay : Nat) : Decidable (outbox.Live relay) :=
  inferInstanceAs (Decidable (_ = _))

def Phase.remaining : Phase → Nat
  | .exited => 0
  | .checking => 1
  | .waiting => 2
  | .publishing left => left + 3

def Outbox.remaining (outbox : Outbox) (relay : Nat) : Nat :=
  (outbox.relays[relay]?.map fun state => state.phase.remaining).getD 0

def Choice.relay? : Choice → Option Nat
  | .check relay _ | .published relay | .changed relay | .tick relay => some relay
  | _ => none

def StartsOnce (outbox : Outbox) : Choice → Prop
  | .start _ => outbox.task = none → outbox.relays = []
  | _ => True

instance (outbox : Outbox) : ∀ choice, Decidable (StartsOnce outbox choice)
  | .start _ => inferInstanceAs (Decidable (outbox.task = none → outbox.relays = []))
  | .look _ | .reset _ | .spawn _ | .stop _ | .send _ | .join _ | .check _ _ | .published _
  | .changed _ | .tick _ => inferInstanceAs (Decidable True)

structure OneRelay (outbox : Outbox) : Prop where
  single : ∀ relay other, outbox.Live relay → outbox.Live other → relay = other
  -- However the run goes on, the relay is gone after so many steps of its own, and it has them.
  exits : ∀ call relay, outbox.calls call = .awaiting relay →
    ∀ more outbox', Along step StartsOnce outbox more → run step outbox more = some outbox' →
      more.countP (fun choice => choice.relay? = some relay) + outbox'.remaining relay ≤
        outbox.remaining relay
  moves : ∀ relay, outbox.Live relay → ∃ choice outbox', choice.relay? = some relay ∧
    step outbox choice = some outbox'
  holds : ∀ relay, outbox.task = some relay → outbox.Live relay

structure Moves (signal : Signal) (state next : Relay) : Prop where
  unset : signal.value = false → next.live
  set : signal.value = true → next.phase.remaining < state.phase.remaining

variable {outbox outbox' : Outbox} {choice : Choice}

theorem advance_some {relay : Nat} {phase : Phase} {next : Relay → Option Relay}
    (moved : outbox.advance relay phase next = some outbox') :
    ∃ state after, outbox.relays[relay]? = some state ∧ state.phase = phase ∧
      next state = some after ∧ outbox' = outbox.setRelay relay after := by
  rw [Outbox.advance] at moved
  cases found : outbox.relays[relay]? with
  | none => simp [found] at moved
  | some state =>
    simp only [found, Option.bind_eq_bind, Option.bind_some] at moved
    split at moved
    · rename_i here
      obtain ⟨after, stepped, same⟩ := Option.map_eq_some_iff.mp moved
      exact ⟨state, after, rfl, here, stepped, same.symm⟩
    · simp at moved

theorem relay_step {relay : Nat} (own : choice.relay? = some relay)
    (stepped : step outbox choice = some outbox') :
    ∃ state next, outbox.relays[relay]? = some state ∧ outbox' = outbox.setRelay relay next ∧
      Moves outbox.signal state next := by
  cases choice with
  | check other pending =>
    obtain rfl : other = relay := by simpa [Choice.relay?] using own
    obtain ⟨state, after, found, phase, moved, same⟩ := advance_some stepped
    obtain rfl := Option.some.inj moved
    refine ⟨state, _, found, same, ⟨fun unset => ?_, fun set => ?_⟩⟩
    · simp [unset, Relay.live]
    · simp [set, phase, Phase.remaining]
  | published other =>
    obtain rfl : other = relay := by simpa [Choice.relay?] using own
    simp only [step, Option.bind_eq_bind] at stepped
    obtain ⟨state, found, moved⟩ := Option.bind_eq_some_iff.mp stepped
    split at moved
    · rename_i phase
      refine ⟨state, _, found, (Option.some.inj moved).symm, ⟨fun _ => rfl, fun _ => ?_⟩⟩
      simp [phase, Phase.remaining]
    · rename_i left phase
      refine ⟨state, _, found, (Option.some.inj moved).symm, ⟨fun _ => rfl, fun _ => ?_⟩⟩
      simp [phase, Phase.remaining]
    · simp at moved
  | changed other =>
    obtain rfl : other = relay := by simpa [Choice.relay?] using own
    obtain ⟨state, after, found, phase, moved, same⟩ := advance_some stepped
    split at moved
    · simp at moved
    · obtain rfl := Option.some.inj moved
      refine ⟨state, _, found, same, ⟨fun unset => ?_, fun set => ?_⟩⟩
      · simp [unset, Relay.live]
      · simp [set, phase, Phase.remaining]
  | tick other =>
    obtain rfl : other = relay := by simpa [Choice.relay?] using own
    obtain ⟨state, after, found, phase, moved, same⟩ := advance_some stepped
    obtain rfl := Option.some.inj moved
    refine ⟨state, _, found, same, ⟨fun _ => rfl, fun _ => ?_⟩⟩
    simp [phase, Phase.remaining]
  | _ => simp [Choice.relay?] at own

inductive Stage (outbox : Outbox) : Prop where
  | fresh (relays : outbox.relays = []) (unset : outbox.signal.value = false)
    (task : outbox.task = none) (lock : outbox.lock = none)
    (idle : ∀ call, outbox.calls call = .idle)
  | starting (call : Nat) (relays : outbox.relays = []) (unset : outbox.signal.value = false)
    (task : outbox.task = none) (lock : outbox.lock = some call)
    (phase : outbox.calls call = .starting ∨ outbox.calls call = .spawning)
    (idle : ∀ other, other ≠ call → outbox.calls other = .idle)
  | running (relay : Relay) (relays : outbox.relays = [relay]) (live : relay.live)
    (unset : outbox.signal.value = false) (task : outbox.task = some 0)
    (lock : outbox.lock = none) (idle : ∀ call, outbox.calls call = .idle)
  | stopping (relay : Relay) (call : Nat) (relays : outbox.relays = [relay]) (live : relay.live)
    (unset : outbox.signal.value = false) (task : outbox.task = none) (lock : outbox.lock = none)
    (phase : outbox.calls call = .stopping 0)
    (idle : ∀ other, other ≠ call → outbox.calls other = .idle)
  | stopped (relay : Relay) (relays : outbox.relays = [relay]) (set : outbox.signal.value = true)
    (task : outbox.task = none) (lock : outbox.lock = none)
    (phases : ∀ call, outbox.calls call = .idle ∨ outbox.calls call = .awaiting 0)

@[simp] theorem set_calls (outbox : Outbox) (call other : Nat) (phase : Call) :
    (outbox.set call phase).calls other = if other = call then phase else outbox.calls other := by
  simp [Outbox.set, Function.update_apply]

theorem fresh_step (relays : outbox.relays = []) (unset : outbox.signal.value = false)
    (task : outbox.task = none) (lock : outbox.lock = none)
    (idle : ∀ call, outbox.calls call = .idle) (own : choice.relay? = none)
    (stepped : step outbox choice = some outbox') : Stage outbox' := by
  cases choice with
  | start call =>
    obtain rfl : { outbox.set call .starting with lock := some call } = outbox' := by
      simpa [step, idle, lock, task] using stepped
    refine .starting call relays unset task rfl (.inl (by simp)) fun other differs => ?_
    simp [differs, idle]
  | stop call =>
    obtain rfl : outbox = outbox' := by simpa [step, idle, lock, task] using stepped
    exact .fresh relays unset task lock idle
  | look | reset | spawn | send | join => simp [step, idle] at stepped
  | check | published | changed | tick => simp [Choice.relay?] at own

theorem starting_step {call : Nat} (relays : outbox.relays = [])
    (unset : outbox.signal.value = false) (task : outbox.task = none)
    (lock : outbox.lock = some call)
    (phase : outbox.calls call = .starting ∨ outbox.calls call = .spawning)
    (idle : ∀ other, other ≠ call → outbox.calls other = .idle) (own : choice.relay? = none)
    (stepped : step outbox choice = some outbox') : Stage outbox' := by
  -- Only the call that holds the lock can move.
  have same : ∀ other, outbox.calls other ≠ .idle → other = call := by
    intro other busy
    by_contra differs
    exact busy (idle other differs)
  cases choice with
  | start other => simp [step, lock] at stepped
  | stop other => simp [step, lock] at stepped
  | look other =>
    simp only [step, unset] at stepped
    split at stepped
    · rename_i here
      obtain rfl := same other (by simp [here])
      obtain rfl := Option.some.inj stepped
      refine .starting other relays unset task lock (.inr (by simp)) fun next differs => ?_
      simp [differs, idle]
    · simp at stepped
  | spawn other =>
    simp only [step] at stepped
    split at stepped
    · rename_i here
      obtain rfl := same other (by simp [here])
      obtain rfl := Option.some.inj stepped
      refine .running { seen := outbox.signal.version } (by simp [relays]) rfl unset
        (by simp [relays]) rfl fun next => ?_
      by_cases differs : next = other
      · simp [differs]
      · simp [differs, idle]
    · simp at stepped
  | reset other | send other | join other =>
    by_cases here : other = call
    · subst here
      rcases phase with phase | phase <;> simp [step, phase] at stepped
    · simp [step, idle other here] at stepped
  | check | published | changed | tick => simp [Choice.relay?] at own

theorem running_step {relay : Relay} (relays : outbox.relays = [relay]) (live : relay.live)
    (unset : outbox.signal.value = false) (task : outbox.task = some 0)
    (lock : outbox.lock = none) (idle : ∀ call, outbox.calls call = .idle)
    (own : choice.relay? = none) (stepped : step outbox choice = some outbox') : Stage outbox' := by
  cases choice with
  | start call =>
    obtain rfl : outbox = outbox' := by simpa [step, idle, lock, task] using stepped
    exact .running relay relays live unset task lock idle
  | stop call =>
    obtain rfl : { outbox.set call (.stopping 0) with task := none } = outbox' := by
      simpa [step, idle, lock, task] using stepped
    refine .stopping relay call relays live unset rfl lock (by simp) fun other differs => ?_
    simp [differs, idle]
  | look | reset | spawn | send | join => simp [step, idle] at stepped
  | check | published | changed | tick => simp [Choice.relay?] at own

theorem stopping_step {relay : Relay} {call : Nat} (relays : outbox.relays = [relay])
    (live : relay.live) (unset : outbox.signal.value = false) (task : outbox.task = none)
    (lock : outbox.lock = none) (phase : outbox.calls call = .stopping 0)
    (idle : ∀ other, other ≠ call → outbox.calls other = .idle) (once : StartsOnce outbox choice)
    (own : choice.relay? = none) (stepped : step outbox choice = some outbox') : Stage outbox' := by
  cases choice with
  | start other =>
    have empty := once task
    simp [relays] at empty
  | stop other =>
    by_cases here : other = call
    · subst here
      simp [step, phase] at stepped
    · obtain rfl : outbox = outbox' := by simpa [step, idle other here, lock, task] using stepped
      exact .stopping relay call relays live unset task lock phase idle
  | send other =>
    by_cases here : other = call
    · subst here
      have sent : outbox.send true =
          { outbox with signal := ⟨true, outbox.signal.version + 1⟩ } := by
        simp [Outbox.send, relays, live]
      simp only [step, phase, sent] at stepped
      obtain rfl := Option.some.inj stepped
      refine .stopped relay relays rfl task lock fun next => ?_
      by_cases differs : next = other
      · simp [differs]
      · simp [differs, idle]
    · simp [step, idle other here] at stepped
  | look other | reset other | spawn other | join other =>
    by_cases here : other = call
    · subst here
      simp [step, phase] at stepped
    · simp [step, idle other here] at stepped
  | check | published | changed | tick => simp [Choice.relay?] at own

theorem stopped_step {relay : Relay} (relays : outbox.relays = [relay])
    (set : outbox.signal.value = true) (task : outbox.task = none) (lock : outbox.lock = none)
    (phases : ∀ call, outbox.calls call = .idle ∨ outbox.calls call = .awaiting 0)
    (once : StartsOnce outbox choice) (own : choice.relay? = none)
    (stepped : step outbox choice = some outbox') :
    Stage outbox' ∧ outbox'.signal = outbox.signal ∧ outbox'.relays = outbox.relays := by
  cases choice with
  | start call =>
    have empty := once task
    simp [relays] at empty
  | stop call =>
    simp only [step, task] at stepped
    split at stepped
    · obtain rfl := Option.some.inj stepped
      exact ⟨.stopped relay relays set task lock phases, rfl, rfl⟩
    · simp at stepped
  | join call =>
    rcases phases call with phase | phase
    · simp [step, phase] at stepped
    · simp only [step, phase] at stepped
      split at stepped
      · obtain rfl := Option.some.inj stepped
        refine ⟨.stopped relay relays set task lock fun next => ?_, rfl, rfl⟩
        by_cases differs : next = call
        · simp [differs]
        · simpa [differs] using phases next
      · simp at stepped
  | look call | reset call | spawn call | send call =>
    rcases phases call with phase | phase <;> simp [step, phase] at stepped
  | check | published | changed | tick => simp [Choice.relay?] at own

-- The steps of the calls are above, one stage at a time; a relay's own steps are `relay_step`.
theorem Stage.step (stage : Stage outbox) (once : StartsOnce outbox choice)
    (stepped : step outbox choice = some outbox') : Stage outbox' := by
  by_cases own : ∃ relay, choice.relay? = some relay
  · obtain ⟨relay, own⟩ := own
    obtain ⟨state, next, found, rfl, moves⟩ := relay_step own stepped
    cases stage with
    | fresh relays => simp [relays] at found
    | starting call relays => simp [relays] at found
    | running old relays live unset task lock idle =>
      obtain rfl : relay = 0 := by
        by_contra other
        simp [relays, other] at found
      exact .running next (by simp [Outbox.setRelay, relays]) (moves.unset unset) unset task lock idle
    | stopping old call relays live unset task lock phase idle =>
      obtain rfl : relay = 0 := by
        by_contra other
        simp [relays, other] at found
      exact .stopping next call (by simp [Outbox.setRelay, relays]) (moves.unset unset) unset task
        lock phase idle
    | stopped old relays set task lock phases =>
      obtain rfl : relay = 0 := by
        by_contra other
        simp [relays, other] at found
      exact .stopped next (by simp [Outbox.setRelay, relays]) set task lock phases
  · have calls : choice.relay? = none := by simpa [Option.eq_none_iff_forall_ne_some] using own
    cases stage with
    | fresh relays unset task lock idle => exact fresh_step relays unset task lock idle calls stepped
    | starting call relays unset task lock phase idle =>
      exact starting_step relays unset task lock phase idle calls stepped
    | running relay relays live unset task lock idle =>
      exact running_step relays live unset task lock idle calls stepped
    | stopping relay call relays live unset task lock phase idle =>
      exact stopping_step relays live unset task lock phase idle once calls stepped
    | stopped relay relays set task lock phases =>
      exact (stopped_step relays set task lock phases once calls stepped).1

-- Nothing unsets the signal, so that every step of the relay brings its exit nearer.
theorem Stage.nears (stage : Stage outbox) (set : outbox.signal.value = true)
    (once : StartsOnce outbox choice) (stepped : TransactionalOutbox.step outbox choice = some outbox')
    (relay : Nat) : outbox'.signal.value = true ∧
      (if choice.relay? = some relay then 1 else 0) + outbox'.remaining relay ≤
        outbox.remaining relay := by
  by_cases own : ∃ other, choice.relay? = some other
  · obtain ⟨other, own⟩ := own
    obtain ⟨state, next, found, rfl, moves⟩ := relay_step own stepped
    refine ⟨set, ?_⟩
    have nearer := moves.set set
    rw [own]
    by_cases same : other = relay
    · subst same
      have inside : other < outbox.relays.length := (List.getElem?_eq_some_iff.mp found).1
      simp only [Outbox.remaining, Outbox.setRelay, found, List.getElem?_set_self inside,
        Option.map_some, Option.getD_some, if_true]
      omega
    · simp [Outbox.remaining, Outbox.setRelay, List.getElem?_set_ne same, same]
  · have calls : choice.relay? = none := by simpa [Option.eq_none_iff_forall_ne_some] using own
    cases stage with
    | stopped old relays _ task lock phases =>
      obtain ⟨-, signal, same⟩ := stopped_step relays set task lock phases once calls stepped
      refine ⟨by rw [signal, set], ?_⟩
      simp [calls, Outbox.remaining, same]
    | fresh _ unset | starting _ _ unset | running _ _ _ unset | stopping _ _ _ _ unset =>
      simp [unset] at set

theorem Stage.exits (stage : Stage outbox) (set : outbox.signal.value = true) (relay : Nat)
    {more : List Choice} (along : Along TransactionalOutbox.step StartsOnce outbox more)
    (ran : run TransactionalOutbox.step outbox more = some outbox') :
    more.countP (fun choice => choice.relay? = some relay) + outbox'.remaining relay ≤
      outbox.remaining relay := by
  induction more generalizing outbox with
  | nil =>
    obtain rfl : outbox = outbox' := by simpa using ran
    simp
  | cons choice more ih =>
    rw [run_cons] at ran
    obtain ⟨next, stepped, rest⟩ := Option.bind_eq_some_iff.mp ran
    obtain ⟨still, nearer⟩ := stage.nears set along.1 stepped relay
    have later := ih (stage.step along.1 stepped) still (along.2 next stepped) rest
    rw [List.countP_cons]
    simp only [decide_eq_true_eq]
    omega

theorem live_moves {relay : Nat} (live : outbox.Live relay) :
    ∃ choice outbox', choice.relay? = some relay ∧ step outbox choice = some outbox' := by
  obtain ⟨state, found, alive⟩ := Option.map_eq_some_iff.mp live
  cases phase : state.phase with
  | checking =>
    refine ⟨.check relay 0, ?_⟩
    simp [Choice.relay?, step, Outbox.advance, found, phase]
  | publishing left =>
    refine ⟨.published relay, ?_⟩
    cases left <;> simp [Choice.relay?, step, found, phase]
  | waiting =>
    refine ⟨.tick relay, ?_⟩
    simp [Choice.relay?, step, Outbox.advance, found, phase]
  | exited => simp [Relay.live, phase] at alive

theorem Stage.live_zero (stage : Stage outbox) {relay : Nat} (live : outbox.Live relay) :
    relay = 0 := by
  obtain ⟨state, found, -⟩ := Option.map_eq_some_iff.mp live
  by_contra other
  cases stage with
  | fresh relays | starting _ relays => simp [relays] at found
  | running _ relays | stopping _ _ relays | stopped _ relays => simp [relays, other] at found

theorem one_relay {choices : List Choice} (once : Along step StartsOnce {} choices)
    (ran : run step {} choices = some outbox) : OneRelay outbox := by
  have stage : Stage outbox := run_invariant_along Stage
    (fun _ _ _ once stage stepped => stage.step once stepped)
    (.fresh rfl rfl rfl rfl fun _ => rfl) once ran
  refine ⟨fun relay other live also => ?_, fun call relay awaiting more outbox' along more_ran => ?_,
    fun relay live => live_moves live, fun relay held => ?_⟩
  · rw [stage.live_zero live, stage.live_zero also]
  · have set : outbox.signal.value = true := by
      cases stage with
      | stopped _ _ set => exact set
      | fresh _ _ _ _ idle | running _ _ _ _ _ _ idle => simp [idle] at awaiting
      | starting other _ _ _ _ phase idle =>
        by_cases same : call = other
        · subst same
          rcases phase with phase | phase <;> simp [phase] at awaiting
        · simp [idle call same] at awaiting
      | stopping _ other _ _ _ _ _ phase idle =>
        by_cases same : call = other
        · subst same
          simp [phase] at awaiting
        · simp [idle call same] at awaiting
    exact stage.exits set relay along more_ran
  · cases stage with
    | running state relays live _ task =>
      obtain rfl : 0 = relay := by simpa [task] using held
      simp [Outbox.Live, relays, live]
    | fresh _ _ task | starting _ _ _ task | stopping _ _ _ _ _ task | stopped _ _ _ task =>
      simp [task] at held

def onceStopped : List Choice :=
  [.start 0, .look 0, .spawn 0, .check 0 1, .published 0, .stop 1, .send 1]

theorem once_stopped : ∃ outbox, run step {} onceStopped = some outbox ∧ OneRelay outbox :=
  ⟨_, (Option.some_get (by decide)).symm, one_relay (by decide) (Option.some_get (by decide)).symm⟩

def startedWithinStop : List Choice :=
  [.start 0, .look 0, .spawn 0, .stop 1, .start 2, .look 2, .spawn 2]

theorem two_relays : (∃ outbox, run step {} startedWithinStop = some outbox ∧
      outbox.Live 0 ∧ outbox.Live 1) ∧
    ∃ outbox, run step {} (startedWithinStop ++ [.send 1, .check 1 0]) = some outbox ∧
      outbox.task = some 1 ∧ ¬outbox.Live 1 :=
  ⟨⟨(run step {} startedWithinStop).get (by decide), (Option.some_get _).symm, by decide, by decide⟩,
    (run step {} (startedWithinStop ++ [.send 1, .check 1 0])).get (by decide),
    (Option.some_get _).symm, by decide, by decide⟩

end Firefly.Eventsourcing.TransactionalOutbox
