import Firefly.Shared.Runs
import Firefly.Shared.Sql

set_option autoImplicit false

-- The brokers of one consumer group share a cursor into the outbox and the advisory lock under
-- which they move it. Publishers insert rows meanwhile, whose ids are drawn before the rows are
-- visible.

namespace Firefly.Eda.Postgres

open Runs Sql

structure OutboxRow where
  id : Int
  destination : String
  eventType : String
deriving DecidableEq

/-- `pattern` is the compiled glob. -/
structure Subscription where
  pattern : String → Bool
  handler : Nat

/-- How a query fares: it can fail before it reaches the server, or lose the answer. -/
inductive Query where
  | ok
  | unanswered
  | lost
deriving DecidableEq

inductive Phase where
  | waiting
  | asking
  | locked
  | fetching (offset : Int)
  | dispatching (offset lastDispatched : Int) (rows : List OutboxRow)
  -- `handlers` are still to be called for `row`, of those subscribed when its turn came.
  | handling (offset lastDispatched : Int) (row : OutboxRow) (subscribed : List Subscription)
      (handlers : List Nat) (rows : List OutboxRow)
  | unlocking
  | ended

structure Broker where
  subscriptions : List Subscription := []
  closed : Bool := false
  connected : Bool := true
  phase : Phase := .waiting

inductive Note where
  | called (broker : Nat) (row : OutboxRow) (handler : Nat) (ok : Bool)
  | dispatched (broker : Nat) (row : OutboxRow) (subscribed : List Subscription)

/-- `lock` is the session that holds the group's lock, and how often. `log` is no part of the source. -/
structure World where
  nextId : Int := 1
  inserting : List OutboxRow := []
  outbox : List OutboxRow := []
  lastEventId : Int := 0
  lock : Option (Nat × Nat) := none
  brokers : Nat → Broker := fun _ => {}
  log : List Note := []

inductive Choice where
  | insert (destination eventType : String)
  | commit (row : OutboxRow)
  | rollback (row : OutboxRow)
  | subscribe (broker : Nat) (subscription : Subscription)
  | close (broker : Nat)
  | stop (broker : Nat)
  | disconnect (broker : Nat)
  | wake (broker : Nat)
  | tryLock (broker : Nat) (query : Query)
  | selectOffset (broker : Nat) (query : Query)
  | selectBatch (broker : Nat) (query : Query)
  | dispatch (broker : Nat)
  | handle (broker : Nat) (ok : Bool)
  | updateOffset (broker : Nat) (query : Query)
  | unlock (broker : Nat) (query : Query)

def World.set (w : World) (b : Nat) (broker : Broker) : World :=
  { w with brokers := Function.update w.brokers b broker }

def World.go (w : World) (b : Nat) (phase : Phase) : World :=
  w.set b { w.brokers b with phase }

def World.hangUp (w : World) (b : Nat) : Option (Nat × Nat) :=
  w.lock.filter fun held => held.1 ≠ b

def Broker.reaches (broker : Broker) (query : Query) : Bool := broker.connected && query ≠ .lost

def Broker.answered (broker : Broker) (query : Query) : Bool := broker.connected && query = .ok

def selects (destinations : Option (List String)) (row : OutboxRow) : Bool :=
  destinations.all fun names => row.destination ∈ names

-- `SELECT_BATCH_FILTERED` and `SELECT_BATCH_ALL`.
def batch (destinations : Option (List String)) (offset : Int) (outbox : List OutboxRow) :
    List OutboxRow :=
  limitTo 100 (orderBy OutboxRow.id (outbox.filter fun row => offset < row.id && selects destinations row))

def tryAdvisoryLock (lock : Option (Nat × Nat)) (session : Nat) : Option (Nat × Nat) :=
  match lock with
  | none => some (session, 1)
  | some (holder, times) => some (holder, if holder = session then times + 1 else times)

def advisoryUnlock (lock : Option (Nat × Nat)) (session : Nat) : Option (Nat × Nat) :=
  lock.bind fun (holder, times) =>
    if holder ≠ session then lock else if times ≤ 1 then none else some (holder, times - 1)

def step (destinations : Nat → Option (List String)) (w : World) : Choice → Option World
  | .insert destination eventType =>
    some { w with
      nextId := w.nextId + 1
      inserting := ⟨w.nextId, destination, eventType⟩ :: w.inserting }
  | .commit row =>
    if row ∈ w.inserting then
      some { w with inserting := w.inserting.erase row, outbox := w.outbox ++ [row] }
    else none
  | .rollback row => some { w with inserting := w.inserting.erase row }
  | .subscribe b subscription =>
    let broker := w.brokers b
    if broker.closed then none
    else some (w.set b { broker with subscriptions := broker.subscriptions ++ [subscription] })
  -- The task is aborted where it next has to wait, which is `stop`.
  | .close b => some (w.set b { w.brokers b with closed := true, subscriptions := [] })
  | .stop b =>
    some { w.set b { w.brokers b with phase := .ended, connected := false } with lock := w.hangUp b }
  | .disconnect b =>
    some { w.set b { w.brokers b with connected := false } with lock := w.hangUp b }
  | .wake b =>
    match (w.brokers b).phase with
    | .waiting =>
      if (w.brokers b).closed ∨ (w.brokers b).subscriptions.isEmpty then none else some (w.go b .asking)
    | _ => none
  | .tryLock b query =>
    match (w.brokers b).phase with
    | .asking =>
      if (w.brokers b).reaches query then
        let lock := tryAdvisoryLock w.lock b
        let got := lock.any fun held => held.1 = b
        some { w.go b (if got ∧ query = .ok then .locked else .waiting) with lock }
      else some (w.go b .waiting)
    | _ => none
  | .selectOffset b query =>
    match (w.brokers b).phase with
    | .locked =>
      if !(w.brokers b).closed ∧ (w.brokers b).answered query then some (w.go b (.fetching w.lastEventId))
      else some (w.go b .unlocking)
    | _ => none
  | .selectBatch b query =>
    match (w.brokers b).phase with
    | .fetching offset =>
      let rows := batch (destinations b) offset w.outbox
      if (w.brokers b).answered query ∧ rows ≠ [] then some (w.go b (.dispatching offset offset rows))
      else some (w.go b .unlocking)
    | _ => none
  | .dispatch b =>
    match (w.brokers b).phase with
    | .dispatching offset lastDispatched (row :: rows) =>
      let subscribed := (w.brokers b).subscriptions
      let matched := (subscribed.filter fun s => s.pattern row.eventType).map Subscription.handler
      some (w.go b (.handling offset lastDispatched row subscribed matched rows))
    | _ => none
  | .handle b ok =>
    match (w.brokers b).phase with
    | .handling offset _ row subscribed [] rows =>
      some { w.go b (.dispatching offset row.id rows) with log := w.log ++ [.dispatched b row subscribed] }
    | .handling offset lastDispatched row subscribed (handler :: handlers) rows =>
      some { w.go b (if ok then .handling offset lastDispatched row subscribed handlers rows
          -- The batch ends early.
          else .dispatching offset lastDispatched []) with
        log := w.log ++ [.called b row handler ok] }
    | _ => none
  | .updateOffset b query =>
    match (w.brokers b).phase with
    | .dispatching offset lastDispatched [] =>
      if offset < lastDispatched ∧ (w.brokers b).reaches query then
        some { w.go b .unlocking with lastEventId := max w.lastEventId lastDispatched }
      else some (w.go b .unlocking)
    | _ => none
  | .unlock b query =>
    match (w.brokers b).phase with
    | .unlocking =>
      if (w.brokers b).reaches query then some { w.go b .waiting with lock := advisoryUnlock w.lock b }
      else some (w.go b .waiting)
    | _ => none

def Phase.Drains : Phase → Prop
  | .waiting | .asking | .ended => False
  | _ => True

def World.Exclusive (w : World) : Prop :=
  ∀ a b, (w.brokers a).connected → (w.brokers b).connected → (w.brokers a).phase.Drains →
    (w.brokers b).phase.Drains → a = b

def Broker.Holding (broker : Broker) : Prop := broker.connected = true ∧ broker.phase.Drains

def World.Held (w : World) : Prop := ∀ b, (w.brokers b).Holding → ∃ times, w.lock = some (b, times)

section Lock

variable {destinations : Nat → Option (List String)} {w w' : World} {choice : Choice} {b : Nat}

theorem World.Held.exclusive (held : w.Held) : w.Exclusive := by
  intro a b connected connected' drains drains'
  obtain ⟨times, first⟩ := held a ⟨connected, drains⟩
  obtain ⟨times', second⟩ := held b ⟨connected', drains'⟩
  rw [first] at second
  exact (Prod.mk.inj (Option.some.inj second)).1

theorem World.Held.change (held : w.Held) {broker : Broker} {lock : Option (Nat × Nat)}
    (own : broker.Holding → ∃ times, lock = some (b, times))
    (others : ∀ c ≠ b, (∃ times, w.lock = some (c, times)) → ∃ times, lock = some (c, times)) :
    World.Held { w.set b broker with lock } := by
  intro c holding
  by_cases same : c = b
  · subst same
    exact own (by simpa [World.set] using holding)
  · exact others c same (held c (by simpa [World.set, same] using holding))

theorem World.Held.set (held : w.Held) {broker : Broker} (own : broker.Holding → (w.brokers b).Holding) :
    (w.set b broker).Held :=
  World.Held.change held (fun holding => held b (own holding)) fun _ _ held => held

theorem World.Held.hangUp (held : w.Held) {broker : Broker} (gone : broker.connected = false) :
    World.Held { w.set b broker with lock := w.hangUp b } := by
  refine World.Held.change held (fun holding => by simp [Broker.Holding, gone] at holding) ?_
  rintro c other ⟨times, holds⟩
  exact ⟨times, by simp [World.hangUp, holds, other]⟩

theorem tryAdvisoryLock_other {c times : Nat} {lock : Option (Nat × Nat)} (other : c ≠ b)
    (holds : lock = some (c, times)) : tryAdvisoryLock lock b = some (c, times) := by
  simp [tryAdvisoryLock, holds, other]

theorem advisoryUnlock_other {c times : Nat} {lock : Option (Nat × Nat)} (other : c ≠ b)
    (holds : lock = some (c, times)) : advisoryUnlock lock b = some (c, times) := by
  simp [advisoryUnlock, holds, other]

theorem holder_of_any {lock : Option (Nat × Nat)} (got : (lock.any fun held => held.1 = b) = true) :
    ∃ times, lock = some (b, times) := by
  cases lock with
  | none => cases got
  | some held => exact ⟨held.2, by simp [← of_decide_eq_true got]⟩

theorem World.Held.go (held : w.Held) (drains : (w.brokers b).phase.Drains) (phase : Phase) :
    (w.go b phase).Held :=
  held.set fun holding => ⟨holding.1, drains⟩

theorem World.Held.step (held : w.Held) (stepped : step destinations w choice = some w') : w'.Held := by
  cases choice with
  | insert | rollback =>
    obtain rfl := Option.some.inj stepped
    exact held
  | commit =>
    simp only [Postgres.step, Option.ite_none_right_eq_some, Option.some.injEq] at stepped
    obtain ⟨_, rfl⟩ := stepped
    exact held
  | subscribe b subscription =>
    simp only [Postgres.step, Option.ite_none_left_eq_some, Option.some.injEq] at stepped
    obtain ⟨_, rfl⟩ := stepped
    exact held.set id
  | close b =>
    obtain rfl := Option.some.inj stepped
    exact held.set id
  | stop b | disconnect b =>
    obtain rfl := Option.some.inj stepped
    exact held.hangUp rfl
  | wake b =>
    simp only [Postgres.step] at stepped
    split at stepped
    · simp only [Option.ite_none_left_eq_some, Option.some.injEq] at stepped
      obtain ⟨_, rfl⟩ := stepped
      exact held.set fun holding => holding.2.elim
    · cases stepped
  | tryLock b query =>
    simp only [Postgres.step] at stepped
    split at stepped
    · split at stepped
      · obtain rfl := Option.some.inj stepped
        refine World.Held.change held (fun holding => ?_) fun c other ⟨times, holds⟩ =>
          ⟨times, tryAdvisoryLock_other other holds⟩
        by_cases got : (tryAdvisoryLock w.lock b).any (fun held => held.1 = b) = true ∧ query = .ok
        · exact holder_of_any got.1
        · rw [if_neg got] at holding
          exact holding.2.elim
      · obtain rfl := Option.some.inj stepped
        exact held.set fun holding => holding.2.elim
    · cases stepped
  | selectOffset b query | selectBatch b query =>
    simp only [Postgres.step] at stepped
    split at stepped
    · next here =>
      have drains : (w.brokers b).phase.Drains := by simp [here, Phase.Drains]
      split at stepped <;> obtain rfl := Option.some.inj stepped <;> exact held.go drains _
    · cases stepped
  | dispatch b =>
    simp only [Postgres.step] at stepped
    split at stepped
    · next here =>
      obtain rfl := Option.some.inj stepped
      exact held.go (by simp [here, Phase.Drains]) _
    · cases stepped
  | handle b ok =>
    simp only [Postgres.step] at stepped
    split at stepped
    · next here =>
      obtain rfl := Option.some.inj stepped
      exact held.go (by simp [here, Phase.Drains]) _
    · next here =>
      obtain rfl := Option.some.inj stepped
      exact held.go (by simp [here, Phase.Drains]) _
    · cases stepped
  | updateOffset b query =>
    simp only [Postgres.step] at stepped
    split at stepped
    · next here =>
      have drains : (w.brokers b).phase.Drains := by simp [here, Phase.Drains]
      split at stepped <;> obtain rfl := Option.some.inj stepped <;> exact held.go drains _
    · cases stepped
  | unlock b query =>
    simp only [Postgres.step] at stepped
    split at stepped
    · split at stepped
      · obtain rfl := Option.some.inj stepped
        exact World.Held.change held (fun holding => holding.2.elim) fun c other ⟨times, holds⟩ =>
          ⟨times, advisoryUnlock_other other holds⟩
      · obtain rfl := Option.some.inj stepped
        exact held.set fun holding => holding.2.elim
    · cases stepped

end Lock

def Dispatched (log : List Note) (row : OutboxRow) : Prop :=
  ∃ b subscribed, .dispatched b row subscribed ∈ log

section Delivery

variable (destinations : Option (List String)) (outbox : List OutboxRow) (log : List Note)

def Turn (id : Int) : Prop :=
  ∀ row ∈ outbox, selects destinations row → row.id < id → Dispatched log row

def Note.InTurn (before : List Note) : Note → Prop
  | .called _ row _ _ => row ∈ outbox ∧ Turn destinations outbox before row.id
  | .dispatched b row subscribed =>
    (row ∈ outbox ∧ Turn destinations outbox before row.id) ∧ subscribed ≠ [] ∧
      ∀ s ∈ subscribed, s.pattern row.eventType → .called b row s.handler true ∈ before

def World.Delivered (w : World) : Prop :=
  Guarded (Note.InTurn destinations w.outbox) w.log ∧
    ∀ row ∈ w.outbox, selects destinations row → row.id ≤ w.lastEventId → Dispatched w.log row

def Phase.Owes : Phase → Prop
  | .fetching _ => True
  | .dispatching _ _ (_ :: _) => True
  | .handling _ _ _ _ _ (_ :: _) => True
  | _ => False

/-- Rows become visible in the order of their ids, and no broker is closed over a batch. -/
def Orderly (w : World) : Choice → Prop
  | .commit row => ∀ other ∈ w.outbox, other.id < row.id
  | .close b => ¬ (w.brokers b).phase.Owes
  | _ => True

structure Passed (last : Int) : Prop where
  within : last ≤ 0 ∨ ∃ row ∈ outbox, last ≤ row.id
  dispatched : ∀ row ∈ outbox, selects destinations row → row.id ≤ last → Dispatched log row

structure Next (last : Int) (rows : List OutboxRow) : Prop where
  visible : ∀ row ∈ rows, row ∈ outbox
  after : ∀ row ∈ rows, last < row.id
  ordered : rows.Pairwise fun a b => a.id < b.id
  complete : ∀ other ∈ outbox, selects destinations other → last < other.id →
    other ∈ rows ∨ ∀ row ∈ rows, row.id < other.id

def Phase.Knows (b : Nat) (broker : Broker) : Phase → Prop
  | .asking | .locked => broker.closed = true ∨ broker.subscriptions ≠ []
  | .fetching offset => Passed destinations outbox log offset ∧ broker.subscriptions ≠ []
  | .dispatching _ last rows =>
    Passed destinations outbox log last ∧ Next destinations outbox last rows ∧
      (rows ≠ [] → broker.subscriptions ≠ [])
  | .handling _ last row subscribed handlers rows =>
    Passed destinations outbox log last ∧ Next destinations outbox last (row :: rows) ∧
      (rows ≠ [] → broker.subscriptions ≠ []) ∧ subscribed ≠ [] ∧
      ∀ s ∈ subscribed, s.pattern row.eventType → s.handler ∈ handlers ∨ .called b row s.handler true ∈ log
  | _ => True

structure World.Sound (w : World) : Prop where
  drawn : 1 ≤ w.nextId ∧ ∀ row ∈ w.inserting, 1 ≤ row.id
  ordered : w.outbox.Pairwise fun a b => a.id < b.id
  logged : Guarded (Note.InTurn destinations w.outbox) w.log
  cursor : Passed destinations w.outbox w.log w.lastEventId
  knows : ∀ b, (w.brokers b).phase.Knows destinations w.outbox w.log b (w.brokers b)

end Delivery

section Sound

variable {destinations : Option (List String)} {outbox : List OutboxRow} {log : List Note}
  {w w' : World} {b : Nat} {row : OutboxRow} {rows : List OutboxRow} {last : Int}

theorem Dispatched.later (dispatched : Dispatched log row) (notes : List Note) :
    Dispatched (log ++ notes) row := by
  obtain ⟨b, subscribed, noted⟩ := dispatched
  exact ⟨b, subscribed, List.mem_append_left _ noted⟩

theorem Passed.later (passed : Passed destinations outbox log last) (notes : List Note) :
    Passed destinations outbox (log ++ notes) last :=
  ⟨passed.within, fun row visible selected reached =>
    (passed.dispatched row visible selected reached).later notes⟩

theorem Passed.commit (passed : Passed destinations outbox log last) {new : OutboxRow} (drawn : 1 ≤ new.id)
    (behind : ∀ other ∈ outbox, other.id < new.id) : Passed destinations (outbox ++ [new]) log last where
  within := passed.within.imp id fun ⟨row, visible, reached⟩ => ⟨row, List.mem_append_left _ visible, reached⟩
  dispatched row visible selected reached := by
    rcases List.mem_append.mp visible with visible | same
    · exact passed.dispatched row visible selected reached
    · obtain rfl := List.mem_singleton.mp same
      rcases passed.within with start | ⟨other, visible, before⟩
      · omega
      · have := behind other visible
        omega

theorem Next.commit (next : Next destinations outbox last rows) {new : OutboxRow}
    (behind : ∀ other ∈ outbox, other.id < new.id) : Next destinations (outbox ++ [new]) last rows where
  visible row member := List.mem_append_left _ (next.visible row member)
  after := next.after
  ordered := next.ordered
  complete other visible selected after := by
    rcases List.mem_append.mp visible with visible | same
    · exact next.complete other visible selected after
    · obtain rfl := List.mem_singleton.mp same
      exact .inr fun row member => behind row (next.visible row member)

theorem Phase.Knows.commit {broker : Broker} {phase : Phase}
    (knows : phase.Knows destinations outbox log b broker) {new : OutboxRow} (drawn : 1 ≤ new.id)
    (behind : ∀ other ∈ outbox, other.id < new.id) :
    phase.Knows destinations (outbox ++ [new]) log b broker := by
  cases phase with
  | waiting | asking | locked | unlocking | ended => exact knows
  | fetching offset => exact ⟨knows.1.commit drawn behind, knows.2⟩
  | dispatching | handling => exact ⟨knows.1.commit drawn behind, knows.2.1.commit behind, knows.2.2⟩

theorem Phase.Knows.later {broker : Broker} {phase : Phase}
    (knows : phase.Knows destinations outbox log b broker) (notes : List Note) :
    phase.Knows destinations outbox (log ++ notes) b broker := by
  cases phase with
  | waiting | asking | locked | unlocking | ended => exact knows
  | fetching | dispatching => exact ⟨knows.1.later notes, knows.2⟩
  | handling =>
    obtain ⟨passed, next, open_, some_, called⟩ := knows
    exact ⟨passed.later notes, next, open_, some_, fun s subscribed matched =>
      (called s subscribed matched).imp id (List.mem_append_left _)⟩

theorem Phase.Knows.subscribe {broker : Broker} {phase : Phase} {subscription : Subscription}
    (knows : phase.Knows destinations outbox log b broker) : phase.Knows destinations outbox log b
      { broker with subscriptions := broker.subscriptions ++ [subscription] } := by
  cases phase with
  | waiting | unlocking | ended => exact knows
  | asking | locked => exact .inr (by simp)
  | fetching => exact ⟨knows.1, by simp⟩
  | dispatching => exact ⟨knows.1, knows.2.1, by simp⟩
  | handling => exact ⟨knows.1, knows.2.1, by simp, knows.2.2.2⟩

theorem Phase.Knows.close {broker : Broker} {phase : Phase}
    (knows : phase.Knows destinations outbox log b broker) (settled : ¬ phase.Owes) :
    phase.Knows destinations outbox log b { broker with closed := true, subscriptions := [] } := by
  cases phase with
  | waiting | unlocking | ended => exact knows
  | asking | locked => exact .inl rfl
  | fetching => exact absurd trivial settled
  | dispatching _ _ rows =>
    cases rows with
    | nil => exact ⟨knows.1, knows.2.1, by simp⟩
    | cons => exact absurd trivial settled
  | handling _ _ _ _ _ rows =>
    cases rows with
    | nil => exact ⟨knows.1, knows.2.1, by simp, knows.2.2.2⟩
    | cons => exact absurd trivial settled

theorem Phase.Knows.alike {broker broker' : Broker} {phase : Phase}
    (knows : phase.Knows destinations outbox log b broker) (closed : broker'.closed = broker.closed)
    (subscriptions : broker'.subscriptions = broker.subscriptions) :
    phase.Knows destinations outbox log b broker' := by
  revert knows
  cases phase <;> simp [Phase.Knows, closed, subscriptions]

theorem World.Sound.set (sound : w.Sound destinations) {broker : Broker}
    (knows : broker.phase.Knows destinations w.outbox w.log b broker) :
    (w.set b broker).Sound destinations where
  drawn := sound.drawn
  ordered := sound.ordered
  logged := sound.logged
  cursor := sound.cursor
  knows c := by
    by_cases same : c = b
    · subst same
      simpa [World.set] using knows
    · simpa [World.set, same] using sound.knows c

theorem World.Sound.note (sound : w.Sound destinations) {note : Note} (due : note.InTurn destinations w.outbox w.log) :
    World.Sound destinations { w with log := w.log ++ [note] } where
  drawn := sound.drawn
  ordered := sound.ordered
  logged := guarded_concat sound.logged due
  cursor := sound.cursor.later [note]
  knows c := (sound.knows c).later [note]

theorem World.Sound.lock (sound : w.Sound destinations) (lock : Option (Nat × Nat)) :
    World.Sound destinations { w with lock } :=
  ⟨sound.drawn, sound.ordered, sound.logged, sound.cursor, sound.knows⟩

theorem Turn.commit {id : Int} {before : List Note} (turn : Turn destinations outbox before id) {new : OutboxRow}
    (behind : id < new.id) : Turn destinations (outbox ++ [new]) before id := by
  intro row visible selected front
  rcases List.mem_append.mp visible with visible | same
  · exact turn row visible selected front
  · obtain rfl := List.mem_singleton.mp same
    omega

theorem Note.InTurn.commit {before : List Note} {note : Note} (due : note.InTurn destinations outbox before)
    {new : OutboxRow} (behind : ∀ other ∈ outbox, other.id < new.id) :
    note.InTurn destinations (outbox ++ [new]) before := by
  cases note with
  | called => exact ⟨List.mem_append_left _ due.1, due.2.commit (behind _ due.1)⟩
  | dispatched => exact ⟨⟨List.mem_append_left _ due.1.1, due.1.2.commit (behind _ due.1.1)⟩, due.2⟩

theorem World.Sound.commit (sound : w.Sound destinations) (drawn : row ∈ w.inserting)
    (behind : ∀ other ∈ w.outbox, other.id < row.id) : World.Sound destinations
      { w with inserting := w.inserting.erase row, outbox := w.outbox ++ [row] } where
  drawn := ⟨sound.drawn.1, fun other member => sound.drawn.2 other (List.mem_of_mem_erase member)⟩
  ordered := by
    rw [List.pairwise_append]
    exact ⟨sound.ordered, List.pairwise_singleton _ _, by simpa using behind⟩
  logged before note after split := (sound.logged before note after split).commit behind
  cursor := sound.cursor.commit (sound.drawn.2 row drawn) behind
  knows c := (sound.knows c).commit (sound.drawn.2 row drawn) behind

-- Up to the first row of the batch there is nothing behind `last` but that row.
theorem Next.first (next : Next destinations outbox last (row :: rows)) {other : OutboxRow}
    (visible : other ∈ outbox) (selected : selects destinations other) (upTo : other.id ≤ row.id) :
    other.id ≤ last ∨ other = row := by
  by_cases reached : other.id ≤ last
  · exact .inl reached
  · rcases next.complete other visible selected (by omega) with member | behind
    · rcases List.mem_cons.mp member with same | member
      · exact .inr same
      · have := List.rel_of_pairwise_cons next.ordered member
        omega
    · have := behind row (by simp)
      omega

theorem Next.turn (next : Next destinations outbox last (row :: rows))
    (passed : Passed destinations outbox log last) : Turn destinations outbox log row.id := by
  intro other visible selected front
  rcases next.first visible selected front.le with reached | rfl
  · exact passed.dispatched other visible selected reached
  · omega

theorem Next.passed (next : Next destinations outbox last (row :: rows))
    (passed : Passed destinations outbox log last) (dispatched : Dispatched log row) :
    Passed destinations outbox log row.id where
  within := .inr ⟨row, next.visible row (by simp), le_rfl⟩
  dispatched other visible selected upTo := by
    rcases next.first visible selected upTo with reached | rfl
    · exact passed.dispatched other visible selected reached
    · exact dispatched

theorem Next.tail (next : Next destinations outbox last (row :: rows)) :
    Next destinations outbox row.id rows where
  visible other member := next.visible other (by simp [member])
  after other member := List.rel_of_pairwise_cons next.ordered member
  ordered := next.ordered.of_cons
  complete other visible selected behind := by
    have := next.after row (by simp)
    rcases next.complete other visible selected (by omega) with member | beyond
    · rcases List.mem_cons.mp member with rfl | member
      · omega
      · exact .inl member
    · exact .inr fun row member => beyond row (by simp [member])

theorem Next.nil : Next destinations outbox last [] :=
  ⟨by simp, by simp, .nil, by simp⟩

theorem next_batch (ordered : outbox.Pairwise fun a b => a.id < b.id) (offset : Int) :
    Next destinations outbox offset (batch destinations offset outbox) := by
  have sorted := ordered.filter fun row => offset < row.id && selects destinations row
  have taken : batch destinations offset outbox =
      (outbox.filter fun row => offset < row.id && selects destinations row).take 100 := by
    rw [batch, orderBy_sorted (sorted.imp le_of_lt)]
    rfl
  rw [taken]
  have selected : ∀ row ∈ (outbox.filter fun row => offset < row.id && selects destinations row).take 100,
      row ∈ outbox ∧ offset < row.id := by
    intro row member
    have := List.mem_filter.mp (List.mem_of_mem_take member)
    exact ⟨this.1, by simpa using (Bool.and_eq_true_iff.mp this.2).1⟩
  refine ⟨fun row member => (selected row member).1, fun row member => (selected row member).2,
    sorted.sublist (List.take_sublist _ _), fun other visible wanted behind => ?_⟩
  have member : other ∈ outbox.filter fun row => offset < row.id && selects destinations row := by
    simp [visible, wanted, behind]
  rw [← List.take_append_drop 100 (outbox.filter _)] at sorted member
  rcases List.mem_append.mp member with early | late
  · exact .inl early
  · exact .inr fun row taken => (List.pairwise_append.mp sorted).2.2 row taken other late

theorem World.Sound.go (sound : w.Sound destinations) {phase : Phase}
    (knows : phase.Knows destinations w.outbox w.log b (w.brokers b)) : (w.go b phase).Sound destinations :=
  sound.set (knows.alike rfl rfl)

theorem World.Sound.step {filters : Nat → Option (List String)} {choice : Choice}
    (alike : ∀ b, filters b = destinations) (sound : w.Sound destinations) (orderly : Orderly w choice)
    (stepped : step filters w choice = some w') : w'.Sound destinations := by
  cases choice with
  | insert destination eventType =>
    obtain rfl := Option.some.inj stepped
    have := sound.drawn.1
    refine ⟨⟨by simp; omega, ?_⟩, sound.ordered, sound.logged, sound.cursor, sound.knows⟩
    intro row member
    rcases List.mem_cons.mp member with rfl | member
    · exact this
    · exact sound.drawn.2 row member
  | commit row =>
    simp only [Postgres.step, Option.ite_none_right_eq_some, Option.some.injEq] at stepped
    obtain ⟨drawn, rfl⟩ := stepped
    exact sound.commit drawn orderly
  | rollback row =>
    obtain rfl := Option.some.inj stepped
    exact ⟨⟨sound.drawn.1, fun other member => sound.drawn.2 other (List.mem_of_mem_erase member)⟩,
      sound.ordered, sound.logged, sound.cursor, sound.knows⟩
  | subscribe b subscription =>
    simp only [Postgres.step, Option.ite_none_left_eq_some, Option.some.injEq] at stepped
    obtain ⟨_, rfl⟩ := stepped
    exact sound.set (sound.knows b).subscribe
  | close b =>
    obtain rfl := Option.some.inj stepped
    exact sound.set ((sound.knows b).close orderly)
  | stop b =>
    obtain rfl := Option.some.inj stepped
    have ended : (w.set b { w.brokers b with phase := .ended, connected := false }).Sound destinations :=
      sound.set trivial
    exact ended.lock _
  | disconnect b =>
    obtain rfl := Option.some.inj stepped
    have cut : (w.set b { w.brokers b with connected := false }).Sound destinations :=
      sound.set ((sound.knows b).alike rfl rfl)
    exact cut.lock _
  | wake b =>
    simp only [Postgres.step] at stepped
    split at stepped
    · simp only [Option.ite_none_left_eq_some, Option.some.injEq, not_or] at stepped
      obtain ⟨open_, rfl⟩ := stepped
      exact sound.go (.inr (by simpa using open_.2))
    · cases stepped
  | tryLock b query =>
    simp only [Postgres.step] at stepped
    split at stepped
    · next here =>
      have knows := sound.knows b
      rw [here] at knows
      split at stepped
      · obtain rfl := Option.some.inj stepped
        refine (sound.go ?_).lock _
        split
        · exact knows
        · trivial
      · obtain rfl := Option.some.inj stepped
        exact sound.go trivial
    · cases stepped
  | selectOffset b query =>
    simp only [Postgres.step] at stepped
    split at stepped
    · next here =>
      have knows := sound.knows b
      rw [here] at knows
      split at stepped
      · next answered =>
        obtain rfl := Option.some.inj stepped
        exact sound.go ⟨sound.cursor, knows.resolve_left (by simpa using answered.1)⟩
      · obtain rfl := Option.some.inj stepped
        exact sound.go trivial
    · cases stepped
  | selectBatch b query =>
    simp only [Postgres.step, alike] at stepped
    split at stepped
    · next offset here =>
      have knows := sound.knows b
      rw [here] at knows
      split at stepped
      · obtain rfl := Option.some.inj stepped
        exact sound.go ⟨knows.1, next_batch sound.ordered offset, fun _ => knows.2⟩
      · obtain rfl := Option.some.inj stepped
        exact sound.go trivial
    · cases stepped
  | dispatch b =>
    simp only [Postgres.step] at stepped
    split at stepped
    · next offset last row rows here =>
      have knows := sound.knows b
      rw [here] at knows
      obtain ⟨passed, next, open_⟩ := knows
      obtain rfl := Option.some.inj stepped
      refine sound.go ⟨passed, next, fun _ => open_ (by simp), open_ (by simp), fun s subscribed matched => ?_⟩
      exact .inl (List.mem_map_of_mem (List.mem_filter.mpr ⟨subscribed, matched⟩))
    · cases stepped
  | handle b ok =>
    simp only [Postgres.step] at stepped
    split at stepped
    · next offset last row subscribed rows here =>
      have knows := sound.knows b
      rw [here] at knows
      obtain ⟨passed, next, open_, some_, called⟩ := knows
      obtain rfl := Option.some.inj stepped
      have noted : Dispatched (w.log ++ [.dispatched b row subscribed]) row := ⟨b, subscribed, by simp⟩
      refine World.Sound.go (sound.note ?_) ⟨next.passed (passed.later _) noted, next.tail, open_⟩
      exact ⟨⟨next.visible row (by simp), next.turn passed⟩, some_, fun s member matched =>
        (called s member matched).resolve_left (by simp)⟩
    · next offset last row subscribed handler handlers rows here =>
      have knows := sound.knows b
      rw [here] at knows
      obtain ⟨passed, next, open_, some_, called⟩ := knows
      obtain rfl := Option.some.inj stepped
      have due : (Note.called b row handler ok).InTurn destinations w.outbox w.log :=
        ⟨next.visible row (by simp), next.turn passed⟩
      refine World.Sound.go (sound.note due) ?_
      cases ok with
      | false => exact ⟨passed.later _, Next.nil, by simp⟩
      | true =>
        refine ⟨passed.later _, next, open_, some_, fun s member matched => ?_⟩
        rcases called s member matched with due | done
        · rcases List.mem_cons.mp due with same | later
          · exact .inr (by simp [same])
          · exact .inl later
        · exact .inr (List.mem_append_left _ done)
    · cases stepped
  | updateOffset b query =>
    simp only [Postgres.step] at stepped
    split at stepped
    · next offset last here =>
      have knows := sound.knows b
      rw [here] at knows
      split at stepped
      · obtain rfl := Option.some.inj stepped
        have moved : (w.go b .unlocking).Sound destinations := sound.go trivial
        refine ⟨moved.drawn, moved.ordered, moved.logged, ?_, moved.knows⟩
        change Passed destinations w.outbox w.log (max w.lastEventId last)
        rcases max_choice w.lastEventId last with same | same <;> rw [same]
        · exact sound.cursor
        · exact knows.1
      · obtain rfl := Option.some.inj stepped
        exact sound.go trivial
    · cases stepped
  | unlock b query =>
    simp only [Postgres.step] at stepped
    split at stepped
    · split at stepped
      · obtain rfl := Option.some.inj stepped
        have waiting : (w.go b .waiting).Sound destinations := sound.go trivial
        exact waiting.lock _
      · obtain rfl := Option.some.inj stepped
        exact sound.go trivial
    · cases stepped

end Sound

theorem world_new_sound (destinations : Option (List String)) : World.Sound destinations {} where
  drawn := ⟨by decide, by simp⟩
  ordered := .nil
  logged := guarded_nil _
  cursor := ⟨.inl le_rfl, by simp⟩
  knows _ := trivial

instance : ∀ phase : Phase, Decidable phase.Owes
  | .fetching _ | .dispatching _ _ (_ :: _) | .handling _ _ _ _ _ (_ :: _) => isTrue trivial
  | .waiting | .asking | .locked | .dispatching _ _ [] | .handling _ _ _ _ _ [] | .unlocking | .ended => isFalse id

instance : ∀ w choice, Decidable (Orderly w choice)
  | w, .commit row => inferInstanceAs (Decidable (∀ other ∈ w.outbox, other.id < row.id))
  | w, .close b => inferInstanceAs (Decidable (¬ (w.brokers b).phase.Owes))
  | _, .insert .. | _, .rollback .. | _, .subscribe .. | _, .stop .. | _, .disconnect .. | _, .wake ..
  | _, .tryLock .. | _, .selectOffset .. | _, .selectBatch .. | _, .dispatch .. | _, .handle ..
  | _, .updateOffset .. | _, .unlock .. => isTrue trivial

def drainOnce : List Choice :=
  [.wake 0, .tryLock 0 .ok, .selectOffset 0 .ok, .selectBatch 0 .ok, .dispatch 0, .handle 0 true, .handle 0 true,
    .updateOffset 0 .ok, .unlock 0 .ok]

-- A row that becomes visible behind the cursor is passed over.
example : ¬ Always (step fun _ => none) (World.Delivered none) {}
    ([.subscribe 0 ⟨fun _ => true, 7⟩, .insert "orders" "placed", .insert "orders" "paid",
      .commit ⟨2, "orders", "paid"⟩] ++ drainOnce ++ [.commit ⟨1, "orders", "placed"⟩]) := by
  intro always
  have delivered := (always _ [] (List.append_nil _).symm _ rfl).2 ⟨1, "orders", "placed"⟩ (by simp) rfl (by decide)
  obtain ⟨b, subscribed, noted⟩ := delivered
  change Note.dispatched b _ subscribed ∈
    [.called 0 ⟨2, "orders", "paid"⟩ 7 true, .dispatched 0 ⟨2, "orders", "paid"⟩ _] at noted
  simp at noted

end Firefly.Eda.Postgres
