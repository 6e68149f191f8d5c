import Firefly.DataSqlx.Tx
import Firefly.DataSqlx.TxRuns
import Firefly.Shared.Runs

set_option autoImplicit false

namespace Firefly.DataSqlx

open Transactional SqlxTransactionManager

/-- A nested call that has pushed its frame, or the root; `parent` has made it. -/
structure Call where
  id : Nat
  parent : Option Nat
  token : Token
deriving DecidableEq

inductive Event where
  | ran (own actual : Option Nat)
  | finished (call : Call) (owner : Option Nat) (ended : Option Nat)
deriving DecidableEq

structure Task where
  session : Session
  owners : List Nat := []
  running : List Call := []
  nextCall : Nat := 0
  log : List Event := []

/-- A future is polled up to its next await point, or dropped where it waits. -/
inductive Choice where
  | enter (parent : Nat) (propagation : Propagation) (pushed : Bool)
  | statement (caller : Nat) (sql : String)
  | finish (call : Nat) (outcome : TxOutcome) (settled : Bool)
  | drop (call : Nat)

namespace Task

-- A call without a stack is no business of this module.
def start (propagation : Propagation) : Task :=
  match enter propagation {} with
  | (.ok token, session) =>
    match session.stack with
    | some _ =>
      { session, owners := [0], running := [{ id := 0, parent := none, token }], nextCall := 1 }
    | none => { session }
  | (.error _, session) => { session }

-- Dropped before the frame is pushed, where the database is asked for something.
def abandonEnter (propagation : Propagation) (s : Session) : Session :=
  match propagation, s.stack with
  | .requiresNew, _ =>
    let (tx, s) := s.begin
    s.rollback tx
  | .nested, some stack =>
    let name := stack.savepointSeq + 1
    { s with
      stack := some
        { frames := mapActive (Frame.withTx fun tx => tx.savepoint name) stack.frames
          savepointSeq := name } }
  | _, _ => s

-- Dropped after the frame is popped: a transaction that is dropped is rolled back.
def abandonLeave (token : Token) (result : Except TxError TxOutcome) (s : Session) : Session :=
  let stack := s.stack.getD { frames := [] }
  match token.kind, stack.frames with
  | .requiresNew, .real tx _ :: frames => (s.withFrames frames).rollback tx
  | .nested _, frames => s.withFrames frames.tail
  -- The others wait for nothing once they have popped.
  | _, _ => (leave token result s).2

def topTx (s : Session) : Option Nat :=
  match (s.stack.getD { frames := [] }).frames with
  | .real tx _ :: _ => some tx.id
  | _ => none

def family (id : Nat) : List Call → List Nat
  | [] => [id]
  | call :: older =>
    let members := family id older
    if call.parent.any (· ∈ members) then call.id :: members else members

def find (s : Task) (id : Nat) : Option Call :=
  s.running.find? (·.id = id)

def step (s : Task) : Choice → Task
  | .enter parent propagation pushed =>
    match s.find parent with
    | none => s
    | some _ =>
      if pushed then
        match enter propagation s.session with
        | (.ok token, session) =>
          { s with
            session
            owners := s.nextCall :: s.owners
            running := { id := s.nextCall, parent := some parent, token } :: s.running
            nextCall := s.nextCall + 1 }
        | (.error _, session) => { s with session }
      else { s with session := abandonEnter propagation s.session }
  | .statement caller sql =>
    match s.find caller with
    | none => s
    | some call =>
      { s with
        session := s.session.execute sql
        log := s.log ++ [.ran call.token.tx s.session.current] }
  | .finish id outcome settled =>
    match s.find id with
    | none => s
    | some call =>
      -- An operation is not done while it waits for a call that it has made.
      if s.running.any (·.parent = some id) then s
      else
        { s with
          session :=
            if settled then (leave call.token (.ok outcome) s.session).2
            else abandonLeave call.token (.ok outcome) s.session
          -- Whatever is on top is popped; the stack itself goes with the root.
          owners := if call.token.kind = .root then [] else s.owners.tail
          running := s.running.filter (·.id ≠ id)
          log := s.log ++ [.finished call s.owners.head? (topTx s.session)] }
  | .drop id =>
    match s.find id with
    | none => s
    | some call =>
      if call.parent = none then s
      else { s with running := s.running.filter fun other => other.id ∉ family id s.running }

end Task

end Firefly.DataSqlx

namespace Firefly.DataSqlx

open Transactional SqlxTransactionManager

def Event.Proper : Event → Prop
  | .ran own actual => actual = own
  | .finished call owner ended =>
    owner = some call.id ∧ (call.token.kind.owns = true → ended = call.token.tx)

def Pushed : Kind → Frame → Prop
  | .joined, .joined | .nested _, .savepoint | .suspended, .suspended => True
  | .requiresNew, .real _ _ => True
  | _, _ => False

inductive Layered : List Call → List Frame → Prop where
  | root (call : Call) (tx : ActiveTx) (rollbackOnly : Bool) (kind : call.token.kind = .root)
      (own : call.token.tx = some tx.id) : Layered [call] [.real tx rollbackOnly]
  | push {calls : List Call} {frames : List Frame} (call : Call) (frame : Frame)
      (pushed : Pushed call.token.kind frame)
      (own : call.token.tx = (active (frame :: frames)).map (·.1.id))
      (below : Layered calls frames) : Layered (call :: calls) (frame :: frames)

structure Disciplined (s : Task) : Prop where
  layered : ∀ stack, s.session.stack = some stack → Layered s.running stack.frames
  gone : s.session.stack = none → s.running = []
  owners : s.owners = s.running.map (·.id)
  proper : ∀ event ∈ s.log, event.Proper

def LastCome (s : Task) : Choice → Prop
  | .enter _ _ _ => True
  | .statement caller _ => ∀ call, s.find caller = some call →
    s.running.head?.map (·.token.tx) = some call.token.tx
  | .finish id _ _ => ∀ call, s.find id = some call → (∀ other ∈ s.running, other.parent ≠ some id) →
    s.running.head? = some call
  | .drop id => ∀ call, s.find id = some call → call.parent = none

section Layers

variable {calls : List Call} {frames : List Frame} {tx tx' : ActiveTx} {rollbackOnly : Bool}

theorem pushed_real {kind : Kind} {rollbackOnly' : Bool} (pushed : Pushed kind (.real tx rollbackOnly)) :
    Pushed kind (.real tx' rollbackOnly') := by
  cases kind <;> exact pushed

theorem layered_setActive (rollbackOnly' : Bool) (layered : Layered calls frames)
    (top : active frames = some (tx, rollbackOnly)) (id : tx'.id = tx.id) :
    Layered calls (setActive tx' rollbackOnly' frames) := by
  have same {frames : List Frame} (above : active frames = some (tx, rollbackOnly)) :
      (active frames).map (·.1.id) = (active (setActive tx' rollbackOnly' frames)).map (·.1.id) := by
    rw [above, active_setActive above]
    exact congrArg some id.symm
  induction layered with
  | root call old mark kind own =>
    obtain ⟨rfl, rfl⟩ : old = tx ∧ mark = rollbackOnly := by simpa [active] using top
    exact .root call tx' rollbackOnly' kind (own.trans (congrArg some id.symm))
  | push call frame pushed own below ih =>
    have own' := own.trans (same top)
    cases frame with
    | real old mark => exact .push call _ (pushed_real pushed) own' below
    | savepoint => exact .push call _ pushed own' (ih top)
    | joined => exact .push call _ pushed own' (ih top)
    | suspended => cases top

theorem Layered.head_tx (layered : Layered calls frames) :
    calls.head?.map (·.token.tx) = some ((active frames).map (·.1.id)) := by
  cases layered with
  | root call tx rollbackOnly kind own => exact congrArg some own
  | push call frame pushed own below => exact congrArg some own

def Touched (frames frames' : List Frame) : Prop :=
  frames' = frames ∨ ∃ tx rollbackOnly tx' rollbackOnly', active frames = some (tx, rollbackOnly) ∧
    tx'.id = tx.id ∧ frames' = setActive tx' rollbackOnly' frames

theorem Layered.touched {frames' : List Frame} (layered : Layered calls frames)
    (touched : Touched frames frames') : Layered calls frames' := by
  rcases touched with rfl | ⟨tx, rollbackOnly, tx', rollbackOnly', top, id, rfl⟩
  · exact layered
  · exact layered_setActive rollbackOnly' layered top id

theorem touched_mapActive (f : ActiveTx → ActiveTx) (keeps : ∀ tx, (f tx).id = tx.id)
    (frames : List Frame) : Touched frames (mapActive (Frame.withTx f) frames) := by
  cases top : active frames with
  | none => exact .inl (mapActive_none _ top)
  | some pair =>
    exact .inr ⟨pair.1, pair.2, f pair.1, pair.2, top, keeps _, mapActive_eq _ top rfl⟩

theorem touched_mark (frames : List Frame) :
    Touched frames (mapActive Frame.markRollbackOnly frames) := by
  cases top : active frames with
  | none => exact .inl (mapActive_none _ top)
  | some pair => exact .inr ⟨pair.1, pair.2, pair.1, true, top, rfl, mapActive_eq _ top rfl⟩

end Layers

section Operations

variable {s : Session} {stack : TxStack}

theorem execute_stack (sql : String) (held : s.stack = some stack) :
    ∃ frames, (s.execute sql).stack = some { stack with frames } ∧ Touched stack.frames frames := by
  cases top : activeReal stack.frames with
  | none => exact ⟨stack.frames, by simp [Session.execute, held, top, Session.record], .inl rfl⟩
  | some tx =>
    refine ⟨_, ?_, touched_mapActive (fun tx => tx.execute sql) (fun _ => rfl) stack.frames⟩
    simp [Session.execute, held, top, Session.record]

theorem rollbackToSavepoint_id {tx tx' : ActiveTx} {name : Nat}
    (found : tx.rollbackToSavepoint name = .ok tx') : tx'.id = tx.id := by
  unfold ActiveTx.rollbackToSavepoint at found
  split at found
  · exact Except.ok.inj found ▸ rfl
  · cases found

theorem releaseSavepoint_id {tx tx' : ActiveTx} {name : Nat}
    (found : tx.releaseSavepoint name = .ok tx') : tx'.id = tx.id := by
  unfold ActiveTx.releaseSavepoint at found
  split at found
  · exact Except.ok.inj found ▸ rfl
  · cases found

theorem leave_stack {token : Token} {frame : Frame} {frames : List Frame} (outcome : TxOutcome)
    (held : s.stack = some stack) (shape : stack.frames = frame :: frames)
    (pushed : Pushed token.kind frame) :
    ∃ frames', (leave token (.ok outcome) s).2.stack = some { stack with frames := frames' } ∧
      Touched frames frames' := by
  obtain ⟨kind, propagation, tx?⟩ := token
  obtain ⟨all, seq⟩ := stack
  obtain rfl : all = frame :: frames := shape
  cases kind with
  | plain => cases frame <;> cases pushed
  | root => cases frame <;> cases pushed
  | joined =>
    cases frame <;> cases pushed
    rw [leave_joined held]
    refine ⟨_, rfl, ?_⟩
    split
    · exact touched_mark frames
    · exact .inl rfl
  | requiresNew =>
    cases frame <;> cases pushed
    rw [leave_requiresNew held]
    refine ⟨frames, ?_, .inl rfl⟩
    show (finish _ _ _ _).stack = _
    unfold finish
    split <;> rfl
  | nested name =>
    cases frame <;> cases pushed
    simp only [leave, leaveKind, held, Option.getD_some, List.tail_cons]
    cases top : activeReal frames with
    | none => exact ⟨frames, by simp [Session.record, Session.withFrames, held], .inl rfl⟩
    | some tx =>
      obtain ⟨pair, there, rfl⟩ : ∃ pair, active frames = some pair ∧ pair.1 = tx := by
        simpa [activeReal_eq] using top
      dsimp only
      split
      · rename_i tx' found
        have id : tx'.id = pair.1.id := by
          split at found
          · exact rollbackToSavepoint_id found
          · exact releaseSavepoint_id found
        refine ⟨_, by simp [Session.record, Session.withFrames, held]; rfl, .inr
          ⟨pair.1, pair.2, tx', pair.2, there, id, mapActive_eq _ there rfl⟩⟩
      · exact ⟨frames, by simp [Session.record, Session.withFrames, held], .inl rfl⟩
  | suspended =>
    cases frame <;> cases pushed
    rw [leave_suspended held]
    exact ⟨frames, rfl, .inl rfl⟩

theorem abandonLeave_stack {token : Token} {frame : Frame} {frames : List Frame}
    (outcome : TxOutcome) (held : s.stack = some stack) (shape : stack.frames = frame :: frames)
    (pushed : Pushed token.kind frame) :
    ∃ frames', (Task.abandonLeave token (.ok outcome) s).stack =
        some { stack with frames := frames' } ∧ Touched frames frames' := by
  have waits : (∃ name, token.kind = .nested name) ∨ token.kind = .requiresNew ∨
      Task.abandonLeave token (.ok outcome) s = (leave token (.ok outcome) s).2 := by
    cases kind : token.kind with
    | nested name => exact .inl ⟨name, rfl⟩
    | requiresNew => exact .inr (.inl rfl)
    | _ => exact .inr (.inr (by simp [Task.abandonLeave, kind]))
  rcases waits with ⟨name, kind⟩ | kind | same
  · refine ⟨frames, ?_, .inl rfl⟩
    simp [Task.abandonLeave, kind, held, shape, Session.withFrames]
  · rw [kind] at pushed
    cases frame <;> cases pushed
    refine ⟨frames, ?_, .inl rfl⟩
    simp [Task.abandonLeave, kind, held, shape, Session.withFrames, Session.rollback, Session.record]
  · rw [same]
    exact leave_stack outcome held shape pushed

theorem enter_stack (propagation : Propagation) (held : s.stack = some stack) :
    (∃ error s', enter propagation s = (.error error, s') ∧
      ∃ seq, s'.stack = some ⟨stack.frames, seq⟩) ∨
    ∃ token s' frame frames seq, enter propagation s = (.ok token, s') ∧
      s'.stack = some ⟨frame :: frames, seq⟩ ∧ Touched stack.frames frames ∧
      Pushed token.kind frame ∧ token.tx = (active (frame :: frames)).map (·.1.id) := by
  have joined (joining : joins propagation = true) :
      ∃ token s' frame frames seq, enter propagation s = (.ok token, s') ∧
        s'.stack = some ⟨frame :: frames, seq⟩ ∧ Touched stack.frames frames ∧
        Pushed token.kind frame ∧ token.tx = (active (frame :: frames)).map (·.1.id) :=
    ⟨_, _, .joined, stack.frames, stack.savepointSeq, enter_joined held joining, rfl, .inl rfl,
      trivial, current_eq held⟩
  cases propagation with
  | required => exact .inr (joined rfl)
  | supports => exact .inr (joined rfl)
  | mandatory => exact .inr (joined rfl)
  | never => exact .inl ⟨_, _, enter_never held, stack.savepointSeq, held⟩
  | requiresNew =>
    right
    exact ⟨_, _, .real { id := s.nextTx } false, stack.frames, stack.savepointSeq,
      enter_requiresNew held, rfl, .inl rfl, trivial, rfl⟩
  | notSupported =>
    right
    exact ⟨_, _, .suspended, stack.frames, stack.savepointSeq, enter_suspended held, rfl, .inl rfl,
      trivial, rfl⟩
  | nested =>
    cases top : active stack.frames with
    | none => exact .inl ⟨_, _, enter_nested_none held top, stack.savepointSeq + 1, rfl⟩
    | some pair =>
      obtain ⟨tx, rollbackOnly⟩ := pair
      right
      refine ⟨_, _, .savepoint, _, stack.savepointSeq + 1, enter_nested held top, rfl,
        .inr ⟨tx, rollbackOnly, tx.savepoint (stack.savepointSeq + 1), rollbackOnly, top, rfl, rfl⟩,
        trivial, ?_⟩
      have above : active (.savepoint ::
          setActive (tx.savepoint (stack.savepointSeq + 1)) rollbackOnly stack.frames) =
            some (tx.savepoint (stack.savepointSeq + 1), rollbackOnly) := active_setActive top
      rw [above, current_eq held, top]
      rfl

theorem abandonEnter_stack (propagation : Propagation) (held : s.stack = some stack) :
    ∃ frames seq, (Task.abandonEnter propagation s).stack = some ⟨frames, seq⟩ ∧
      Touched stack.frames frames := by
  cases propagation with
  | nested =>
    refine ⟨_, stack.savepointSeq + 1, ?_, touched_mapActive
      (fun tx => tx.savepoint (stack.savepointSeq + 1)) (fun _ => rfl) stack.frames⟩
    simp [Task.abandonEnter, held]
  | requiresNew =>
    exact ⟨stack.frames, stack.savepointSeq, by simp [Task.abandonEnter, Session.begin,
      Session.record, Session.rollback, held], .inl rfl⟩
  | _ => exact ⟨stack.frames, stack.savepointSeq, by simp [Task.abandonEnter, held], .inl rfl⟩

end Operations

structure Numbered (s : Task) : Prop where
  ordered : (s.running.map (·.id)).Pairwise (· > ·)
  below : ∀ call ∈ s.running, call.id < s.nextCall

section Steps

variable {s : Task}

theorem find_some {id : Nat} {call : Call} (found : s.find id = some call) :
    call ∈ s.running ∧ call.id = id :=
  ⟨List.mem_of_find?_eq_some found, by simpa using List.find?_some found⟩

theorem Disciplined.withSession (disciplined : Disciplined s) {session : Session} {events : List Event}
    (layered : ∀ stack, session.stack = some stack → Layered s.running stack.frames)
    (gone : session.stack = none → s.running = []) (proper : ∀ event ∈ events, event.Proper) :
    Disciplined { s with session, log := s.log ++ events } where
  layered := layered
  gone := gone
  owners := disciplined.owners
  proper event member := by
    rcases List.mem_append.mp member with before | now
    · exact disciplined.proper event before
    · exact proper event now

theorem Disciplined.held (disciplined : Disciplined s) {call : Call} (member : call ∈ s.running) :
    ∃ stack, s.session.stack = some stack ∧ Layered s.running stack.frames := by
  cases held : s.session.stack with
  | none =>
    rw [disciplined.gone held] at member
    cases member
  | some stack => exact ⟨stack, rfl, disciplined.layered stack held⟩

theorem enter_exact (parent : Nat) (propagation : Propagation) (pushed : Bool)
    (numbered : Numbered s) (disciplined : Disciplined s) :
    Disciplined (s.step (.enter parent propagation pushed)) ∧
      Numbered (s.step (.enter parent propagation pushed)) := by
  cases found : s.find parent with
  | none => simpa only [Task.step, found] using ⟨disciplined, numbered⟩
  | some call =>
    obtain ⟨stack, held, layered⟩ := disciplined.held (find_some found).1
    have same (session : Session) (frames : List Frame) (seq : Nat)
        (kept : session.stack = some ⟨frames, seq⟩) (touched : Touched stack.frames frames) :
        Disciplined { s with session } ∧ Numbered { s with session } := by
      refine ⟨⟨?_, ?_, disciplined.owners, disciplined.proper⟩, numbered.ordered, numbered.below⟩
      · intro stack' held'
        obtain rfl := Option.some.inj (kept.symm.trans held')
        exact layered.touched touched
      · intro gone
        cases kept.symm.trans gone
    cases pushed with
    | false =>
      obtain ⟨frames, seq, kept, touched⟩ := abandonEnter_stack propagation held
      simpa only [Task.step, found, Bool.false_eq_true, if_false] using same _ _ _ kept touched
    | true =>
      rcases enter_stack propagation held with ⟨error, session, entered, seq, kept⟩ |
        ⟨token, session, frame, frames, seq, entered, kept, touched, shape, own⟩
      · simpa only [Task.step, found, entered, if_true] using same _ _ _ kept (.inl rfl)
      · simp only [Task.step, found, entered, if_true]
        refine ⟨⟨?_, ?_, ?_, disciplined.proper⟩, ?_, ?_⟩
        · intro stack' held'
          obtain rfl := Option.some.inj (kept.symm.trans held')
          exact .push _ frame shape own (layered.touched touched)
        · intro gone
          cases kept.symm.trans gone
        · exact congrArg (List.cons s.nextCall) disciplined.owners
        · refine List.pairwise_cons.mpr ⟨?_, numbered.ordered⟩
          intro id member
          obtain ⟨other, running, rfl⟩ := List.mem_map.mp member
          exact numbered.below other running
        · intro other member
          rcases List.mem_cons.mp member with rfl | older
          · exact Nat.lt_succ_self _
          · exact (numbered.below other older).trans (Nat.lt_succ_self _)

theorem statement_exact (caller : Nat) (sql : String) (numbered : Numbered s)
    (disciplined : Disciplined s) :
    (Disciplined (s.step (.statement caller sql)) ↔ LastCome s (.statement caller sql)) ∧
      Numbered (s.step (.statement caller sql)) := by
  cases found : s.find caller with
  | none => simp [Task.step, LastCome, found, disciplined, numbered]
  | some call =>
    obtain ⟨stack, held, layered⟩ := disciplined.held (find_some found).1
    obtain ⟨frames, kept, touched⟩ := execute_stack sql held
    have actual : s.running.head?.map (·.token.tx) = some s.session.current := by
      rw [current_eq held]
      exact layered.head_tx
    simp only [Task.step, LastCome, found]
    refine ⟨⟨?_, ?_⟩, numbered.ordered, numbered.below⟩
    · intro after other same
      obtain rfl := Option.some.inj same
      have proper := after.proper (.ran call.token.tx s.session.current) (by simp)
      rw [actual]
      exact congrArg some proper
    · intro last
      have own := last call rfl
      rw [actual] at own
      apply disciplined.withSession
      · intro stack' held'
        obtain rfl := Option.some.inj (kept.symm.trans held')
        exact layered.touched touched
      · intro gone
        cases kept.symm.trans gone
      · intro event member
        rw [List.mem_singleton.mp member]
        exact Option.some.inj own

theorem leave_root_stack {token : Token} (outcome : TxOutcome) (kind : token.kind = .root)
    (session : Session) : (leave token (.ok outcome) session).2.stack = none := by
  simp only [leave, leaveKind, kind]
  split
  · show (finish _ _ _ _).stack = none
    unfold finish
    split <;> rfl
  · rfl

theorem last_finishes {call : Call} {rest : List Call} (outcome : TxOutcome) (settled : Bool)
    (disciplined : Disciplined s) (running : s.running = call :: rest) :
    Disciplined
      { s with
        session :=
          if settled then (leave call.token (.ok outcome) s.session).2
          else Task.abandonLeave call.token (.ok outcome) s.session
        owners := if call.token.kind = .root then [] else s.owners.tail
        running := rest
        log := s.log ++ [.finished call s.owners.head? (Task.topTx s.session)] } := by
  have member : call ∈ s.running := running ▸ List.mem_cons_self
  obtain ⟨stack, held, layered⟩ := disciplined.held member
  have owners := disciplined.owners
  rw [running] at layered owners
  have proper (own : call.token.kind.owns = true → Task.topTx s.session = call.token.tx) :
      ∀ event ∈ s.log ++ [.finished call s.owners.head? (Task.topTx s.session)], event.Proper := by
    intro event member
    rcases List.mem_append.mp member with before | now
    · exact disciplined.proper event before
    · rw [List.mem_singleton.mp now]
      exact ⟨by rw [owners]; rfl, own⟩
  generalize shape : stack.frames = frames at layered
  cases layered with
  | root _ tx rollbackOnly kind own =>
    have gone : (if settled then (leave call.token (.ok outcome) s.session).2
        else Task.abandonLeave call.token (.ok outcome) s.session).stack = none := by
      cases settled
      · simp [Task.abandonLeave, kind, leave_root_stack]
      · exact leave_root_stack outcome kind s.session
    refine ⟨?_, fun _ => rfl, by simp [kind], proper fun _ => ?_⟩
    · intro stack' held'
      cases gone.symm.trans held'
    · simp [Task.topTx, held, shape, own]
  | @push calls frames _ frame pushed own below =>
    have popped : ∃ frames', (if settled then (leave call.token (.ok outcome) s.session).2
        else Task.abandonLeave call.token (.ok outcome) s.session).stack =
          some { stack with frames := frames' } ∧ Touched frames frames' := by
      cases settled
      · exact abandonLeave_stack outcome held shape pushed
      · exact leave_stack outcome held shape pushed
    obtain ⟨frames', kept, touched⟩ := popped
    have nested : call.token.kind ≠ .root := by
      intro kind
      rw [kind] at pushed
      cases frame <;> cases pushed
    refine ⟨?_, ?_, ?_, proper fun owns => ?_⟩
    · intro stack' held'
      obtain rfl := Option.some.inj (kept.symm.trans held')
      exact below.touched touched
    · intro gone
      cases kept.symm.trans gone
    · rw [if_neg nested, owners]
      rfl
    · cases kind : call.token.kind <;> rw [kind] at owns pushed <;> cases owns
      · exact absurd kind nested
      · cases frame <;> cases pushed
        simp [Task.topTx, held, shape, own, active]

theorem finish_exact (id : Nat) (outcome : TxOutcome) (settled : Bool) (numbered : Numbered s)
    (disciplined : Disciplined s) :
    (Disciplined (s.step (.finish id outcome settled)) ↔ LastCome s (.finish id outcome settled)) ∧
      Numbered (s.step (.finish id outcome settled)) := by
  cases found : s.find id with
  | none => simp [Task.step, LastCome, found, disciplined, numbered]
  | some call =>
    obtain ⟨member, rfl⟩ := find_some found
    by_cases child : s.running.any (·.parent = some call.id) = true
    · simp only [Task.step, LastCome, found, child, if_true]
      refine ⟨⟨fun _ other _ idle => ?_, fun _ => disciplined⟩, numbered⟩
      obtain ⟨below, running, made⟩ := List.any_eq_true.mp child
      exact absurd (by simpa using made) (idle below running)
    · simp only [Task.step, LastCome, found, child]
      have numbered' : Numbered
          { s with running := s.running.filter (·.id ≠ call.id) } :=
        ⟨numbered.ordered.sublist (List.filter_sublist.map _),
          fun other kept => numbered.below other (List.mem_of_mem_filter kept)⟩
      refine ⟨⟨fun after other same _ => ?_, fun last => ?_⟩, numbered'.ordered, numbered'.below⟩
      · obtain rfl := Option.some.inj same
        have owners : (if call.token.kind = .root then [] else s.owners.tail) =
            (s.running.filter (·.id ≠ call.id)).map (·.id) := after.owners
        cases running : s.running with
        | nil =>
          rw [running] at member
          cases member
        | cons first rest =>
          have ordered := numbered.ordered
          rw [running] at ordered
          by_cases here : first.id = call.id
          · -- Numbers are not used twice.
            have hit : s.find call.id = some first := by
              simp [Task.find, running, here]
            rw [found] at hit
            exact hit.symm
          · rw [disciplined.owners, running, List.filter_cons_of_pos (by simpa using here)] at owners
            split at owners
            · cases owners
            · have twice : first.id ∈ rest.map (·.id) := by
                rw [show rest.map (·.id) = first.id :: _ from owners]
                exact List.mem_cons_self
              exact absurd ((List.pairwise_cons.mp ordered).1 _ twice) (lt_irrefl _)
      · have alone : ∀ other ∈ s.running, other.parent ≠ some call.id := by
          intro other running made
          exact child (List.any_eq_true.mpr ⟨other, running, by simpa using made⟩)
        have first := last call rfl alone
        obtain ⟨rest, running⟩ : ∃ rest, s.running = call :: rest := by
          cases running : s.running with
          | nil => simp [running] at first
          | cons head rest =>
            rw [running] at first
            exact ⟨rest, by rw [Option.some.inj first]⟩
        have ordered := numbered.ordered
        rw [running] at ordered
        have others : s.running.filter (·.id ≠ call.id) = rest := by
          rw [running, List.filter_cons_of_neg (by simp), List.filter_eq_self]
          intro other older
          have less := (List.pairwise_cons.mp ordered).1 _ (List.mem_map_of_mem older)
          simpa using (ne_of_gt less).symm
        rw [others]
        exact last_finishes outcome settled disciplined running

theorem mem_family (id : Nat) (calls : List Call) : id ∈ Task.family id calls := by
  induction calls with
  | nil => exact List.mem_singleton.mpr rfl
  | cons call older ih =>
    unfold Task.family
    dsimp only
    split
    · exact List.mem_cons_of_mem _ ih
    · exact ih

theorem drop_exact (id : Nat) (numbered : Numbered s) (disciplined : Disciplined s) :
    (Disciplined (s.step (.drop id)) ↔ LastCome s (.drop id)) ∧ Numbered (s.step (.drop id)) := by
  cases found : s.find id with
  | none => simp [Task.step, LastCome, found, disciplined, numbered]
  | some call =>
    by_cases root : call.parent = none
    · simp [Task.step, LastCome, found, root, disciplined, numbered]
    · simp only [Task.step, LastCome, found, root, if_false]
      refine ⟨⟨fun after => ?_, fun last => absurd (last call rfl) root⟩,
        numbered.ordered.sublist (List.filter_sublist.map _),
        fun other kept => numbered.below other (List.mem_of_mem_filter kept)⟩
      -- The frame of the dropped call is still there.
      obtain ⟨member, rfl⟩ := find_some found
      have owners := after.owners.symm.trans disciplined.owners
      have all := congrArg List.length owners
      simp only [List.length_map] at all
      have kept := List.length_filter_eq_length_iff.mp all call member
      simp [mem_family] at kept

end Steps

theorem start_disciplined (propagation : Propagation) :
    Disciplined (Task.start propagation) ∧ Numbered (Task.start propagation) := by
  have nothing (session : Session) (idle : session.stack = none) :
      Disciplined { session } ∧ Numbered { session } := by
    refine ⟨⟨?_, fun _ => rfl, rfl, by simp⟩, by simp, by simp⟩
    intro stack held
    cases idle.symm.trans held
  have opens (opening : propagation = .required ∨ propagation = .requiresNew ∨
      propagation = .nested) :
      Disciplined (Task.start propagation) ∧ Numbered (Task.start propagation) := by
    have entered := enter_root (s := {}) rfl opening
    simp only [Task.start, entered, opened, Session.record]
    refine ⟨⟨?_, ?_, rfl, by simp⟩, by simp, by simp⟩
    · intro stack held
      obtain rfl := Option.some.inj held
      exact .root _ _ _ rfl rfl
    · intro gone
      cases gone
  cases propagation with
  | required => exact opens (.inl rfl)
  | requiresNew => exact opens (.inr (.inl rfl))
  | nested => exact opens (.inr (.inr rfl))
  | supports => exact nothing _ rfl
  | notSupported => exact nothing _ rfl
  | never => exact nothing _ rfl
  | mandatory => exact nothing _ rfl

theorem disciplined_iff (propagation : Propagation) (choices : List Choice) :
    Runs.Always (fun s choice => some (Task.step s choice)) Disciplined (Task.start propagation) choices ↔
      Runs.Along (fun s choice => some (Task.step s choice)) LastCome (Task.start propagation)
        choices := by
  obtain ⟨disciplined, numbered⟩ := start_disciplined propagation
  apply Runs.always_iff_along (I := Numbered) _ choices numbered disciplined
  intro s choice numbered disciplined
  refine ⟨s.step choice, rfl, ?_⟩
  cases choice with
  | enter parent propagation pushed =>
    obtain ⟨after, numbered'⟩ := enter_exact parent propagation pushed numbered disciplined
    exact ⟨⟨fun _ => trivial, fun _ => after⟩, fun _ => numbered'⟩
  | statement caller sql =>
    exact (statement_exact caller sql numbered disciplined).imp_right fun kept _ => kept
  | finish id outcome settled =>
    exact (finish_exact id outcome settled numbered disciplined).imp_right fun kept _ => kept
  | drop id => exact (drop_exact id numbered disciplined).imp_right fun kept _ => kept

def timedOut : List Choice :=
  [.enter 0 .requiresNew true, .drop 1, .statement 0 "insert", .finish 0 ⟨.ok (), false⟩ true]

def overlapping : List Choice :=
  [.enter 0 .requiresNew true, .enter 0 .required true, .finish 1 ⟨.ok (), false⟩ true]

theorem discipline_broken :
    ((timedOut.foldl Task.step (Task.start .required)).session.trace =
        [.began 0, .entered .required true (some 0), .began 1,
          .entered .requiresNew true (some 1), .executed "insert" (some 1),
          .committed 1 ["insert"], .answered .required true (some 0) false (.ok false)] ∧
      ¬ Disciplined (timedOut.foldl Task.step (Task.start .required))) ∧
    ((overlapping.foldl Task.step (Task.start .required)).session.trace.getLast? =
        some (.answered .requiresNew true (some 1) false (.error corrupted)) ∧
      ¬ Disciplined (overlapping.foldl Task.step (Task.start .required))) := by
  have first : (timedOut.foldl Task.step (Task.start .required)).log.head? =
      some (.ran (some 0) (some 1)) := by decide
  have second : (overlapping.foldl Task.step (Task.start .required)).owners = [1, 0] ∧
      (overlapping.foldl Task.step (Task.start .required)).running.map (·.id) = [2, 0] := by decide
  refine ⟨⟨by decide, fun disciplined => ?_⟩, by decide, fun disciplined => ?_⟩
  · have proper := disciplined.proper _ (List.mem_of_head? first)
    cases proper
  · have owners := disciplined.owners
    rw [second.1, second.2] at owners
    cases owners

end Firefly.DataSqlx
