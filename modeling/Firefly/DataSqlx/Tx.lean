import Firefly.Transactional.Manager

set_option autoImplicit false

namespace Firefly.DataSqlx

open Transactional

/-- An open transaction: what it has run so far, and how far each savepoint reaches. A savepoint goes
by the number in its name. -/
structure ActiveTx where
  id : Nat
  pending : List String := []
  savepoints : List (Nat × Nat) := []
deriving DecidableEq, Repr

namespace ActiveTx

def execute (tx : ActiveTx) (sql : String) : ActiveTx :=
  { tx with pending := tx.pending ++ [sql] }

def savepoint (tx : ActiveTx) (name : Nat) : ActiveTx :=
  { tx with savepoints := (name, tx.pending.length) :: tx.savepoints }

def noSavepoint : TxError := .database "no such savepoint"

-- The savepoint outlives the rollback to it.
def rollbackToSavepoint (tx : ActiveTx) (name : Nat) : Except TxError ActiveTx :=
  match tx.savepoints.dropWhile fun point => point.1 ≠ name with
  | (_, length) :: rest =>
    .ok { tx with pending := tx.pending.take length, savepoints := (name, length) :: rest }
  | [] => .error noSavepoint

def releaseSavepoint (tx : ActiveTx) (name : Nat) : Except TxError ActiveTx :=
  match tx.savepoints.dropWhile fun point => point.1 ≠ name with
  | _ :: rest => .ok { tx with savepoints := rest }
  | [] => .error noSavepoint

end ActiveTx

inductive Entry where
  | began (tx : Nat)
  | executed (sql : String) (tx : Option Nat)
  | committed (tx : Nat) (durable : List String)
  | rolledBack (tx : Nat)
  | entered (propagation : Propagation) (owner : Bool) (tx : Option Nat)
  | refused (propagation : Propagation) (error : TxError)
  | answered (propagation : Propagation) (owner : Bool) (tx : Option Nat) (failed : Bool)
    (answer : Except TxError Bool)
deriving DecidableEq

inductive Frame where
  | real (tx : ActiveTx) (rollbackOnly : Bool)
  | savepoint
  | joined
  | suspended
deriving DecidableEq, Repr

/-- The frames, the top of the stack first. -/
structure TxStack where
  frames : List Frame
  savepointSeq : Nat := 0
deriving DecidableEq, Repr

-- What comes first from the top: a transaction, or a suspension.
def activeReal : List Frame → Option ActiveTx
  | .real tx _ :: _ => some tx
  | .savepoint :: frames | .joined :: frames => activeReal frames
  | .suspended :: _ | [] => none

def mapActive (f : Frame → Frame) : List Frame → List Frame
  | .real tx rollbackOnly :: frames => f (.real tx rollbackOnly) :: frames
  | .savepoint :: frames => .savepoint :: mapActive f frames
  | .joined :: frames => .joined :: mapActive f frames
  | .suspended :: frames => .suspended :: frames
  | [] => []

def Frame.withTx (f : ActiveTx → ActiveTx) : Frame → Frame
  | .real tx rollbackOnly => .real (f tx) rollbackOnly
  | frame => frame

def Frame.markRollbackOnly : Frame → Frame
  | .real tx _ => .real tx true
  | frame => frame

structure Session where
  stack : Option TxStack := none
  committed : List String := []
  nextTx : Nat := 0
  trace : List Entry := []

namespace Session

def record (s : Session) (entry : Entry) : Session :=
  { s with trace := s.trace ++ [entry] }

def current (s : Session) : Option Nat :=
  (s.stack.bind fun stack => activeReal stack.frames).map (·.id)

def withFrames (s : Session) (frames : List Frame) : Session :=
  { s with stack := s.stack.map fun stack => { stack with frames } }

-- In the transaction, or on a connection of the pool.
def execute (sql : String) (s : Session) : Session :=
  match s.stack.bind fun stack => activeReal stack.frames with
  | some tx =>
    let stack := s.stack.map fun stack =>
      { stack with frames := mapActive (Frame.withTx fun tx => tx.execute sql) stack.frames }
    record { s with stack } (.executed sql (some tx.id))
  | none => record { s with committed := s.committed ++ [sql] } (.executed sql none)

def begin (s : Session) : ActiveTx × Session :=
  ({ id := s.nextTx }, record { s with nextTx := s.nextTx + 1 } (.began s.nextTx))

def commit (s : Session) (tx : ActiveTx) : Session :=
  record { s with committed := s.committed ++ tx.pending } (.committed tx.id tx.pending)

def rollback (s : Session) (tx : ActiveTx) : Session :=
  s.record (.rolledBack tx.id)

end Session

inductive Kind where
  | plain
  | root
  | joined
  | requiresNew
  | nested (name : Nat)
  | suspended
deriving DecidableEq, Repr

def Kind.owns : Kind → Bool
  | .root | .requiresNew => true
  | _ => false

structure Token where
  kind : Kind
  propagation : Propagation
  tx : Option Nat
deriving DecidableEq, Repr

namespace SqlxTransactionManager

def mandatoryError : TxError :=
  .application "Propagation.MANDATORY requires an existing transaction, but none is active"

def neverError : TxError :=
  .application "Propagation.NEVER, but a transaction is active"

def nestedError : TxError :=
  .application "Propagation.NESTED requires an enclosing transaction"

def corrupted : TxError := .database "transaction stack corrupted"

def enterRoot (propagation : Propagation) (s : Session) : Except TxError Kind × Session :=
  match propagation with
  | .mandatory => (.error mandatoryError, s)
  | .never | .notSupported | .supports => (.ok .plain, s)
  | .required | .requiresNew | .nested =>
    let (tx, s) := s.begin
    (.ok .root, { s with stack := some { frames := [.real tx false] } })

def enterNested (propagation : Propagation) (stack : TxStack) (s : Session) :
    Except TxError Kind × Session :=
  let push (s : Session) (frame : Frame) : Session :=
    { s with stack := some { stack with frames := frame :: stack.frames } }
  match propagation with
  | .never => (.error neverError, s)
  | .required | .supports | .mandatory => (.ok .joined, push s .joined)
  | .requiresNew =>
    let (tx, s) := s.begin
    (.ok .requiresNew, push s (.real tx false))
  | .nested =>
    let name := stack.savepointSeq + 1
    match activeReal stack.frames with
    | some _ =>
      let frames := mapActive (Frame.withTx fun tx => tx.savepoint name) stack.frames
      (.ok (.nested name),
        { s with stack := some { frames := .savepoint :: frames, savepointSeq := name } })
    | none => (.error nestedError, { s with stack := some { stack with savepointSeq := name } })
  | .notSupported => (.ok .suspended, push s .suspended)

def enter (propagation : Propagation) (s : Session) : Except TxError Token × Session :=
  let (entered, s) :=
    match s.stack with
    | none => enterRoot propagation s
    | some stack => enterNested propagation stack s
  match entered with
  | .ok kind =>
    (.ok { kind, propagation, tx := s.current },
      s.record (.entered propagation kind.owns s.current))
  | .error error => (.error error, s.record (.refused propagation error))

def rollsBack : Except TxError TxOutcome → Bool
  | .ok outcome => outcome.rolledBack
  | .error _ => true

def finish (result : Except TxError TxOutcome) (tx : ActiveTx) (rollbackOnly : Bool)
    (s : Session) : Session :=
  if rollsBack result || rollbackOnly then s.rollback tx else s.commit tx

def leaveKind (kind : Kind) (result : Except TxError TxOutcome) (stack : TxStack) (s : Session) :
    Except TxError TxOutcome × Session :=
  match kind with
  | .plain => (result, s)
  | .root =>
    -- The scope of the stack ends with the root call.
    match stack.frames with
    | .real tx rollbackOnly :: _ =>
      (result, finish result tx rollbackOnly { s with stack := none })
    | _ => (.error corrupted, { s with stack := none })
  | .joined =>
    let frames := stack.frames.tail
    (result,
      s.withFrames (if rollsBack result then mapActive Frame.markRollbackOnly frames else frames))
  | .requiresNew =>
    match stack.frames with
    | .real tx rollbackOnly :: frames =>
      (result, finish result tx rollbackOnly (s.withFrames frames))
    | _ => (.error corrupted, s.withFrames stack.frames.tail)
  | .nested name =>
    let frames := stack.frames.tail
    match activeReal frames with
    | some tx =>
      match (if rollsBack result then tx.rollbackToSavepoint name else tx.releaseSavepoint name) with
      | .ok tx => (result, s.withFrames (mapActive (Frame.withTx fun _ => tx) frames))
      | .error error => (.error error, s.withFrames frames)
    | none => (result, s.withFrames frames)
  | .suspended => (result, s.withFrames stack.frames.tail)

def leave (token : Token) (result : Except TxError TxOutcome) (s : Session) :
    Except TxError TxOutcome × Session :=
  let (answer, s) := leaveKind token.kind result (s.stack.getD { frames := [] }) s
  (answer, s.record (.answered token.propagation token.kind.owns token.tx (rollsBack result)
    (answer.map (·.rolledBack))))

end SqlxTransactionManager

def sqlxTransactionManager : TransactionManager Session Token :=
  { enter := SqlxTransactionManager.enter, leave := SqlxTransactionManager.leave }

def run (program : Program) (s : Session) : Except TxError Unit × Session :=
  program.run sqlxTransactionManager Session.execute s

end Firefly.DataSqlx
