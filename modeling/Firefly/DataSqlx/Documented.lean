import Firefly.DataSqlx.Tx

set_option autoImplicit false

namespace Firefly.DataSqlx

open Transactional

namespace Documented

structure Scope where
  id : Nat
  pending : List String := []
  doomed : Bool := false
deriving DecidableEq

inductive Current where
  | outside
  | within (scope : Scope)
  | suspended
deriving DecidableEq

def Current.scope? : Current → Option Scope
  | .within scope => some scope
  | .outside | .suspended => none

structure World where
  current : Current := .outside
  committed : List String := []
  nextTx : Nat := 0
  trace : List Entry := []

namespace World

def record (w : World) (entry : Entry) : World :=
  { w with trace := w.trace ++ [entry] }

def tx (w : World) : Option Nat :=
  w.current.scope?.map (·.id)

def execute (sql : String) (w : World) : World :=
  match w.current with
  | .within scope =>
    record { w with current := .within { scope with pending := scope.pending ++ [sql] } }
      (.executed sql (some scope.id))
  | .outside | .suspended =>
    record { w with committed := w.committed ++ [sql] } (.executed sql none)

end World

inductive Mode where
  | plain
  | join
  | own
  | savepoint (saved : Scope)
  | suspend
deriving DecidableEq

def Mode.owns : Mode → Bool
  | .own => true
  | _ => false

def mode : Propagation → Option Scope → Except TxError Mode
  | .required, some _ | .supports, some _ | .mandatory, some _ => .ok .join
  | .nested, some scope => .ok (.savepoint scope)
  | .requiresNew, _ | .required, none | .nested, none => .ok .own
  | .notSupported, some _ => .ok .suspend
  | .supports, none | .notSupported, none | .never, none => .ok .plain
  | .mandatory, none => .error SqlxTransactionManager.mandatoryError
  | .never, some _ => .error SqlxTransactionManager.neverError

structure Ticket where
  mode : Mode
  propagation : Propagation
  around : Current
  tx : Option Nat

def start (mode : Mode) (w : World) : World :=
  match mode with
  | .own =>
    World.record { w with current := .within { id := w.nextTx }, nextTx := w.nextTx + 1 }
      (.began w.nextTx)
  | .suspend => { w with current := .suspended }
  | .plain | .join | .savepoint _ => w

def enter (propagation : Propagation) (w : World) : Except TxError Ticket × World :=
  match mode propagation w.current.scope? with
  | .ok mode =>
    let started := start mode w
    (.ok { mode, propagation, around := w.current, tx := started.tx },
      started.record (.entered propagation mode.owns started.tx))
  | .error error => (.error error, w.record (.refused propagation error))

def close (ticket : Ticket) (failed : Bool) (w : World) : World :=
  match ticket.mode, w.current with
  | .join, .within scope =>
    { w with current := .within { scope with doomed := scope.doomed || failed } }
  | .own, .within scope =>
    let w := { w with current := ticket.around }
    if failed || scope.doomed then w.record (.rolledBack scope.id)
    else
      World.record { w with committed := w.committed ++ scope.pending }
        (.committed scope.id scope.pending)
  -- Undoes the block, and what has been held against the transaction in it.
  | .savepoint saved, .within scope =>
    if failed then
      { w with current := .within { scope with pending := saved.pending, doomed := saved.doomed } }
    else w
  | .suspend, _ => { w with current := ticket.around }
  | _, _ => w

def leave (ticket : Ticket) (result : Except TxError TxOutcome) (w : World) :
    Except TxError TxOutcome × World :=
  let failed := SqlxTransactionManager.rollsBack result
  (result, (close ticket failed w).record
    (.answered ticket.propagation ticket.mode.owns ticket.tx failed (result.map (·.rolledBack))))

def documentedManager : TransactionManager World Ticket := { enter, leave }

def meaning (program : Program) (w : World) : Except TxError Unit × World :=
  program.run documentedManager World.execute w

end Documented

end Firefly.DataSqlx
