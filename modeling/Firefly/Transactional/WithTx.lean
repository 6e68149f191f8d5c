import Mathlib

set_option autoImplicit false

-- A database answers as it likes: every call can fail or panic. The events are the calls it has
-- received.

namespace Firefly.Transactional.WithTx

inductive TxError where
  | begin (source : TxError)
  | commit (source : TxError)
  | rollbackFailed (source rollback : TxError)
  | database (message : String)
  | application (message : String)

inductive Answer (α : Type) where
  | returned (result : Except TxError α)
  | panicked

inductive Conn (H : Type) where
  | tx (tx : H)
  | db

inductive Event (H : Type) where
  | begin
  | execute (conn : Conn H) (sql : String)
  | commit (tx : H)
  | rollback (tx : H)

structure Database (σ H R : Type) where
  begin : σ → Answer H × σ
  execute : Conn H → String → σ → Answer R × σ
  commit : H → σ → Answer Unit × σ
  rollback : H → σ → Answer Unit × σ

structure World (σ H : Type) where
  state : σ
  trace : List (Event H)

structure TxContext (H : Type) where
  tx : Option H

variable {σ H R V α : Type}

abbrev Run (σ H α : Type) := World σ H → Answer α × World σ H

def TxContext.root : TxContext H := ⟨none⟩

def call (event : Event H) (op : σ → Answer α × σ) : Run σ H α := fun w =>
  ((op w.state).1, ⟨(op w.state).2, w.trace ++ [event]⟩)

def exec (ctx : TxContext H) : Conn H :=
  match ctx.tx with
  | some tx => .tx tx
  | none => .db

namespace Database

variable (db : Database σ H R)

def dropGuard (guard : Option H) (w : World σ H) : World σ H :=
  match guard with
  | some tx => (call (.rollback tx) (db.rollback tx) w).2
  | none => w

def finish (tx : H) (result : Except TxError V) : Run σ H V := fun w =>
  match result with
  | .ok value =>
    match call (.commit tx) (db.commit tx) w with
    | (.returned (.ok ()), w) => (.returned (.ok value), w)
    | (.returned (.error error), w) => (.returned (.error (.commit error)), w)
    | (.panicked, w) => (.panicked, w)
  | .error error =>
    match call (.rollback tx) (db.rollback tx) w with
    | (.returned (.ok ()), w) => (.returned (.error error), w)
    | (.returned (.error rollback), w) => (.returned (.error (.rollbackFailed error rollback)), w)
    | (.panicked, w) => (.panicked, w)

def withTx (ctx : TxContext H) (f : TxContext H → Run σ H V) : Run σ H V := fun w =>
  match ctx.tx with
  | some _ => f ctx w
  | none =>
    match call .begin db.begin w with
    | (.panicked, w) => (.panicked, w)
    | (.returned (.error error), w) => (.returned (.error (.begin error)), w)
    | (.returned (.ok tx), w) =>
      let guard := some tx
      match f ⟨guard⟩ w with
      | (.panicked, w) => (.panicked, db.dropGuard guard w)
      | (.returned result, w) =>
        -- `take` empties the guard before the transaction is finished.
        let guard := none
        let (answer, w) := db.finish tx result w
        (answer, db.dropGuard guard w)

end Database

/-- A closure of `with_tx`. What follows a statement or a nested call sees its result, and may pass
an error on or swallow it; a panic unwinds. -/
inductive Program (R V : Type) where
  | done (result : Except TxError V)
  | panic
  | statement (sql : String) (next : Except TxError R → Program R V)
  | withTx (body : Program R V) (next : Except TxError V → Program R V)

namespace Program

def run (db : Database σ H R) (ctx : TxContext H) : Program R V → Run σ H V
  | .done result, w => (.returned result, w)
  | .panic, w => (.panicked, w)
  | .statement sql next, w =>
    match call (.execute (exec ctx) sql) (db.execute (exec ctx) sql) w with
    | (.returned result, w) => (next result).run db ctx w
    | (.panicked, w) => (.panicked, w)
  | .withTx body next, w =>
    match db.withTx ctx (fun inner w => body.run db inner w) w with
    | (.returned result, w) => (next result).run db ctx w
    | (.panicked, w) => (.panicked, w)

def plain (db : Database σ H R) (tx : H) : Program R V → σ → Answer V × σ × List String
  | .done result, s => (.returned result, s, [])
  | .panic, s => (.panicked, s, [])
  | .statement sql next, s =>
    match db.execute (.tx tx) sql s with
    | (.returned result, s) =>
      let (answer, s, sqls) := (next result).plain db tx s
      (answer, s, sql :: sqls)
    | (.panicked, s) => (.panicked, s, [sql])
  | .withTx body next, s =>
    match body.plain db tx s with
    | (.returned result, s, sqls) =>
      let (answer, s, more) := (next result).plain db tx s
      (answer, s, sqls ++ more)
    | (.panicked, s, sqls) => (.panicked, s, sqls)

end Program

def onTx (tx : H) (sqls : List String) : List (Event H) := sqls.map (.execute (.tx tx))

def closing (tx : H) : Answer V → Event H
  | .returned (.ok _) => .commit tx
  | .returned (.error _) | .panicked => .rollback tx

theorem run_in_transaction (db : Database σ H R) (tx : H) (program : Program R V) (w : World σ H) :
    program.run db ⟨some tx⟩ w =
      ((program.plain db tx w.state).1,
        ⟨(program.plain db tx w.state).2.1, w.trace ++ onTx tx (program.plain db tx w.state).2.2⟩) := by
  induction program generalizing w with
  | done result => simp [Program.run, Program.plain, onTx]
  | panic => simp [Program.run, Program.plain, onTx]
  | statement sql next ih =>
    simp only [Program.run, Program.plain, exec, call]
    rcases answered : db.execute (.tx tx) sql w.state with ⟨_ | result, s⟩
    · simp [ih, onTx]
    · simp [onTx]
  | withTx body next ihBody ih =>
    simp only [Program.run, Program.plain, Database.withTx, ihBody]
    rcases body.plain db tx w.state with ⟨_ | result, s, sqls⟩
    · simp [ih, onTx]
    · rfl

theorem finish_trace (db : Database σ H R) (tx : H) (result : Except TxError V) (w : World σ H) :
    (db.finish tx result w).2.trace = w.trace ++ [closing tx (.returned result)] := by
  unfold Database.finish
  cases result with
  | ok value =>
    simp only [call, closing]
    rcases db.commit tx w.state with ⟨(_ | _) | _, s⟩ <;> rfl
  | error error =>
    simp only [call, closing]
    rcases db.rollback tx w.state with ⟨(_ | _) | _, s⟩ <;> rfl

theorem finish_ok {db : Database σ H R} {tx : H} {result : Except TxError V} {w : World σ H} {value : V}
    (done : (db.finish tx result w).1 = .returned (.ok value)) :
    result = .ok value ∧ (db.commit tx w.state).1 = .returned (.ok ()) := by
  unfold Database.finish at done
  cases result with
  | ok own =>
    simp only [call] at done
    rcases committed : db.commit tx w.state with ⟨(_ | _) | _, s⟩ <;> rw [committed] at done <;> cases done
    exact ⟨rfl, rfl⟩
  | error error =>
    simp only [call] at done
    rcases rolled : db.rollback tx w.state with ⟨(_ | _) | _, s⟩ <;> rw [rolled] at done <;> cases done

theorem all_or_nothing (db : Database σ H R) (program : Program R V) (w : World σ H) :
    (∀ tx s, db.begin w.state = (.returned (.ok tx), s) →
      (program.run db ⟨some tx⟩ ⟨s, w.trace ++ [.begin]⟩).1 = (program.plain db tx s).1 ∧
      (db.withTx .root (program.run db) w).2.trace = w.trace ++ .begin ::
        (onTx tx (program.plain db tx s).2.2 ++ [closing tx (program.plain db tx s).1]) ∧
      ∀ value, (db.withTx .root (program.run db) w).1 = .returned (.ok value) →
        (program.plain db tx s).1 = .returned (.ok value) ∧
        (db.commit tx (program.plain db tx s).2.1).1 = .returned (.ok ())) ∧
    ((∀ tx, (db.begin w.state).1 ≠ .returned (.ok tx)) →
      (db.withTx .root (program.run db) w).2.trace = w.trace ++ [.begin] ∧
      ∀ value, (db.withTx .root (program.run db) w).1 ≠ .returned (.ok value)) := by
  simp only [Database.withTx, TxContext.root, call, run_in_transaction]
  constructor
  · intro tx s begun
    rw [begun]
    simp only
    rcases program.plain db tx s with ⟨result | _, s', sqls⟩
    · refine ⟨trivial, ?_, fun value done => ?_⟩
      · simp [Database.dropGuard, finish_trace]
      · obtain ⟨rfl, committed⟩ := finish_ok done
        exact ⟨rfl, committed⟩
    · refine ⟨trivial, ?_, fun value done => by cases done⟩
      simp [Database.dropGuard, call, closing]
  · intro refused
    rcases begun : db.begin w.state with ⟨(_ | tx) | _, s⟩
    · exact ⟨rfl, fun value done => by cases done⟩
    · rw [begun] at refused
      exact absurd rfl (refused tx)
    · exact ⟨rfl, fun value done => by cases done⟩

def willing : Database Unit Nat Unit where
  begin s := (.returned (.ok 7), s)
  execute _ _ s := (.returned (.ok ()), s)
  commit _ s := (.returned (.ok ()), s)
  rollback _ s := (.returned (.ok ()), s)

-- The nested call fails, and its error is swallowed.
def outerProgram : Program Unit Nat :=
  .statement "a" fun _ =>
    .withTx (.statement "b" fun _ => .done (.error (.application "boom"))) fun _ => .done (.ok 1)

theorem swallowed_error_commits :
    (willing.withTx .root (outerProgram.run willing) ⟨(), []⟩).2.trace =
      [.begin, .execute (.tx 7) "a", .execute (.tx 7) "b", .commit 7] :=
  ((all_or_nothing willing outerProgram ⟨(), []⟩).1 7 () rfl).2.1

end Firefly.Transactional.WithTx
