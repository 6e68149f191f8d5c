import Firefly.Migrations.Runner
import Firefly.Shared.Tables

set_option autoImplicit false

namespace Firefly.Migrations

open StableSort Tables

structure Row where
  version : Int
  description : String
  filename : String
  checksum : String
  appliedAt : String
deriving DecidableEq, Repr

structure Content where
  effects : List String
  history : Option (List Row)
deriving DecidableEq, Repr

def Content.empty : Content := { effects := [], history := none }

def Content.create (c : Content) : Content := { c with history := some (c.history.getD []) }

def Content.exec (c : Content) (sql : String) : Content := { c with effects := c.effects ++ [sql] }

def Content.insert (c : Content) (rows : List Row) (row : Row) : Content :=
  { c with history := some (rows ++ [row]) }

/-- Transactions that are correct, whichever calls fail: `pending` is what the open transaction sees.
The body of a migration neither ends its transaction nor writes the history. -/
structure Transactional {σ : Type} (db : Database σ) (committed : σ → Content)
    (pending : σ → Option Content) : Prop where
  begin_ok : ∀ s s' u, db.begin s = (.ok u, s') →
    pending s = none ∧ committed s' = committed s ∧ pending s' = some (committed s)
  begin_error : ∀ s s' error, db.begin s = (.error error, s') →
    committed s' = committed s ∧ pending s' = pending s
  commit_ok : ∀ s s' u, db.commit s = (.ok u, s') → pending s = some (committed s') ∧ pending s' = none
  commit_error : ∀ s s' error, db.commit s = (.error error, s') →
    committed s' = committed s ∨ pending s = some (committed s')
  rollback_ok : ∀ s s' u, db.rollback s = (.ok u, s') → committed s' = committed s ∧ pending s' = none
  rollback_error : ∀ s s' error, db.rollback s = (.error error, s') → committed s' = committed s
  inside : ∀ s s' sql values result, pending s ≠ none → db.execute sql values s = (result, s') →
    committed s' = committed s
  body : ∀ s s' sql u c, pending s = some c → db.execute sql [] s = (.ok u, s') →
    pending s' = some (c.exec sql)
  insert : ∀ s s' version description filename checksum appliedAt u c, pending s = some c →
    db.execute insertHistory
      [.int version, .text description, .text filename, .text checksum, .text appliedAt] s = (.ok u, s') →
    ∃ rows, c.history = some rows ∧ version ∉ rows.map (·.version) ∧
      pending s' = some (c.insert rows { version, description, filename, checksum, appliedAt })
  create_ok : ∀ s s' u, pending s = none → db.execute ddlCreate [] s = (.ok u, s') →
    pending s' = none ∧ committed s' = (committed s).create
  create_error : ∀ s s' error, pending s = none → db.execute ddlCreate [] s = (.error error, s') →
    pending s' = none ∧ committed s' = committed s
  query : ∀ s s' sql result, db.query sql s = (result, s') →
    committed s' = committed s ∧ pending s' = pending s
  select : ∀ s s' rows, db.query selectApplied s = (.ok rows, s') →
    ∃ history listed : List Row, ((pending s).getD (committed s)).history = some history ∧ listed.Perm history ∧
      rows = listed.map fun row => [.int row.version, .text row.checksum]

def Row.of (m : Migration) (row : Row) : Prop :=
  row.version = m.version ∧ row.description = m.description ∧ row.filename = m.filename ∧
    row.checksum = m.checksum

structure Applied (c : Content) (migs : List Migration) : Prop where
  effects : c.effects = migs.map (·.sql)
  history : List.Forall₂ Row.of migs (c.history.getD [])
  distinct : (migs.map (·.version)).Nodup

def Recorded (c : Content) (m : Migration) : Prop :=
  ∃ rows, c.history = some rows ∧ ∃ row ∈ rows, row.version = m.version ∧ row.checksum = m.checksum

def Edited (c : Content) (m : Migration) : Prop :=
  ∃ rows, c.history = some rows ∧ ∃ row ∈ rows, row.version = m.version ∧ row.checksum ≠ m.checksum

variable {σ α : Type} {db : Database σ} {committed : σ → Content} {pending : σ → Option Content}
  {appliedAt : Migration → String}

inductive Reached (db : Database σ) (committed : σ → Content) (appliedAt : Migration → String) :
    World σ → Prop where
  | fresh (w : World σ) (empty : committed w.state = .empty) : Reached db committed appliedAt w
  | ran (src : Source) (w : World σ) (before : Reached db committed appliedAt w) :
    Reached db committed appliedAt (run db appliedAt src w).2
  | reconnected (w w' : World σ) (before : Reached db committed appliedAt w)
    (same : committed w'.state = committed w.state) : Reached db committed appliedAt w'

theorem call_cases (name : Call) (op : σ → Except DatabaseError α × σ) (w : World σ) :
    (∃ value state, op w.state = (.ok value, state) ∧ call name op w = (.ok value, { w with state })) ∨
      ∃ error state, op w.state = (.error error, state) ∧
        call name op w = (.error error, { state, failed := w.failed ++ [name] }) := by
  rcases answered : op w.state with ⟨error | value, state⟩
  · exact .inr ⟨error, state, rfl, by simp [call, answered]⟩
  · exact .inl ⟨value, state, rfl, by simp [call, answered]⟩

variable {w w' : World σ} {migs fresh : List Migration} {m : Migration} {c : Content}

theorem Applied.create (applied : Applied c migs) : Applied c.create migs :=
  ⟨applied.effects, applied.history, applied.distinct⟩

theorem versions_of {rows : List Row} (history : List.Forall₂ Row.of migs rows) :
    rows.map (·.version) = migs.map (·.version) := by
  induction history with
  | nil => rfl
  | cons of _ ih => rw [List.map_cons, List.map_cons, ih, of.1]

theorem Applied.snoc (applied : Applied c migs) {rows : List Row} (there : c.history = some rows)
    {row : Row} (of : Row.of m row) (unknown : m.version ∉ rows.map (·.version)) :
    Applied ((c.exec m.sql).insert rows row) (migs ++ [m]) := by
  have history : List.Forall₂ Row.of migs rows := by simpa [there] using applied.history
  rw [versions_of history] at unknown
  constructor
  · simp [Content.insert, Content.exec, applied.effects]
  · exact List.rel_append history (.cons of .nil)
  · rw [List.map_append, List.nodup_append']
    exact ⟨applied.distinct, List.nodup_singleton _, by simpa using unknown⟩

structure Attempt (committed : σ → Content) (pending : σ → Option Content) (known : List Migration)
    (w : World σ) (fresh : List Migration) (w' : World σ) : Prop where
  applied : Applied (committed w'.state) (known ++ fresh)
  unchanged : fresh = [] → committed w'.state = committed w.state
  table : (committed w.state).history ≠ none → (committed w'.state).history ≠ none
  failed : ∃ more, w'.failed = w.failed ++ more ∧
    (pending w.state = none → .commit ∉ more → .rollback ∉ more → pending w'.state = none)

theorem rollback_leaves (lawful : Transactional db committed pending) (w : World σ) :
    committed (call .rollback db.rollback w).2.state = committed w.state ∧
      ∃ more, (call .rollback db.rollback w).2.failed = w.failed ++ more ∧
        (.rollback ∉ more → pending (call .rollback db.rollback w).2.state = none) := by
  rcases call_cases .rollback db.rollback w with ⟨u, state, answer, called⟩ | ⟨error, state, answer, called⟩
  · obtain ⟨kept, closed⟩ := lawful.rollback_ok _ _ _ answer
    rw [called]
    exact ⟨kept, [], (List.append_nil _).symm, fun _ => closed⟩
  · rw [called]
    exact ⟨lawful.rollback_error _ _ _ answer, [.rollback], rfl,
      fun absent => absurd (List.mem_singleton_self _) absent⟩

theorem Attempt.refused {known : List Migration} (applied : Applied (committed w.state) known)
    (same : committed w'.state = committed w.state)
    (failed : ∃ more, w'.failed = w.failed ++ more ∧
      (pending w.state = none → .commit ∉ more → .rollback ∉ more → pending w'.state = none)) :
    Attempt committed pending known w [] w' where
  applied := by rwa [List.append_nil, same]
  unchanged := fun _ => same
  table := by rw [same]; exact id
  failed := failed

theorem Attempt.rolledBack (lawful : Transactional db committed pending) {known : List Migration}
    (applied : Applied (committed w.state) known) (name : Call)
    (same : committed w'.state = committed w.state) (failed : w'.failed = w.failed ++ [name]) :
    Attempt committed pending known w [] (call .rollback db.rollback w').2 ∧
      (call .rollback db.rollback w').2.failed ≠ w.failed := by
  obtain ⟨kept, more, logged, closed⟩ := rollback_leaves lawful w'
  rw [failed, List.append_assoc] at logged
  refine ⟨.refused applied (kept.trans same) ⟨_, logged, fun _ _ absent => closed ?_⟩, ?_⟩
  · exact fun among => absent (List.mem_append_right _ among)
  · rw [logged]
    simp

def Row.record (appliedAt : Migration → String) (m : Migration) : Row :=
  { version := m.version, description := m.description, filename := m.filename
    checksum := m.checksum, appliedAt := appliedAt m }

theorem execAndRecord_cases (lawful : Transactional db committed pending)
    (seen : pending w.state = some c) {result : Except DatabaseError Unit}
    (ran : execAndRecord db appliedAt m w = (result, w')) :
    committed w'.state = committed w.state ∧
      ((∃ u, result = .ok u ∧ w'.failed = w.failed ∧ ∃ rows, c.history = some rows ∧
          m.version ∉ rows.map (·.version) ∧
          pending w'.state = some ((c.exec m.sql).insert rows (.record appliedAt m))) ∨
        ∃ error name, result = .error error ∧ w'.failed = w.failed ++ [name]) := by
  have open_ : pending w.state ≠ none := by simp [seen]
  unfold execAndRecord at ran
  rcases call_cases .execute (db.execute m.sql []) w with
    ⟨u, state, executed, called⟩ | ⟨error, state, executed, called⟩
  · have same := lawful.inside _ _ _ _ _ open_ executed
    have seen := lawful.body _ _ _ _ _ seen executed
    have open_ : pending state ≠ none := by simp [seen]
    simp only [called] at ran
    rcases call_cases .insert (db.execute insertHistory (historyValues appliedAt m))
        { w with state } with ⟨u, last, inserted, called⟩ | ⟨error, last, inserted, called⟩
    · obtain ⟨rfl, rfl⟩ := Prod.mk.inj (called.symm.trans ran)
      obtain ⟨rows, there, unknown, seen⟩ := lawful.insert _ _ _ _ _ _ _ _ _ seen inserted
      exact ⟨(lawful.inside _ _ _ _ _ open_ inserted).trans same,
        .inl ⟨u, rfl, rfl, rows, there, unknown, seen⟩⟩
    · obtain ⟨rfl, rfl⟩ := Prod.mk.inj (called.symm.trans ran)
      exact ⟨(lawful.inside _ _ _ _ _ open_ inserted).trans same, .inr ⟨error, _, rfl, rfl⟩⟩
  · simp only [called] at ran
    obtain ⟨rfl, rfl⟩ := Prod.mk.inj ran
    exact ⟨lawful.inside _ _ _ _ _ open_ executed, .inr ⟨error, _, rfl, rfl⟩⟩

theorem Attempt.kept {known : List Migration} (added : Applied (committed w'.state) (known ++ [m]))
    {rows : List Row} {row : Row} (now : committed w'.state = c.insert rows row)
    (failed : ∃ more, w'.failed = w.failed ++ more ∧
      (pending w.state = none → .commit ∉ more → .rollback ∉ more → pending w'.state = none)) :
    Attempt committed pending known w [m] w' where
  applied := added
  unchanged := fun empty => (nomatch empty)
  table := fun _ => by simp [now, Content.insert]
  failed := failed

theorem applyOne_attempt (lawful : Transactional db committed pending) {known : List Migration}
    (applied : Applied (committed w.state) known) {result : Except DatabaseError Unit}
    (ran : applyOne db appliedAt m w = (result, w')) :
    ∃ fresh, Attempt committed pending known w fresh w' ∧ fresh.Sublist [m] ∧
      (∀ u, result = .ok u → fresh = [m] ∧ w'.failed = w.failed) ∧
      (∀ error, result = .error error → w'.failed ≠ w.failed) ∧ (pending w.state ≠ none → fresh = []) := by
  rcases call_cases .begin db.begin w with ⟨u, state, began, called⟩ | ⟨error, state, began, called⟩
  · obtain ⟨idle, same, seen⟩ := lawful.begin_ok _ _ _ began
    simp only [applyOne, called] at ran
    rcases recorded : execAndRecord db appliedAt m { w with state } with ⟨answer, inner⟩
    obtain ⟨kept, ⟨u, rfl, logged, rows, there, unknown, seen⟩ | ⟨error, name, rfl, logged⟩⟩ :=
      execAndRecord_cases lawful seen recorded
    · have same := kept.trans same
      have of : Row.of m (.record appliedAt m) := ⟨rfl, rfl, rfl, rfl⟩
      have added := applied.snoc there of unknown
      simp only [recorded] at ran
      rcases call_cases .commit db.commit inner with
        ⟨u, last, ended, called⟩ | ⟨error, last, ended, called⟩
      · obtain ⟨rfl, rfl⟩ := Prod.mk.inj (called.symm.trans ran)
        obtain ⟨now, closed⟩ := lawful.commit_ok _ _ _ ended
        have now := Option.some.inj (now.symm.trans seen)
        exact ⟨[m], .kept (now ▸ added) now ⟨[], by simpa using logged, fun _ _ _ => closed⟩,
          List.Sublist.refl _, fun _ _ => ⟨rfl, logged⟩, fun _ failed => (nomatch failed),
          fun open_ => absurd idle open_⟩
      · obtain ⟨rfl, rfl⟩ := Prod.mk.inj (called.symm.trans ran)
        have failed : ∃ more, inner.failed ++ [.commit] = w.failed ++ more ∧ (pending w.state = none →
            .commit ∉ more → .rollback ∉ more → pending last = none) :=
          ⟨[.commit], by rw [logged], fun _ absent => absurd (List.mem_singleton_self _) absent⟩
        have told : inner.failed ++ [.commit] ≠ w.failed := by simp [logged]
        rcases lawful.commit_error _ _ _ ended with before | now
        · exact ⟨[], .refused applied (before.trans same) failed, List.nil_sublist _,
            fun _ ok => (nomatch ok), fun _ _ => told, fun _ => rfl⟩
        · have now := Option.some.inj (now.symm.trans seen)
          exact ⟨[m], .kept (now ▸ added) now failed, List.Sublist.refl _, fun _ ok => (nomatch ok),
            fun _ _ => told, fun open_ => absurd idle open_⟩
    · simp only [recorded] at ran
      obtain ⟨rfl, rfl⟩ := Prod.mk.inj ran
      obtain ⟨attempt, told⟩ := Attempt.rolledBack lawful applied name (kept.trans same) logged
      exact ⟨[], attempt, List.nil_sublist _, fun _ ok => (nomatch ok), fun _ _ => told, fun _ => rfl⟩
  · obtain ⟨same, kept⟩ := lawful.begin_error _ _ _ began
    simp only [applyOne, called] at ran
    obtain ⟨rfl, rfl⟩ := Prod.mk.inj ran
    exact ⟨[], .refused applied same ⟨[.begin], rfl, fun closed _ _ => kept.trans closed⟩,
      List.nil_sublist _, fun _ ok => (nomatch ok), fun _ _ => by simp, fun _ => rfl⟩

theorem Attempt.idle {known : List Migration} (attempt : Attempt committed pending known w fresh w')
    (quiet : w'.failed = w.failed) (idle : pending w.state = none) : pending w'.state = none := by
  obtain ⟨more, logged, closed⟩ := attempt.failed
  have none : more = [] := by simpa [quiet] using logged
  subst none
  exact closed idle List.not_mem_nil List.not_mem_nil

theorem Attempt.trans {known first second : List Migration} {w'' : World σ}
    (one : Attempt committed pending known w first w') (quiet : w'.failed = w.failed)
    (other : Attempt committed pending (known ++ first) w' second w'') :
    Attempt committed pending known w (first ++ second) w'' where
  applied := by simpa [List.append_assoc] using other.applied
  unchanged := by
    intro none
    obtain ⟨none, none'⟩ := List.append_eq_nil_iff.mp none
    exact (other.unchanged none').trans (one.unchanged none)
  table := fun there => other.table (one.table there)
  failed := by
    obtain ⟨more, logged, ends⟩ := other.failed
    exact ⟨more, by rw [logged, quiet], fun idle => ends (one.idle quiet idle)⟩

theorem Attempt.refl {known : List Migration} (applied : Applied (committed w.state) known) :
    Attempt committed pending known w [] w :=
  .refused applied rfl ⟨[], (List.append_nil _).symm, fun idle _ _ => idle⟩

-- `applied` is what the history said when it was read, and `known` has it as well.
theorem applyPending_attempt (lawful : Transactional db committed pending) {applied : Int → Option String}
    {known : List Migration} (holds : Applied (committed w.state) known)
    {result : Except MigrationError Unit}
    (ran : applyPending db appliedAt applied migs w = (result, w')) :
    ∃ fresh, Attempt committed pending known w fresh w' ∧ fresh.Sublist migs ∧
      (pending w.state ≠ none → fresh = []) ∧
      (∀ before m after checksum, migs = before ++ m :: after → applied m.version = some checksum →
        checksum ≠ m.checksum → fresh.Sublist before) ∧
      (∀ u, result = .ok u → w'.failed = w.failed ∧ ∀ m ∈ migs,
        applied m.version = some m.checksum ∨ m ∈ fresh) ∧
      ∀ error, result = .error error → w'.failed ≠ w.failed ∨
        ∃ m ∈ migs, ∃ checksum, applied m.version = some checksum ∧ checksum ≠ m.checksum := by
  induction migs generalizing w known with
  | nil =>
    obtain ⟨rfl, rfl⟩ := Prod.mk.inj ran
    exact ⟨[], .refl holds, List.nil_sublist _, fun _ => rfl, by simp, by simp, by simp⟩
  | cons m migs ih =>
    unfold applyPending at ran
    cases looked : applied m.version with
    | some recorded =>
      by_cases same : recorded = m.checksum
      · subst same
        simp only [looked, ne_eq, not_true, if_false] at ran
        obtain ⟨fresh, attempt, among, idle, upTo, ended, failed⟩ := ih holds ran
        refine ⟨fresh, attempt, among.cons m, idle, ?_, ?_, ?_⟩
        · rintro (_ | ⟨first, before⟩) other after checksum split found differs
          · obtain ⟨rfl, rfl⟩ := List.cons.inj split
            exact absurd (Option.some.inj (found.symm.trans looked)) differs
          · obtain ⟨rfl, rfl⟩ := List.cons.inj split
            exact (upTo before other after checksum rfl found differs).cons m
        · intro u ok
          obtain ⟨quiet, all⟩ := ended u ok
          refine ⟨quiet, fun other there => ?_⟩
          rcases List.mem_cons.mp there with rfl | later
          · exact .inl looked
          · exact all other later
        · intro error erred
          refine (failed error erred).imp_right ?_
          rintro ⟨other, later, mismatch⟩
          exact ⟨other, List.mem_cons_of_mem _ later, mismatch⟩
      · simp only [looked, ne_eq, same, not_false_eq_true, if_true] at ran
        obtain ⟨rfl, rfl⟩ := Prod.mk.inj ran
        refine ⟨[], .refl holds, List.nil_sublist _, fun _ => rfl, ?_, fun _ ok => (nomatch ok), ?_⟩
        · exact fun _ _ _ _ _ _ _ => List.nil_sublist _
        · exact fun _ _ => .inr ⟨m, List.mem_cons_self, recorded, looked, same⟩
    | none =>
      rcases one : applyOne db appliedAt m w with ⟨answer, middle⟩
      obtain ⟨first, attempt, among, succeeded, told, idle⟩ := applyOne_attempt lawful holds one
      simp only [looked, one] at ran
      have beyond : ∀ before other after checksum, m :: migs = before ++ other :: after →
          applied other.version = some checksum →
          ∃ tail, before = m :: tail ∧ migs = tail ++ other :: after := by
        rintro (_ | ⟨head, tail⟩) other after checksum split found
        · obtain ⟨rfl, -⟩ := List.cons.inj split
          cases looked.symm.trans found
        · obtain ⟨rfl, rest⟩ := List.cons.inj split
          exact ⟨tail, rfl, rest⟩
      cases answer with
      | error error =>
        obtain ⟨rfl, rfl⟩ := Prod.mk.inj ran
        have within : ∀ tail, first.Sublist (m :: tail) := fun tail =>
          among.trans (List.singleton_sublist.mpr List.mem_cons_self)
        refine ⟨first, attempt, within migs, idle, ?_, fun _ ok => (nomatch ok), ?_⟩
        · intro before other after checksum split found _
          obtain ⟨tail, rfl, -⟩ := beyond before other after checksum split found
          exact within tail
        · exact fun _ _ => .inl (told error rfl)
      | ok u =>
        obtain ⟨rfl, quiet⟩ := succeeded u rfl
        obtain ⟨fresh, later, among, -, upTo, ended, failed⟩ := ih attempt.applied ran
        refine ⟨m :: fresh, attempt.trans quiet later, among.cons_cons m,
          fun open_ => absurd (idle open_) (by simp), ?_, ?_, ?_⟩
        · intro before other after checksum split found differs
          obtain ⟨tail, rfl, rest⟩ := beyond before other after checksum split found
          exact (upTo tail other after checksum rest found differs).cons_cons m
        · intro u ok
          obtain ⟨still, all⟩ := ended u ok
          refine ⟨still.trans quiet, fun other there => ?_⟩
          rcases List.mem_cons.mp there with rfl | later
          · exact .inr List.mem_cons_self
          · exact (all other later).imp_right (List.mem_cons_of_mem _)
        · intro error erred
          rcases failed error erred with told | ⟨other, later, mismatch⟩
          · exact .inl (quiet ▸ told)
          · exact .inr ⟨other, List.mem_cons_of_mem _ later, mismatch⟩

def Row.values (row : Row) : List SqlValue := [.int row.version, .text row.checksum]

structure Reads (rows : List Row) (applied : Int → Option String) : Prop where
  there : ∀ version checksum, applied version = some checksum →
    ∃ row ∈ rows, row.version = version ∧ row.checksum = checksum
  all : (rows.map (·.version)).Nodup → ∀ row ∈ rows, applied row.version = some row.checksum

theorem readRows_values (out : Int → Option String) (rows : List Row) :
    ∃ applied, readRows out (rows.map Row.values) = .ok applied ∧
      (∀ version checksum, applied version = some checksum → out version = some checksum ∨
        ∃ row ∈ rows, row.version = version ∧ row.checksum = checksum) ∧
      (∀ version, version ∉ rows.map (·.version) → applied version = out version) ∧
      ((rows.map (·.version)).Nodup → ∀ row ∈ rows, applied row.version = some row.checksum) := by
  induction rows generalizing out with
  | nil => exact ⟨out, rfl, fun _ _ => .inl, fun _ _ => rfl, by simp⟩
  | cons row rows ih =>
    obtain ⟨applied, read, there, kept, all⟩ := ih (Function.update out row.version (some row.checksum))
    refine ⟨applied, read, ?_, ?_, ?_⟩
    · intro version checksum found
      rcases there version checksum found with before | ⟨other, among, same⟩
      · rcases update_eq_some.mp before with ⟨rfl, rfl⟩ | ⟨-, before⟩
        · exact .inr ⟨row, List.mem_cons_self, rfl, rfl⟩
        · exact .inl before
      · exact .inr ⟨other, List.mem_cons_of_mem _ among, same⟩
    · intro version absent
      simp only [List.map_cons, List.mem_cons, not_or] at absent
      rw [kept version absent.2, Function.update_of_ne absent.1]
    · intro distinct other among
      simp only [List.map_cons, List.nodup_cons] at distinct
      rcases List.mem_cons.mp among with rfl | later
      · rw [kept _ distinct.1, Function.update_self]
      · exact all distinct.2 other later

theorem loadApplied_cases (lawful : Transactional db committed pending)
    {result : Except DatabaseError (Int → Option String)} (ran : loadApplied db w = (result, w')) :
    committed w'.state = committed w.state ∧ pending w'.state = pending w.state ∧
      ((∃ applied rows, result = .ok applied ∧ w'.failed = w.failed ∧
          ((pending w.state).getD (committed w.state)).history = some rows ∧ Reads rows applied) ∨
        ∃ error, result = .error error ∧ w'.failed = w.failed ++ [.select]) := by
  unfold loadApplied at ran
  rcases call_cases .select (db.query selectApplied) w with
    ⟨rows, state, answer, called⟩ | ⟨error, state, answer, called⟩
  · obtain ⟨same, still⟩ := lawful.query _ _ _ _ answer
    obtain ⟨history, listed, seen, order, rfl⟩ := lawful.select _ _ _ answer
    obtain ⟨applied, read, there, -, all⟩ := readRows_values (fun _ => none) listed
    simp only [called] at ran
    obtain ⟨rfl, rfl⟩ := Prod.mk.inj ran
    refine ⟨same, still, .inl ⟨applied, history, read, rfl, seen, ?_, ?_⟩⟩
    · intro version checksum found
      obtain ⟨row, among, values⟩ := (there version checksum found).resolve_left nofun
      exact ⟨row, order.subset among, values⟩
    · intro distinct row among
      exact all ((order.map _).nodup_iff.mpr distinct) row (order.symm.subset among)
  · obtain ⟨same, still⟩ := lawful.query _ _ _ _ answer
    simp only [called] at ran
    obtain ⟨rfl, rfl⟩ := Prod.mk.inj ran
    exact ⟨same, still, .inr ⟨error, rfl, rfl⟩⟩

theorem rows_of {rows : List Row} (history : List.Forall₂ Row.of migs rows) (P : Int → String → Prop) :
    (∃ row ∈ rows, P row.version row.checksum) ↔ ∃ a ∈ migs, P a.version a.checksum := by
  induction history with
  | nil => simp
  | cons of _ ih =>
    obtain ⟨version, -, -, checksum⟩ := of
    simp only [List.mem_cons, exists_eq_or_imp, version, checksum, ih]

theorem Applied.recorded (holds : Applied c migs) (recorded : Recorded c m) :
    ∃ a ∈ migs, a.version = m.version ∧ a.checksum = m.checksum := by
  obtain ⟨rows, there, row⟩ := recorded
  have history : List.Forall₂ Row.of migs rows := by simpa [there] using holds.history
  exact (rows_of history fun version checksum => version = m.version ∧ checksum = m.checksum).mp row

theorem Applied.edited (holds : Applied c migs) (edited : Edited c m) :
    ∃ a ∈ migs, a.version = m.version ∧ a.checksum ≠ m.checksum := by
  obtain ⟨rows, there, row⟩ := edited
  have history : List.Forall₂ Row.of migs rows := by simpa [there] using holds.history
  exact (rows_of history fun version checksum => version = m.version ∧ checksum ≠ m.checksum).mp row

theorem Applied.record (holds : Applied c migs) (there : c.history ≠ none) {a : Migration}
    (among : a ∈ migs) (version : a.version = m.version) (checksum : a.checksum = m.checksum) :
    Recorded c m := by
  obtain ⟨rows, there⟩ := Option.ne_none_iff_exists'.mp there
  have history : List.Forall₂ Row.of migs rows := by simpa [there] using holds.history
  exact ⟨rows, there, (rows_of history fun version checksum =>
    version = m.version ∧ checksum = m.checksum).mpr ⟨a, among, version, checksum⟩⟩

theorem Applied.not_edited {c' : Content} (before : Applied c migs) (after : Applied c' (migs ++ fresh))
    (recorded : Recorded c' m) : ¬ Edited c m := by
  intro edited
  obtain ⟨a, among, version, checksum⟩ := after.recorded recorded
  obtain ⟨b, known, version', differs⟩ := before.edited edited
  have same : a = b := List.inj_on_of_nodup_map after.distinct among (List.mem_append_left _ known)
    (version.trans version'.symm)
  exact differs (same ▸ checksum)

structure Ran (committed : σ → Content) (pending : σ → Option Content) (src : Source)
    (known : List Migration) (w : World σ) (result : Except MigrationError Unit)
    (fresh : List Migration) (w' : World σ) : Prop where
  applied : Applied (committed w'.state) (known ++ fresh)
  unchanged : fresh = [] → (committed w.state).history ≠ none → committed w'.state = committed w.state
  failed : ∃ more, w'.failed = w.failed ++ more ∧
    (.commit ∉ more → .rollback ∉ more → pending w'.state = none)
  listed : fresh ≠ [] → ∃ migs, src.list = .ok migs ∧ fresh.Sublist migs
  upTo : ∀ before m after, src.list = .ok (before ++ m :: after) → Edited (committed w.state) m →
    fresh.Sublist before
  ok : ∀ u, result = .ok u → w'.failed = w.failed ∧ (committed w'.state).history ≠ none ∧
    ∃ migs, src.list = .ok migs ∧ ∀ m ∈ migs, Recorded (committed w'.state) m
  error : ∀ error, result = .error error → w'.failed ≠ w.failed ∨ (∀ migs, src.list ≠ .ok migs) ∨
    ∃ migs, src.list = .ok migs ∧ ∃ m ∈ migs, Edited (committed w.state) m

theorem Content.create_of_table (there : c.history ≠ none) : c.create = c := by
  obtain ⟨rows, there⟩ := Option.ne_none_iff_exists'.mp there
  cases c
  simp_all [Content.create]

theorem edited_create : Edited c.create m ↔ Edited c m := by
  cases there : c.history <;> simp [Edited, Content.create, there]

theorem Ran.ended {src : Source} {known : List Migration} (holds : Applied (committed w.state) known)
    (same : committed w'.state = committed w.state ∨ committed w'.state = (committed w.state).create)
    (closed : pending w'.state = none) {error : MigrationError}
    (failed : (∃ name, w'.failed = w.failed ++ [name]) ∨ w'.failed = w.failed ∧ ∀ migs, src.list ≠ .ok migs) :
    Ran committed pending src known w (.error error) [] w' where
  applied := by
    rw [List.append_nil]
    rcases same with same | same <;> rw [same]
    · exact holds
    · exact holds.create
  unchanged := by
    intro _ there
    rcases same with same | same
    · exact same
    · exact same.trans (Content.create_of_table there)
  failed := by
    rcases failed with ⟨name, told⟩ | ⟨quiet, -⟩
    · exact ⟨_, told, fun _ _ => closed⟩
    · exact ⟨[], by simpa using quiet, fun _ _ => closed⟩
  listed := fun absent => absurd rfl absent
  upTo := fun _ _ _ _ _ => List.nil_sublist _
  ok := fun _ ok => (nomatch ok)
  error := by
    rintro _ -
    rcases failed with ⟨name, told⟩ | ⟨-, none⟩
    · exact .inl (by simp [told])
    · exact .inr (.inl none)

theorem run_ran_pending (lawful : Transactional db committed pending) {known : List Migration}
    (holds : Applied (committed w.state) known) {middle : World σ}
    (same : committed middle.state = (committed w.state).create) (idle : pending middle.state = none)
    (quiet : middle.failed = w.failed) {rows : List Row}
    (table : (committed w.state).create.history = some rows) {applied : Int → Option String}
    (reads : Reads rows applied) {src : Source} (list : src.list = .ok migs)
    {result : Except MigrationError Unit}
    (ran : applyPending db appliedAt applied migs middle = (result, w')) :
    ∃ fresh, Ran committed pending src known w result fresh w' := by
  have holds' : Applied (committed middle.state) known := same ▸ holds.create
  have history : List.Forall₂ Row.of known rows := by simpa [table] using holds.create.history
  have distinct : (rows.map (·.version)).Nodup := by
    rw [versions_of history]
    exact holds.distinct
  obtain ⟨fresh, attempt, among, -, upTo, ended, failed⟩ := applyPending_attempt lawful holds' ran
  refine ⟨fresh, attempt.applied, ?_, ?_, ?_, ?_, ?_, ?_⟩
  · intro none there
    rw [attempt.unchanged none, same, Content.create_of_table there]
  · obtain ⟨more, told, closed⟩ := attempt.failed
    exact ⟨more, by rw [told, quiet], closed idle⟩
  · exact fun _ => ⟨migs, list, among⟩
  · intro before m after split edited
    obtain ⟨rows', there, row, seen, version, differs⟩ := edited_create.mpr edited
    obtain rfl := Option.some.inj (there.symm.trans table)
    exact upTo before m after row.checksum (Except.ok.inj (list.symm.trans split))
      (version ▸ reads.all distinct row seen) differs
  · intro u ok
    obtain ⟨still, all⟩ := ended u ok
    have there : (committed w'.state).history ≠ none := attempt.table (by simp [same, table])
    refine ⟨still.trans quiet, there, migs, list, fun m listed => ?_⟩
    rcases all m listed with found | added
    · obtain ⟨row, seen, version, checksum⟩ := reads.there _ _ found
      obtain ⟨a, old, version, checksum⟩ := (rows_of history fun version checksum =>
        version = m.version ∧ checksum = m.checksum).mp ⟨row, seen, version, checksum⟩
      exact attempt.applied.record there (List.mem_append_left _ old) version checksum
    · exact attempt.applied.record there (List.mem_append_right _ added) rfl rfl
  · intro error erred
    rcases failed error erred with told | ⟨m, listed, checksum, found, differs⟩
    · exact .inl (quiet ▸ told)
    · obtain ⟨row, seen, version, rfl⟩ := reads.there _ _ found
      exact .inr (.inr ⟨migs, list, m, listed, edited_create.mp ⟨rows, table, row, seen, version, differs⟩⟩)

theorem run_ran (lawful : Transactional db committed pending) {known : List Migration}
    (holds : Applied (committed w.state) known) (idle : pending w.state = none) {src : Source}
    {result : Except MigrationError Unit} (ran : run db appliedAt src w = (result, w')) :
    ∃ fresh, Ran committed pending src known w result fresh w' := by
  unfold run at ran
  rcases call_cases .createTable (db.execute ddlCreate []) w with
    ⟨u, state, created, called⟩ | ⟨error, state, created, called⟩
  · obtain ⟨closed, same⟩ := lawful.create_ok _ _ _ idle created
    simp only [called] at ran
    cases list : src.list with
    | error error =>
      simp only [list] at ran
      obtain ⟨rfl, rfl⟩ := Prod.mk.inj ran
      exact ⟨[], .ended holds (.inr same) closed (.inr ⟨rfl, by simp [list]⟩)⟩
    | ok migs =>
      simp only [list] at ran
      rcases loaded : loadApplied db { w with state } with ⟨answer, middle⟩
      obtain ⟨kept, still, ⟨applied, rows, rfl, quiet, seen, reads⟩ | ⟨error, rfl, told⟩⟩ :=
        loadApplied_cases lawful loaded
      · simp only [loaded] at ran
        exact run_ran_pending lawful holds (kept.trans same) (still.trans closed) quiet
          (by simpa [closed, same] using seen) reads list ran
      · simp only [loaded] at ran
        obtain ⟨rfl, rfl⟩ := Prod.mk.inj ran
        exact ⟨[], .ended holds (.inr (kept.trans same)) (still.trans closed) (.inl ⟨_, told⟩)⟩
  · obtain ⟨closed, same⟩ := lawful.create_error _ _ _ idle created
    simp only [called] at ran
    obtain ⟨rfl, rfl⟩ := Prod.mk.inj ran
    exact ⟨[], .ended holds (.inl same) closed (.inl ⟨_, rfl⟩)⟩

theorem run_open (lawful : Transactional db committed pending) {known : List Migration}
    (holds : Applied (committed w.state) known) (open_ : pending w.state ≠ none) {src : Source}
    {result : Except MigrationError Unit} (ran : run db appliedAt src w = (result, w')) :
    committed w'.state = committed w.state := by
  unfold run at ran
  rcases call_cases .createTable (db.execute ddlCreate []) w with
    ⟨u, state, created, called⟩ | ⟨error, state, created, called⟩
  · have same := lawful.inside _ _ _ _ _ open_ created
    obtain ⟨content, seen⟩ := Option.ne_none_iff_exists'.mp open_
    have still : pending state ≠ none := by simp [lawful.body _ _ _ _ _ seen created]
    simp only [called] at ran
    cases list : src.list with
    | error error =>
      simp only [list] at ran
      obtain ⟨rfl, rfl⟩ := Prod.mk.inj ran
      exact same
    | ok migs =>
      simp only [list] at ran
      rcases loaded : loadApplied db { w with state } with ⟨answer, middle⟩
      obtain ⟨kept, held, -⟩ := loadApplied_cases lawful loaded
      have same := kept.trans same
      cases answer with
      | error error =>
        simp only [loaded] at ran
        obtain ⟨rfl, rfl⟩ := Prod.mk.inj ran
        exact same
      | ok applied =>
        simp only [loaded] at ran
        have holds' : Applied (committed middle.state) known := same ▸ holds
        obtain ⟨fresh, attempt, -, refused, -⟩ := applyPending_attempt lawful holds' ran
        exact (attempt.unchanged (refused (held ▸ still))).trans same
  · simp only [called] at ran
    obtain ⟨rfl, rfl⟩ := Prod.mk.inj ran
    exact lawful.inside _ _ _ _ _ open_ created

theorem Reached.applied (lawful : Transactional db committed pending)
    (reached : Reached db committed appliedAt w) : ∃ known, Applied (committed w.state) known := by
  induction reached with
  | fresh w empty => exact ⟨[], by simp [empty, Content.empty], by simp [empty, Content.empty], by simp⟩
  | ran src w _ ih =>
    obtain ⟨known, holds⟩ := ih
    by_cases idle : pending w.state = none
    · obtain ⟨fresh, ran⟩ := run_ran lawful holds idle (rfl : run db appliedAt src w = _)
      exact ⟨_, ran.applied⟩
    · exact ⟨known, (run_open lawful holds idle (rfl : run db appliedAt src w = _)).symm ▸ holds⟩
  | reconnected w w' _ same ih => exact same ▸ ih

def RecordsItsEffects (committed : σ → Content) (src : Source) (w w' : World σ) : Prop :=
  ∃ known fresh, Applied (committed w.state) known ∧ Applied (committed w'.state) (known ++ fresh) ∧
    fresh.Pairwise (·.version < ·.version) ∧
    (fresh ≠ [] → ∃ migs, src.list = .ok migs ∧ fresh.Sublist migs) ∧
    ∀ before m after, src.list = .ok (before ++ m :: after) → Edited (committed w.state) m →
      fresh.Sublist before

theorem recordsItsEffects (lawful : Transactional db committed pending) {src : Source}
    {result : Except MigrationError Unit} (reached : Reached db committed appliedAt w)
    (ran : run db appliedAt src w = (result, w')) : RecordsItsEffects committed src w w' := by
  obtain ⟨known, holds⟩ := reached.applied lawful
  by_cases idle : pending w.state = none
  · obtain ⟨fresh, ends⟩ := run_ran lawful holds idle ran
    refine ⟨known, fresh, holds, ends.applied, ?_, ends.listed, ends.upTo⟩
    by_cases none : fresh = []
    · simp [none]
    · obtain ⟨migs, list, among⟩ := ends.listed none
      have ordered := (src.ordered migs list).sublist among
      have distinct := ends.applied.distinct
      rw [List.map_append, List.nodup_append'] at distinct
      exact (ordered.and (List.pairwise_map.mp distinct.2.1)).imp fun both => lt_of_le_of_ne both.1 both.2
  · have same := run_open lawful holds idle ran
    exact ⟨known, [], holds, by rwa [List.append_nil, same], .nil, fun absent => absurd rfl absent,
      fun _ _ _ _ _ => List.nil_sublist _⟩

theorem run_again (lawful : Transactional db committed pending) {known : List Migration}
    (holds : Applied (committed w.state) known) (idle : pending w.state = none)
    (table : (committed w.state).history ≠ none) {src : Source} {migs : List Migration}
    (list : src.list = .ok migs) (all : ∀ m ∈ migs, Recorded (committed w.state) m) :
    committed (run db appliedAt src w).2.state = committed w.state := by
  obtain ⟨fresh, ends⟩ := run_ran lawful holds idle (rfl : run db appliedAt src w = _)
  refine ends.unchanged (List.eq_nil_iff_forall_not_mem.mpr fun m among => ?_) table
  obtain ⟨migs', list', within⟩ := ends.listed (List.ne_nil_of_mem among)
  obtain rfl := Except.ok.inj (list.symm.trans list')
  obtain ⟨a, old, version, -⟩ := holds.recorded (all m (within.subset among))
  have distinct := ends.applied.distinct
  rw [List.map_append, List.nodup_append'] at distinct
  exact distinct.2.2 (List.mem_map_of_mem old) (version ▸ List.mem_map_of_mem among)

theorem migrations_recorded (db : Database σ) (committed : σ → Content) (pending : σ → Option Content)
    (lawful : Transactional db committed pending) (appliedAt : Migration → String) (src : Source)
    (w w' : World σ) (result : Except MigrationError Unit) (reached : Reached db committed appliedAt w)
    (ran : run db appliedAt src w = (result, w')) :
    RecordsItsEffects committed src w w' ∧
      (pending w.state = none → w.failed = [] →
        (.commit ∉ w'.failed → .rollback ∉ w'.failed → pending w'.state = none) ∧
        (result = .ok () ↔ w'.failed = [] ∧
          ∃ migs, src.list = .ok migs ∧ ∀ m ∈ migs, Recorded (committed w'.state) m) ∧
        (result = .ok () → committed (run db appliedAt src w').2.state = committed w'.state)) := by
  refine ⟨recordsItsEffects lawful reached ran, fun idle quiet => ?_⟩
  obtain ⟨known, holds⟩ := reached.applied lawful
  obtain ⟨fresh, ends⟩ := run_ran lawful holds idle ran
  have closed : .commit ∉ w'.failed → .rollback ∉ w'.failed → pending w'.state = none := by
    obtain ⟨more, told, closed⟩ := ends.failed
    rw [told, quiet, List.nil_append]
    exact closed
  refine ⟨closed, ⟨?_, ?_⟩, ?_⟩
  · intro ok
    obtain ⟨still, -, listed⟩ := ends.ok () ok
    exact ⟨still.trans quiet, listed⟩
  · rintro ⟨still, migs, list, all⟩
    cases result with
    | ok u => rfl
    | error error =>
      rcases ends.error error rfl with told | none | ⟨migs', list', m, among, edited⟩
      · exact absurd (still.trans quiet.symm) told
      · exact absurd list (none migs)
      · obtain rfl := Except.ok.inj (list.symm.trans list')
        exact absurd edited (holds.not_edited ends.applied (all m among))
  · intro ok
    obtain ⟨still, table, migs, list, all⟩ := ends.ok () ok
    have quiet : w'.failed = [] := still.trans quiet
    exact run_again lawful ends.applied (closed (by simp [quiet]) (by simp [quiet])) table list all

/-- The next calls fail where `script` says so. -/
structure Memory where
  committed : Content
  pending : Option Content
  script : List Bool
deriving DecidableEq

namespace Memory

def scripted {α : Type} (op : Memory → Except DatabaseError α × Memory) (s : Memory) :
    Except DatabaseError α × Memory :=
  match s.script with
  | true :: script => (.error "out of order", { s with script })
  | _ => op { s with script := s.script.tail }

def insert (c : Content) (sql : String) : List SqlValue → Except DatabaseError Content
  | [.int version, .text description, .text filename, .text checksum, .text appliedAt] =>
    match c.history with
    | none => .error "no such table"
    | some rows =>
      if sql = insertHistory ∧ version ∉ rows.map (·.version) then
        .ok (c.insert rows { version, description, filename, checksum, appliedAt })
      else .error "constraint failed"
  | _ => .error "unknown statement"

def execute (sql : String) (values : List SqlValue) (s : Memory) : Except DatabaseError Unit × Memory :=
  match s.pending with
  | none => (.ok (), { s with committed := s.committed.create })
  | some c =>
    if values = [] then (.ok (), { s with pending := some (c.exec sql) })
    else
      match insert c sql values with
      | .error error => (.error error, s)
      | .ok c => (.ok (), { s with pending := some c })

def query (_ : String) (s : Memory) : Except DatabaseError (List (List SqlValue)) × Memory :=
  match (s.pending.getD s.committed).history with
  | none => (.error "no such table", s)
  | some rows => (.ok (rows.map Row.values), s)

def beginTx (s : Memory) : Except DatabaseError Unit × Memory :=
  if s.pending = none then (.ok (), { s with pending := some s.committed }) else (.error "nested", s)

def commit (s : Memory) : Except DatabaseError Unit × Memory :=
  match s.pending with
  | none => (.error "no transaction", s)
  | some c => (.ok (), { s with committed := c, pending := none })

def rollback (s : Memory) : Except DatabaseError Unit × Memory := (.ok (), { s with pending := none })

def database : Database Memory where
  execute := fun sql values => scripted (execute sql values)
  query := fun sql => scripted (query sql)
  begin := scripted beginTx
  commit := scripted commit
  rollback := scripted rollback

theorem scripted_cases {α : Type} (op : Memory → Except DatabaseError α × Memory) {s s' : Memory}
    {result : Except DatabaseError α} (ran : scripted op s = (result, s')) :
    (∃ error script, result = .error error ∧ s' = { s with script }) ∨
      ∃ script, op { s with script } = (result, s') := by
  unfold scripted at ran
  split at ran
  · obtain ⟨rfl, rfl⟩ := Prod.mk.inj ran
    exact .inl ⟨_, _, rfl, rfl⟩
  · exact .inr ⟨_, ran⟩

theorem transactional : Transactional database Memory.committed Memory.pending where
  begin_ok := by
    intro s s' u ran
    rcases scripted_cases beginTx ran with ⟨_, _, failed, -⟩ | ⟨script, ran⟩
    · cases failed
    · unfold beginTx at ran
      split at ran
      next idle =>
        obtain ⟨-, rfl⟩ := Prod.mk.inj ran
        exact ⟨idle, rfl, rfl⟩
      · cases ran
  begin_error := by
    intro s s' error ran
    rcases scripted_cases beginTx ran with ⟨_, _, -, rfl⟩ | ⟨script, ran⟩
    · exact ⟨rfl, rfl⟩
    · unfold beginTx at ran
      split at ran
      · cases ran
      · obtain ⟨-, rfl⟩ := Prod.mk.inj ran
        exact ⟨rfl, rfl⟩
  commit_ok := by
    intro s s' u ran
    rcases scripted_cases commit ran with ⟨_, _, failed, -⟩ | ⟨script, ran⟩
    · cases failed
    · unfold commit at ran
      split at ran
      · cases ran
      next c open_ =>
        obtain ⟨-, rfl⟩ := Prod.mk.inj ran
        exact ⟨open_, rfl⟩
  commit_error := by
    intro s s' error ran
    rcases scripted_cases commit ran with ⟨_, _, -, rfl⟩ | ⟨script, ran⟩
    · exact .inl rfl
    · unfold commit at ran
      split at ran
      · obtain ⟨-, rfl⟩ := Prod.mk.inj ran
        exact .inl rfl
      · cases ran
  rollback_ok := by
    intro s s' u ran
    rcases scripted_cases rollback ran with ⟨_, _, failed, -⟩ | ⟨script, ran⟩
    · cases failed
    · obtain ⟨-, rfl⟩ := Prod.mk.inj ran
      exact ⟨rfl, rfl⟩
  rollback_error := by
    intro s s' error ran
    rcases scripted_cases rollback ran with ⟨_, _, -, rfl⟩ | ⟨script, ran⟩
    · rfl
    · cases ran
  inside := by
    intro s s' sql values result open_ ran
    rcases scripted_cases (execute sql values) ran with ⟨_, _, -, rfl⟩ | ⟨script, ran⟩
    · rfl
    · unfold execute at ran
      split at ran
      next idle => exact absurd idle open_
      · split at ran
        · obtain ⟨-, rfl⟩ := Prod.mk.inj ran
          rfl
        · split at ran <;> obtain ⟨-, rfl⟩ := Prod.mk.inj ran <;> rfl
  body := by
    intro s s' sql u c seen ran
    rcases scripted_cases (execute sql []) ran with ⟨_, _, failed, -⟩ | ⟨script, ran⟩
    · cases failed
    · simp only [execute, seen, if_true] at ran
      obtain ⟨-, rfl⟩ := Prod.mk.inj ran
      rfl
  insert := by
    intro s s' version description filename checksum appliedAt u c seen ran
    rcases scripted_cases (execute insertHistory _) ran with ⟨_, _, failed, -⟩ | ⟨script, ran⟩
    · cases failed
    · simp only [execute, seen, reduceCtorEq, if_false, insert, true_and] at ran
      cases there : c.history with
      | none => simp [there] at ran
      | some rows =>
        simp only [there] at ran
        by_cases known : version ∈ rows.map (·.version)
        · simp [known] at ran
        · simp only [known, not_false_eq_true, if_true] at ran
          obtain ⟨-, rfl⟩ := Prod.mk.inj ran
          exact ⟨rows, rfl, known, rfl⟩
  create_ok := by
    intro s s' u idle ran
    rcases scripted_cases (execute ddlCreate []) ran with ⟨_, _, failed, -⟩ | ⟨script, ran⟩
    · cases failed
    · simp only [execute, idle] at ran
      obtain ⟨-, rfl⟩ := Prod.mk.inj ran
      exact ⟨rfl, rfl⟩
  create_error := by
    intro s s' error idle ran
    rcases scripted_cases (execute ddlCreate []) ran with ⟨_, _, -, rfl⟩ | ⟨script, ran⟩
    · exact ⟨idle, rfl⟩
    · simp only [execute, idle] at ran
      cases ran
  query := by
    intro s s' sql result ran
    rcases scripted_cases (query sql) ran with ⟨_, _, -, rfl⟩ | ⟨script, ran⟩
    · exact ⟨rfl, rfl⟩
    · unfold query at ran
      split at ran <;> obtain ⟨-, rfl⟩ := Prod.mk.inj ran <;> exact ⟨rfl, rfl⟩
  select := by
    intro s s' rows ran
    rcases scripted_cases (query selectApplied) ran with ⟨_, _, failed, -⟩ | ⟨script, ran⟩
    · cases failed
    · unfold query at ran
      split at ran
      · cases ran
      next history seen =>
        obtain ⟨answer, -⟩ := Prod.mk.inj ran
        exact ⟨history, history, seen, .refl _, (Except.ok.inj answer).symm⟩

end Memory

def init : Migration where
  version := 1
  description := "init"
  filename := "V001__init.sql"
  sql := "CREATE TABLE orders (id INTEGER)"
  checksum := "a1"

def seed : Migration where
  version := 2
  description := "seed"
  filename := "V002__seed.sql"
  sql := "INSERT INTO orders VALUES (1)"
  checksum := "b2"

def stamp : Migration → String := fun _ => "2026-06-12T00:00:00Z"

def onlySeed : Source where
  list := .ok [seed]
  ordered := by
    rintro migs listed
    obtain rfl := Except.ok.inj listed
    simp [Ordered]

def editedSeed : Source where
  list := .ok [init, { seed with checksum := "c3" }]
  ordered := by
    rintro migs listed
    obtain rfl := Except.ok.inj listed
    simp [Ordered, init, seed]

def blank (script : List Bool) : World Memory where
  state := { committed := .empty, pending := none, script }
  failed := []

def unlucky : World Memory := blank [false, false, false, false, true, true]

def initAndSeed : Source where
  list := .ok [init, seed]
  ordered := by
    rintro migs listed
    obtain rfl := Except.ok.inj listed
    simp [Ordered, init, seed]

theorem migrations_recorded_twice :
    let failing := (run Memory.database stamp onlySeed unlucky).2
    let once := run Memory.database stamp initAndSeed (blank [])
    RecordsItsEffects Memory.committed onlySeed unlucky failing ∧
      RecordsItsEffects Memory.committed initAndSeed (blank []) once.2 ∧
      once.1 = .ok () ∧ once.2.state.committed.effects = [init.sql, seed.sql] ∧
      (∀ m ∈ [init, seed], Recorded once.2.state.committed m) ∧
      (run Memory.database stamp initAndSeed once.2).2.state.committed = once.2.state.committed := by
  intro failing once
  have unrecorded := (migrations_recorded Memory.database Memory.committed Memory.pending
    Memory.transactional stamp onlySeed unlucky _ _ (.fresh unlucky rfl) rfl).1
  obtain ⟨recorded, idle⟩ := migrations_recorded Memory.database Memory.committed Memory.pending
    Memory.transactional stamp initAndSeed (blank []) _ _ (.fresh _ rfl) rfl
  obtain ⟨-, ok_iff, again⟩ := idle rfl rfl
  have ok : once.1 = .ok () := by decide +kernel
  obtain ⟨-, migs, list, all⟩ := ok_iff.mp ok
  obtain rfl := Except.ok.inj list
  exact ⟨unrecorded, recorded, ok, by decide +kernel, all, again ok⟩

-- Pending versions before the edited one are applied all the same.
theorem applied_before_mismatch :
    ¬ ∀ (σ : Type) (db : Database σ) (committed : σ → Content) (pending : σ → Option Content),
      Transactional db committed pending → ∀ (src : Source) (w : World σ),
        Reached db committed stamp w → pending w.state = none →
        (∃ migs, src.list = .ok migs ∧ ∃ m ∈ migs, Edited (committed w.state) m) →
        (committed (run db stamp src w).2.state).effects = (committed w.state).effects := by
  intro untouched
  have edited : Edited (run Memory.database stamp onlySeed (blank [])).2.state.committed
      { seed with checksum := "c3" } :=
    ⟨[.record stamp seed], rfl, .record stamp seed, List.mem_cons_self, rfl, by decide⟩
  have same := untouched Memory Memory.database Memory.committed Memory.pending Memory.transactional
    editedSeed _ (.ran onlySeed (blank []) (.fresh _ rfl)) rfl
    ⟨_, rfl, _, List.mem_cons_of_mem _ List.mem_cons_self, edited⟩
  exact absurd same (by decide +kernel)

end Firefly.Migrations
