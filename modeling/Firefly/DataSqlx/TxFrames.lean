import Firefly.DataSqlx.Tx

set_option autoImplicit false

namespace Firefly.DataSqlx

open Transactional

def active : List Frame → Option (ActiveTx × Bool)
  | .real tx rollbackOnly :: _ => some (tx, rollbackOnly)
  | .savepoint :: frames | .joined :: frames => active frames
  | .suspended :: _ | [] => none

def setActive (tx : ActiveTx) (rollbackOnly : Bool) : List Frame → List Frame :=
  mapActive fun _ => .real tx rollbackOnly

section Lens

variable {frames : List Frame} {tx tx' : ActiveTx} {rollbackOnly rollbackOnly' : Bool}

theorem activeReal_eq (frames : List Frame) : activeReal frames = (active frames).map (·.1) := by
  induction frames with
  | nil => rfl
  | cons frame frames ih => cases frame <;> simp [activeReal, active, ih]

theorem active_setActive (held : active frames = some (tx, rollbackOnly)) :
    active (setActive tx' rollbackOnly' frames) = some (tx', rollbackOnly') := by
  induction frames with
  | nil => cases held
  | cons frame frames ih =>
    cases frame with
    | real => rfl
    | savepoint => exact ih held
    | joined => exact ih held
    | suspended => cases held

theorem setActive_setActive (tx tx' : ActiveTx) (rollbackOnly rollbackOnly' : Bool)
    (frames : List Frame) :
    setActive tx' rollbackOnly' (setActive tx rollbackOnly frames) =
      setActive tx' rollbackOnly' frames := by
  induction frames with
  | nil => rfl
  | cons frame frames ih =>
    cases frame with
    | real => rfl
    | savepoint => exact congrArg (List.cons .savepoint) ih
    | joined => exact congrArg (List.cons .joined) ih
    | suspended => rfl

theorem setActive_self (held : active frames = some (tx, rollbackOnly)) :
    setActive tx rollbackOnly frames = frames := by
  induction frames with
  | nil => cases held
  | cons frame frames ih =>
    cases frame with
    | real =>
      obtain ⟨rfl, rfl⟩ : _ ∧ _ := by simpa [active] using held
      rfl
    | savepoint => exact congrArg (List.cons .savepoint) (ih held)
    | joined => exact congrArg (List.cons .joined) (ih held)
    | suspended => cases held

theorem mapActive_eq (f : Frame → Frame) {tx' : ActiveTx} {rollbackOnly' : Bool}
    (held : active frames = some (tx, rollbackOnly))
    (becomes : f (.real tx rollbackOnly) = .real tx' rollbackOnly') :
    mapActive f frames = setActive tx' rollbackOnly' frames := by
  induction frames with
  | nil => cases held
  | cons frame frames ih =>
    cases frame with
    | real =>
      obtain ⟨rfl, rfl⟩ : _ ∧ _ := by simpa [active] using held
      exact congrArg (· :: frames) becomes
    | savepoint => exact congrArg (List.cons .savepoint) (ih held)
    | joined => exact congrArg (List.cons .joined) (ih held)
    | suspended => cases held

theorem mapActive_none (f : Frame → Frame) (free : active frames = none) :
    mapActive f frames = frames := by
  induction frames with
  | nil => rfl
  | cons frame frames ih =>
    cases frame with
    | real => cases free
    | savepoint => exact congrArg (List.cons .savepoint) (ih free)
    | joined => exact congrArg (List.cons .joined) (ih free)
    | suspended => rfl

theorem mem_setActive {frame : Frame} (member : frame ∈ setActive tx' rollbackOnly' frames) :
    frame ∈ frames ∨ frame = .real tx' rollbackOnly' := by
  induction frames with
  | nil => exact .inl member
  | cons first frames ih =>
    cases first with
    | real =>
      rcases List.mem_cons.mp member with here | below
      · exact .inr here
      · exact .inl (List.mem_cons_of_mem _ below)
    | savepoint =>
      rcases List.mem_cons.mp member with here | below
      · exact .inl (here ▸ List.mem_cons_self)
      · exact (ih below).imp_left (List.mem_cons_of_mem _)
    | joined =>
      rcases List.mem_cons.mp member with here | below
      · exact .inl (here ▸ List.mem_cons_self)
      · exact (ih below).imp_left (List.mem_cons_of_mem _)
    | suspended => exact .inl member

theorem active_mem (held : active frames = some (tx, rollbackOnly)) :
    .real tx rollbackOnly ∈ frames := by
  induction frames with
  | nil => cases held
  | cons frame frames ih =>
    cases frame with
    | real =>
      obtain ⟨rfl, rfl⟩ : _ ∧ _ := by simpa [active] using held
      exact List.mem_cons_self
    | savepoint => exact List.mem_cons_of_mem _ (ih held)
    | joined => exact List.mem_cons_of_mem _ (ih held)
    | suspended => cases held

end Lens

structure Grown (bound : Nat) (tx tx' : ActiveTx) : Prop where
  id : tx'.id = tx.id
  pending : tx.pending <+: tx'.pending
  savepoints : ∃ newer, tx'.savepoints = newer ++ tx.savepoints ∧ ∀ point ∈ newer, bound < point.1

theorem Grown.refl (bound : Nat) (tx : ActiveTx) : Grown bound tx tx :=
  ⟨rfl, List.prefix_refl _, [], rfl, by simp⟩

theorem Grown.trans {bound bound' : Nat} {tx tx' tx'' : ActiveTx} (first : Grown bound tx tx')
    (second : Grown bound' tx' tx'') (later : bound ≤ bound') : Grown bound tx tx'' := by
  obtain ⟨newer, points, above⟩ := first.savepoints
  obtain ⟨newest, points', above'⟩ := second.savepoints
  refine ⟨second.id.trans first.id, first.pending.trans second.pending, newest ++ newer, ?_, ?_⟩
  · rw [points', points, List.append_assoc]
  · intro point member
    rcases List.mem_append.mp member with here | there
    · exact later.trans_lt (above' point here)
    · exact above point there

theorem grown_execute (bound : Nat) (tx : ActiveTx) (sql : String) :
    Grown bound tx (tx.execute sql) :=
  ⟨rfl, List.prefix_append _ _, [], rfl, by simp⟩

theorem savepoint_found {name : Nat} {tx tx' : ActiveTx}
    (grown : Grown name (tx.savepoint name) tx') :
    tx'.savepoints.dropWhile (fun point => point.1 ≠ name) =
      (name, tx.pending.length) :: tx.savepoints := by
  obtain ⟨newer, points, above⟩ := grown.savepoints
  rw [points, List.dropWhile_append_of_pos]
  · simp [ActiveTx.savepoint]
  · intro point member
    simpa using (above point member).ne'

theorem rollbackToSavepoint_eq {name : Nat} {tx tx' : ActiveTx}
    (grown : Grown name (tx.savepoint name) tx') :
    tx'.rollbackToSavepoint name = .ok (tx.savepoint name) := by
  obtain ⟨rest, pending⟩ := grown.pending
  rw [ActiveTx.rollbackToSavepoint, savepoint_found grown]
  have id : tx'.id = tx.id := grown.id
  have before : tx'.pending.take tx.pending.length = tx.pending := by
    rw [← pending]
    simp [ActiveTx.savepoint]
  obtain ⟨id', pending', savepoints'⟩ := tx'
  simp only at id before ⊢
  rw [id, before]
  rfl

theorem releaseSavepoint_eq {name : Nat} {tx tx' : ActiveTx}
    (grown : Grown name (tx.savepoint name) tx') :
    tx'.releaseSavepoint name = .ok { tx' with savepoints := tx.savepoints } := by
  rw [ActiveTx.releaseSavepoint, savepoint_found grown]

theorem grown_savepoint {bound name : Nat} (above : bound < name) (tx : ActiveTx) :
    Grown bound tx (tx.savepoint name) :=
  ⟨rfl, List.prefix_refl _, [(name, tx.pending.length)], rfl, by simpa using above⟩

theorem grown_released {bound name : Nat} {tx tx' : ActiveTx}
    (grown : Grown name (tx.savepoint name) tx') :
    Grown bound tx { tx' with savepoints := tx.savepoints } :=
  ⟨grown.id, grown.pending, [], rfl, by simp⟩

end Firefly.DataSqlx
