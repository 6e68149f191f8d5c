import Firefly.DataSqlx.CommitReports
import Firefly.DataSqlx.Documented
import Firefly.Shared.Runs

set_option autoImplicit false

namespace Firefly.DataSqlx

open Transactional Runs

def StartsAsDocumented (propagation : Propagation) (w : Documented.World) : Prop :=
  w.current = .suspended →
    propagation = .supports ∨ propagation = .notSupported ∨ propagation = .requiresNew

def EndsAsDocumented (ticket : Documented.Ticket) (outcome : TxOutcome) (w : Documented.World) :
    Prop :=
  ticket.mode = .own → outcome.rolledBack = false → ∀ scope, w.current = .within scope →
    joinFailed w.trace scope.id = true → scope.doomed = true

def Conforms (program : Program) (w : Documented.World) : Prop :=
  program.Along Documented.documentedManager Documented.World.execute StartsAsDocumented
    EndsAsDocumented w

def Matches (trace : List Entry) : Option TxStack → Documented.Current → Prop
  | none, current => current = .outside
  | some stack, current =>
    match active stack.frames with
    | none => current = .suspended
    | some (tx, _) => ∃ doomed, current = .within ⟨tx.id, tx.pending, doomed⟩ ∧
        (doomed = true → joinFailed trace tx.id = true)

def Older (trace : List Entry) (bound : Nat) : Prop :=
  ∀ entry ∈ trace, ∀ tx, entry.about = some tx → tx < bound

structure Coupled (s : Session) (w : Documented.World) : Prop where
  trace : w.trace = s.trace
  committed : w.committed = s.committed
  nextTx : w.nextTx = s.nextTx
  older : Older s.trace s.nextTx
  matched : Matches s.trace s.stack w.current
  wellFormed : WellFormed s

section Matched

variable {trace : List Entry} {stack : TxStack} {current : Documented.Current} {tx : ActiveTx}
  {rollbackOnly : Bool}

theorem matches_of_active (top : active stack.frames = some (tx, rollbackOnly)) :
    Matches trace (some stack) current ↔ ∃ doomed, current = .within ⟨tx.id, tx.pending, doomed⟩ ∧
      (doomed = true → joinFailed trace tx.id = true) := by
  simp only [Matches, top]

theorem matches_of_none (top : active stack.frames = none) :
    Matches trace (some stack) current ↔ current = .suspended := by
  simp only [Matches, top]

theorem Matches.later {held : Option TxStack} (matched : Matches trace held current)
    (more : List Entry) : Matches (trace ++ more) held current := by
  cases held with
  | none => exact matched
  | some stack =>
    cases top : active stack.frames with
    | none => exact (matches_of_none top).mpr ((matches_of_none top).mp matched)
    | some pair =>
      obtain ⟨doomed, same, marked⟩ := (matches_of_active top).mp matched
      refine (matches_of_active top).mpr ⟨doomed, same, fun doom => ?_⟩
      rw [joinFailed_append, marked doom, Bool.true_or]

theorem matches_frames {stack' : TxStack} (same : stack'.frames = stack.frames) :
    Matches trace (some stack') current ↔ Matches trace (some stack) current := by
  simp only [Matches, same]

end Matched

theorem Older.append {trace more : List Entry} {bound : Nat} (older : Older trace bound)
    (newer : Older more bound) : Older (trace ++ more) bound := by
  intro entry member tx here
  rcases List.mem_append.mp member with before | after
  · exact older entry before tx here
  · exact newer entry after tx here

theorem Older.weaken {trace : List Entry} {bound bound' : Nat} (older : Older trace bound)
    (le : bound ≤ bound') : Older trace bound' :=
  fun entry member tx here => (older entry member tx here).trans_le le

theorem Older.joinFailed {trace : List Entry} {bound : Nat} (older : Older trace bound) :
    joinFailed trace bound = false :=
  joinFailed_of_about fun entry member here => (older entry member bound here).false

theorem Piece.older {s s' : Session} {trace : List Entry} (piece : Piece s s' trace)
    (wellFormed : WellFormed s) (older : Older s.trace s.nextTx) : Older s'.trace s'.nextTx := by
  rw [piece.extends_trace]
  apply (older.weaken piece.nextTx_le).append
  intro entry member tx here
  rcases piece.about entry member tx here with same | range
  · exact (wellFormed.current_lt same).trans_le piece.nextTx_le
  · exact range.2

theorem Coupled.tx_eq {s : Session} {w : Documented.World} (coupled : Coupled s w) :
    w.tx = s.current := by
  have matched := coupled.matched
  cases held : s.stack with
  | none =>
    rw [held] at matched
    have outside : w.current = .outside := matched
    simp [Documented.World.tx, outside, Documented.Current.scope?, Session.current, held]
  | some stack =>
    rw [held] at matched
    rw [current_eq held]
    cases top : active stack.frames with
    | none =>
      have suspended := (matches_of_none top).mp matched
      simp [Documented.World.tx, suspended, Documented.Current.scope?]
    | some pair =>
      obtain ⟨doomed, within, -⟩ := (matches_of_active top).mp matched
      simp [Documented.World.tx, within, Documented.Current.scope?]

theorem Coupled.record {s : Session} {w : Documented.World} (coupled : Coupled s w) (entry : Entry)
    (older : Older [entry] s.nextTx) : Coupled (s.record entry) (w.record entry) where
  trace := congrArg (· ++ [entry]) coupled.trace
  committed := coupled.committed
  nextTx := coupled.nextTx
  older := coupled.older.append older
  matched := coupled.matched.later [entry]
  wellFormed := coupled.wellFormed

def AgreesAt (f : Session → Except TxError Unit × Session)
    (g : Documented.World → Except TxError Unit × Documented.World)
    (C : Documented.World → Prop) (s : Session) (w : Documented.World) : Prop :=
  (C w → (f s).1 = (g w).1 ∧ Coupled (f s).2 (g w).2) ∧
    (¬ C w → Diverged (f s).2.trace (g w).2.trace)

structure Agrees (f : Session → Except TxError Unit × Session)
    (g : Documented.World → Except TxError Unit × Documented.World)
    (C : Documented.World → Prop) : Prop where
  pieces : ∀ s, WellFormed s → ∃ trace, Piece s (f s).2 trace
  extend : ∀ w, w.trace <+: (g w).2.trace
  agree : ∀ s w, Coupled s w → AgreesAt f g C s w

section Agree

variable {f : Session → Except TxError Unit × Session}
  {g : Documented.World → Except TxError Unit × Documented.World} {C : Documented.World → Prop}

theorem Agrees.bind {h : Except TxError Unit → Session → Except TxError Unit × Session}
    {k : Except TxError Unit → Documented.World → Except TxError Unit × Documented.World}
    {D : Except TxError Unit → Documented.World → Prop} (first : Agrees f g C)
    (second : ∀ result, Agrees (h result) (k result) (D result)) :
    Agrees (fun s => h (f s).1 (f s).2) (fun w => k (g w).1 (g w).2)
      (fun w => C w ∧ D (g w).1 (g w).2) where
  pieces s wellFormed := by
    obtain ⟨trace, piece⟩ := first.pieces s wellFormed
    obtain ⟨trace', piece'⟩ := (second (f s).1).pieces _ (piece.wellFormed wellFormed)
    exact ⟨_, piece.trans piece' wellFormed⟩
  extend w := (first.extend w).trans ((second (g w).1).extend (g w).2)
  agree s w coupled := by
    by_cases holds : C w
    · obtain ⟨result, coupled'⟩ := (first.agree s w coupled).1 holds
      obtain ⟨same, apart⟩ := (second (g w).1).agree _ _ coupled'
      simp only [AgreesAt, result]
      exact ⟨fun both => same both.2, fun fails => apart fun later => fails ⟨holds, later⟩⟩
    · refine ⟨fun both => absurd both.1 holds, fun _ => ?_⟩
      -- Both traces only grow from where they have parted.
      obtain ⟨trace, piece⟩ := first.pieces s coupled.wellFormed
      obtain ⟨more, piece'⟩ := (second (f s).1).pieces _ (piece.wellFormed coupled.wellFormed)
      exact ((first.agree s w coupled).2 holds).extend ⟨more, piece'.extends_trace.symm⟩
        ((second (g w).1).extend (g w).2)

end Agree

theorem done_agrees (result : Except TxError Unit) :
    Agrees (fun s => (result, s)) (fun w => (result, w)) fun _ => True where
  pieces s _ := ⟨[], Piece.refl s⟩
  extend _ := List.prefix_refl _
  agree _ _ coupled := ⟨fun _ => ⟨rfl, coupled⟩, fun fails => absurd trivial fails⟩

theorem meaning_execute_trace (sql : String) (w : Documented.World) :
    (w.execute sql).trace = w.trace ++ [.executed sql w.tx] := by
  unfold Documented.World.execute
  split <;> simp [Documented.World.record, Documented.World.tx, Documented.Current.scope?, *]

theorem execute_coupled (sql : String) {s : Session} {w : Documented.World} (coupled : Coupled s w) :
    Coupled (s.execute sql) (w.execute sql) := by
  have piece := statement_piece sql s
  have matched := coupled.matched
  have trace : (w.execute sql).trace = (s.execute sql).trace := by
    rw [meaning_execute_trace, piece.extends_trace, coupled.trace, coupled.tx_eq]
  have older := piece.older coupled.wellFormed coupled.older
  have wellFormed := piece.wellFormed coupled.wellFormed
  cases held : s.stack with
  | none =>
    rw [held] at matched
    have outside : w.current = .outside := matched
    have code : s.execute sql =
        Session.record { s with committed := s.committed ++ [sql] } (.executed sql none) := by
      simp [Session.execute, held]
    have documented : w.execute sql = Documented.World.record
        { w with committed := w.committed ++ [sql] } (.executed sql none) := by
      simp [Documented.World.execute, outside]
    rw [code, documented] at trace ⊢
    rw [code] at older wellFormed
    refine ⟨trace, congrArg (· ++ [sql]) coupled.committed, coupled.nextTx, older, ?_, wellFormed⟩
    show Matches _ s.stack w.current
    rw [held]
    exact outside
  | some stack =>
    rw [held] at matched
    cases top : active stack.frames with
    | none =>
      have suspended := (matches_of_none top).mp matched
      have code : s.execute sql =
          Session.record { s with committed := s.committed ++ [sql] } (.executed sql none) := by
        simp [Session.execute, held, activeReal_eq, top]
      have documented : w.execute sql = Documented.World.record
          { w with committed := w.committed ++ [sql] } (.executed sql none) := by
        simp [Documented.World.execute, suspended]
      rw [code, documented] at trace ⊢
      rw [code] at older wellFormed
      refine ⟨trace, congrArg (· ++ [sql]) coupled.committed, coupled.nextTx, older, ?_, wellFormed⟩
      show Matches _ s.stack w.current
      rw [held]
      exact (matches_of_none top).mpr suspended
    | some pair =>
      obtain ⟨tx, rollbackOnly⟩ := pair
      obtain ⟨doomed, within, marked⟩ := (matches_of_active top).mp matched
      have frames : mapActive (Frame.withTx fun tx => tx.execute sql) stack.frames =
          setActive (tx.execute sql) rollbackOnly stack.frames := mapActive_eq _ top rfl
      have code : s.execute sql = Session.record
          { s with
            stack := some
              { stack with frames := setActive (tx.execute sql) rollbackOnly stack.frames } }
          (.executed sql (some tx.id)) := by
        simp [Session.execute, held, activeReal_eq, top, frames]
      have documented : w.execute sql = Documented.World.record
          { w with current := .within ⟨tx.id, tx.pending ++ [sql], doomed⟩ }
          (.executed sql (some tx.id)) := by
        simp [Documented.World.execute, within]
      rw [code, documented] at trace ⊢
      rw [code] at older wellFormed
      refine ⟨trace, coupled.committed, coupled.nextTx, older, ?_, wellFormed⟩
      refine (matches_of_active (active_setActive top)).mpr ⟨doomed, rfl, fun doom => ?_⟩
      show joinFailed (s.trace ++ _) tx.id = true
      rw [joinFailed_append, marked doom, Bool.true_or]

theorem statement_agrees (sql : String) :
    Agrees (fun s => (.ok (), s.execute sql)) (fun w => (.ok (), w.execute sql)) fun _ => True where
  pieces s _ := ⟨_, statement_piece sql s⟩
  extend w := ⟨_, (meaning_execute_trace sql w).symm⟩
  agree _ _ coupled :=
    ⟨fun _ => ⟨rfl, execute_coupled sql coupled⟩, fun fails => absurd trivial fails⟩

def CallConforms (propagation : Propagation) (shouldRollback : TxError → Bool)
    (g : Documented.World → Except TxError Unit × Documented.World) (C : Documented.World → Prop)
    (w : Documented.World) : Prop :=
  StartsAsDocumented propagation w ∧
    ∀ ticket w₁, Documented.enter propagation w = (.ok ticket, w₁) →
      C w₁ ∧ EndsAsDocumented ticket (outcomeOf shouldRollback (g w₁).1) (g w₁).2

section Calls

variable {propagation : Propagation} {shouldRollback : TxError → Bool}
  {f : Session → Except TxError Unit × Session}
  {g : Documented.World → Except TxError Unit × Documented.World} {C : Documented.World → Prop}
  {s s₁ s₃ : Session} {w w₁ : Documented.World} {outcome : TxOutcome}

theorem meaning_leave (ticket : Documented.Ticket) (outcome : TxOutcome) (w : Documented.World) :
    Documented.leave ticket (.ok outcome) w =
      (.ok outcome, (Documented.close ticket outcome.rolledBack w).record
        (answered ticket.propagation ticket.mode.owns ticket.tx outcome)) := rfl

theorem close_extend (ticket : Documented.Ticket) (failed : Bool) (w : Documented.World) :
    w.trace <+: (Documented.close ticket failed w).trace := by
  unfold Documented.close
  split
  · exact List.prefix_refl _
  · dsimp only
    split
    · exact List.prefix_append _ _
    · exact List.prefix_append _ _
  · split
    · exact List.prefix_refl _
    · exact List.prefix_refl _
  · exact List.prefix_refl _
  · exact List.prefix_refl _

theorem meaning_leave_extend (ticket : Documented.Ticket) (outcome : TxOutcome)
    (w : Documented.World) : w.trace <+: (Documented.leave ticket (.ok outcome) w).2.trace :=
  (close_extend ticket outcome.rolledBack w).trans (List.prefix_append _ _)

theorem meaning_enter_extend (propagation : Propagation) (w : Documented.World) :
    w.trace <+: (Documented.enter propagation w).2.trace := by
  have start_extend (mode : Documented.Mode) : w.trace <+: (Documented.start mode w).trace := by
    cases mode
    case own => exact List.prefix_append _ _
    all_goals exact List.prefix_refl _
  unfold Documented.enter
  split
  · exact (start_extend _).trans (List.prefix_append _ _)
  · exact List.prefix_append _ _

theorem meaning_call_enter (extend : ∀ w, w.trace <+: (g w).2.trace) (w : Documented.World) :
    (Documented.enter propagation w).2.trace <+: (transactionalWithOn Documented.documentedManager
      propagation shouldRollback g w).2.trace := by
  rcases entered : Documented.enter propagation w with ⟨entry, w₁⟩
  cases entry with
  | error error =>
    rw [call_of_refused entered]
  | ok ticket =>
    rw [call_of_entered entered (meaning_leave ticket _ _)]
    exact (extend w₁).trans (meaning_leave_extend ticket _ _)

theorem entered_agree (agrees : Agrees f g C) {token : Token} {ticket : Documented.Ticket}
    (starts : StartsAsDocumented propagation w)
    (entered : SqlxTransactionManager.enter propagation s = (.ok token, s₁))
    (entered' : Documented.enter propagation w = (.ok ticket, w₁)) (coupled₁ : Coupled s₁ w₁)
    (left : SqlxTransactionManager.leave token (.ok (outcomeOf shouldRollback (f s₁).1)) (f s₁).2 =
      (.ok (outcomeOf shouldRollback (f s₁).1), s₃))
    (grows : (f s₁).2.trace <+: s₃.trace)
    (after : Coupled (f s₁).2 (g w₁).2 →
      (EndsAsDocumented ticket (outcomeOf shouldRollback (f s₁).1) (g w₁).2 →
        Coupled s₃ (Documented.leave ticket (.ok (outcomeOf shouldRollback (f s₁).1)) (g w₁).2).2) ∧
      (¬ EndsAsDocumented ticket (outcomeOf shouldRollback (f s₁).1) (g w₁).2 →
        Diverged s₃.trace
          (Documented.leave ticket (.ok (outcomeOf shouldRollback (f s₁).1)) (g w₁).2).2.trace)) :
    AgreesAt (transactionalWithOn sqlxTransactionManager propagation shouldRollback f)
      (transactionalWithOn Documented.documentedManager propagation shouldRollback g)
      (CallConforms propagation shouldRollback g C) s w := by
  unfold AgreesAt
  rw [call_of_entered entered left, call_of_entered entered' (meaning_leave ticket _ _)]
  constructor
  · rintro ⟨-, inside⟩
    obtain ⟨conforms, ends⟩ := inside _ _ entered'
    obtain ⟨result, coupled₂⟩ := (agrees.agree _ _ coupled₁).1 conforms
    rw [← result] at ends ⊢
    exact ⟨rfl, (after coupled₂).1 ends⟩
  · intro fails
    by_cases conforms : C w₁
    · obtain ⟨result, coupled₂⟩ := (agrees.agree _ _ coupled₁).1 conforms
      rw [← result]
      apply (after coupled₂).2
      intro ends
      apply fails
      refine ⟨starts, fun ticket' w' same => ?_⟩
      obtain ⟨⟨rfl⟩, rfl⟩ : Except.ok ticket = Except.ok ticket' ∧ w₁ = w' :=
        Prod.mk.inj (entered'.symm.trans same)
      exact ⟨conforms, result ▸ ends⟩
    · -- What is left of the call cannot bring the traces together again.
      exact ((agrees.agree _ _ coupled₁).2 conforms).extend grows (meaning_leave_extend ticket _ _)

theorem meaning_enter {mode : Documented.Mode}
    (runs : Documented.mode propagation w.current.scope? = .ok mode) :
    Documented.enter propagation w =
      (.ok ⟨mode, propagation, w.current, (Documented.start mode w).tx⟩,
        (Documented.start mode w).record
          (.entered propagation mode.owns (Documented.start mode w).tx)) := by
  simp only [Documented.enter, runs]

theorem ends_of_not_owner {ticket : Documented.Ticket} (shared : ticket.mode ≠ .own) :
    EndsAsDocumented ticket outcome w :=
  fun owner => absurd owner shared

theorem own_coupled {stack : TxStack} (coupled : Coupled s w) (held : s₁.stack = some stack)
    (top : active stack.frames = some ({ id := s.nextTx }, false))
    (trace : s₁.trace = s.trace ++ [.began s.nextTx, .entered propagation true (some s.nextTx)])
    (committed : s₁.committed = s.committed) (nextTx : s₁.nextTx = s.nextTx + 1)
    (wellFormed : WellFormed s₁) :
    Coupled s₁ ((Documented.start .own w).record
      (.entered propagation true (Documented.start .own w).tx)) where
  trace := by
    simp [Documented.start, Documented.World.record, Documented.World.tx,
      Documented.Current.scope?, trace, coupled.trace, coupled.nextTx]
  committed := coupled.committed.trans committed.symm
  nextTx := (congrArg (· + 1) coupled.nextTx).trans nextTx.symm
  older := by
    rw [trace, nextTx]
    apply (coupled.older.weaken (Nat.le_succ _)).append
    intro entry member tx here
    have about : entry.about = some s.nextTx := by
      rcases List.mem_cons.mp member with rfl | last
      · rfl
      · rw [List.mem_singleton.mp last]
        rfl
    obtain rfl := Option.some.inj (about.symm.trans here)
    exact Nat.lt_succ_self _
  matched := by
    rw [held]
    refine (matches_of_active top).mpr ⟨false, ?_, by simp⟩
    simp [Documented.start, Documented.World.record, coupled.nextTx]
  wellFormed := wellFormed

theorem close_own (outcome : TxOutcome) (entry : Entry) {tx : ActiveTx} {doomed mark : Bool}
    {ticket : Documented.Ticket} (owner : ticket.mode = .own) (trace : w.trace = s.trace)
    (committed : w.committed = s.committed)
    (within : w.current = .within ⟨tx.id, tx.pending, doomed⟩)
    (marked : doomed = true → mark = true) (mark_eq : joinFailed w.trace tx.id = mark) :
    (EndsAsDocumented ticket outcome w →
      ((Documented.close ticket outcome.rolledBack w).record entry).trace =
          ((SqlxTransactionManager.finish (.ok outcome) tx mark s).record entry).trace ∧
        (Documented.close ticket outcome.rolledBack w).committed =
          (SqlxTransactionManager.finish (.ok outcome) tx mark s).committed ∧
        (Documented.close ticket outcome.rolledBack w).nextTx = w.nextTx ∧
        (Documented.close ticket outcome.rolledBack w).current = ticket.around) ∧
      (¬ EndsAsDocumented ticket outcome w →
        Diverged ((SqlxTransactionManager.finish (.ok outcome) tx mark s).record entry).trace
          ((Documented.close ticket outcome.rolledBack w).record entry).trace) := by
  have exact_end : EndsAsDocumented ticket outcome w ↔
      (outcome.rolledBack = false → mark = true → doomed = true) := by
    constructor
    · intro ends kept failed
      exact ends owner kept _ within (mark_eq.trans failed)
    · rintro ends - kept scope same failed
      obtain rfl := Documented.Current.within.inj (within.symm.trans same)
      exact ends kept (mark_eq.symm.trans failed)
  rw [exact_end]
  cases rolled : outcome.rolledBack <;> cases mark <;> cases doomed <;>
    simp_all [Documented.close, SqlxTransactionManager.finish, SqlxTransactionManager.rollsBack,
      Session.rollback, Session.commit, Session.record, Documented.World.record]
  exact ⟨s.trace, .rolledBack tx.id, .committed tx.id tx.pending, _, _, by simp, rfl, rfl⟩

theorem own_mark {s₂ : Session} {body : List Entry} {tx : ActiveTx} (coupled : Coupled s w)
    (inner : Piece s₁ s₂ body) (id : tx.id = s.nextTx)
    (trace : s₁.trace = s.trace ++ [.began s.nextTx, .entered propagation true (some s.nextTx)]) :
    joinFailed s₂.trace tx.id = joinFailed body tx.id := by
  have begun : joinFailed [.began s.nextTx, .entered propagation true (some s.nextTx)] s.nextTx
      = false := rfl
  rw [inner.extends_trace, trace, id, joinFailed_append, joinFailed_append, coupled.older.joinFailed,
    begun, Bool.false_or, Bool.false_or]

theorem start_own_tx (coupled : Coupled s w) : (Documented.start .own w).tx = some s.nextTx := by
  simp [Documented.start, Documented.World.record, Documented.World.tx,
    Documented.Current.scope?, coupled.nextTx]

theorem owner_agrees (s' : Session) (agrees : Agrees f g C) (coupled : Coupled s w) {token : Token}
    {stack : TxStack} {tx : ActiveTx} {body : List Entry} (starts : StartsAsDocumented propagation w)
    (runs : Documented.mode propagation w.current.scope? = .ok .own)
    (entered : SqlxTransactionManager.enter propagation s = (.ok token, s₁))
    (coupled₁ : Coupled s₁ ((Documented.start .own w).record
      (.entered propagation true (Documented.start .own w).tx)))
    (trace₁ : s₁.trace = s.trace ++ [.began s.nextTx, .entered propagation true (some s.nextTx)])
    (inner : Piece s₁ (f s₁).2 body) (id : tx.id = s.nextTx)
    (held₂ : (f s₁).2.stack = some stack)
    (top : active stack.frames = some (tx, joinFailed body tx.id))
    (popped : s'.trace = (f s₁).2.trace ∧ s'.committed = (f s₁).2.committed ∧
      s'.nextTx = (f s₁).2.nextTx ∧ Matches s.trace s'.stack w.current)
    (left : SqlxTransactionManager.leave token (.ok (outcomeOf shouldRollback (f s₁).1)) (f s₁).2 =
      (.ok (outcomeOf shouldRollback (f s₁).1), s₃))
    (ending : s₃ = (SqlxTransactionManager.finish (.ok (outcomeOf shouldRollback (f s₁).1)) tx
      (joinFailed body tx.id) s').record
        (answered propagation true (some s.nextTx) (outcomeOf shouldRollback (f s₁).1)))
    (piece : Piece s s₃ (ownedTrace propagation (outcomeOf shouldRollback (f s₁).1) tx body)) :
    AgreesAt (transactionalWithOn sqlxTransactionManager propagation shouldRollback f)
      (transactionalWithOn Documented.documentedManager propagation shouldRollback g)
      (CallConforms propagation shouldRollback g C) s w := by
  obtain ⟨trace', committed', nextTx', matched'⟩ := popped
  apply entered_agree agrees starts entered (meaning_enter runs) coupled₁ left
  · rw [ending, ← trace']
    simp [Session.record]
  · intro coupled₂
    have matched := coupled₂.matched
    rw [held₂] at matched
    obtain ⟨doomed, within, marked⟩ := (matches_of_active top).mp matched
    have mark := own_mark coupled inner id trace₁
    have owner : (Documented.Ticket.mode
        ⟨.own, propagation, w.current, (Documented.start .own w).tx⟩) = .own := rfl
    obtain ⟨ends, parts⟩ := close_own (outcomeOf shouldRollback (f s₁).1)
      (answered propagation true (Documented.start .own w).tx (outcomeOf shouldRollback (f s₁).1))
      owner (coupled₂.trace.trans trace'.symm) (coupled₂.committed.trans committed'.symm) within
      (fun doom => mark ▸ marked doom) (by rw [coupled₂.trace, mark])
    rw [← start_own_tx coupled] at ending
    rw [meaning_leave, ending]
    refine ⟨fun allowed => ?_, parts⟩
    obtain ⟨trace, committed, nextTx, current⟩ := ends allowed
    rw [ending] at piece
    refine ⟨trace, committed, ?_, piece.older coupled.wellFormed coupled.older, ?_,
      piece.wellFormed coupled.wellFormed⟩
    · exact nextTx.trans ((coupled₂.nextTx.trans nextTx'.symm).trans (finish_nextTx _ _).symm)
    · rw [piece.extends_trace]
      show Matches _ (SqlxTransactionManager.finish _ _ _ s').stack
        (Documented.close _ _ _).current
      rw [finish_stack, current]
      exact matched'.later _

theorem root_agrees (agrees : Agrees f g C) (coupled : Coupled s w) (idle : s.stack = none)
    (opens : propagation = .required ∨ propagation = .requiresNew ∨ propagation = .nested) :
    AgreesAt (transactionalWithOn sqlxTransactionManager propagation shouldRollback f)
      (transactionalWithOn Documented.documentedManager propagation shouldRollback g)
      (CallConforms propagation shouldRollback g C) s w := by
  have matched := coupled.matched
  rw [idle] at matched
  have outside : w.current = .outside := matched
  have runs : Documented.mode propagation w.current.scope? = .ok .own := by
    rw [outside]
    rcases opens with rfl | rfl | rfl <;> rfl
  have trace₁ : (opened propagation s).trace =
      s.trace ++ [.began s.nextTx, .entered propagation true (some s.nextTx)] := by
    simp [opened, Session.record]
  have wellFormed₁ := opened_wellFormed propagation s
  obtain ⟨body, inner⟩ := agrees.pieces _ wellFormed₁
  obtain ⟨tx, seq, id, held₂, piece⟩ := root_piece
    (outcomeOf shouldRollback (f (opened propagation s)).1) idle inner coupled.wellFormed
  apply owner_agrees { (f (opened propagation s)).2 with stack := none } agrees coupled
    (fun suspended => absurd (outside.symm.trans suspended) (by simp)) runs
    (enter_root idle opens) (own_coupled coupled rfl rfl trace₁ rfl rfl wellFormed₁) trace₁ inner id
    held₂ rfl ⟨rfl, rfl, rfl, outside⟩ (leave_root held₂) rfl piece

theorem requiresNew_agrees {stack : TxStack} (agrees : Agrees f g C) (coupled : Coupled s w)
    (held : s.stack = some stack) :
    AgreesAt (transactionalWithOn sqlxTransactionManager .requiresNew shouldRollback f)
      (transactionalWithOn Documented.documentedManager .requiresNew shouldRollback g)
      (CallConforms .requiresNew shouldRollback g C) s w := by
  have matched := coupled.matched
  rw [held] at matched
  have trace₁ : (stacked stack .requiresNew s).trace =
      s.trace ++ [.began s.nextTx, .entered .requiresNew true (some s.nextTx)] := by
    simp [stacked, Session.record]
  have wellFormed₁ := stacked_wellFormed coupled.wellFormed held
  obtain ⟨body, inner⟩ := agrees.pieces _ wellFormed₁
  obtain ⟨tx, seq, id, held₂, piece⟩ := requiresNew_piece
    (outcomeOf shouldRollback (f (stacked stack .requiresNew s)).1) held inner coupled.wellFormed
  apply owner_agrees
    { (f (stacked stack .requiresNew s)).2 with stack := some ⟨stack.frames, seq⟩ } agrees coupled
    (fun _ => .inr (.inr rfl)) rfl (enter_requiresNew held)
    (own_coupled coupled rfl rfl trace₁ rfl rfl wellFormed₁) trace₁ inner id held₂ rfl
    ⟨rfl, rfl, rfl, (matches_frames rfl).mpr matched⟩ (leave_requiresNew held₂) rfl piece

theorem close_shared (ticket : Documented.Ticket) (shared : ticket.mode ≠ .own) (failed : Bool)
    (w : Documented.World) :
    (Documented.close ticket failed w).trace = w.trace ∧
      (Documented.close ticket failed w).committed = w.committed ∧
      (Documented.close ticket failed w).nextTx = w.nextTx := by
  unfold Documented.close
  split
  · exact ⟨rfl, rfl, rfl⟩
  · exact absurd ‹_› shared
  · split <;> exact ⟨rfl, rfl, rfl⟩
  · exact ⟨rfl, rfl, rfl⟩
  · exact ⟨rfl, rfl, rfl⟩

theorem shared_agrees (s' : Session) (agrees : Agrees f g C) (coupled : Coupled s w) {token : Token}
    {mode : Documented.Mode} {tx? : Option Nat} {trace : List Entry} (shared : mode ≠ .own)
    (starts : StartsAsDocumented propagation w)
    (runs : Documented.mode propagation w.current.scope? = .ok mode)
    (tx_eq : (Documented.start mode w).tx = tx?)
    (entered : SqlxTransactionManager.enter propagation s = (.ok token, s₁))
    (coupled₁ : Coupled s₁ ((Documented.start mode w).record (.entered propagation false tx?)))
    (popped : s'.trace = (f s₁).2.trace ∧ s'.committed = (f s₁).2.committed ∧
      s'.nextTx = (f s₁).2.nextTx)
    (left : SqlxTransactionManager.leave token (.ok (outcomeOf shouldRollback (f s₁).1)) (f s₁).2 =
      (.ok (outcomeOf shouldRollback (f s₁).1),
        s'.record (answered propagation false tx? (outcomeOf shouldRollback (f s₁).1))))
    (piece : Piece s
      (s'.record (answered propagation false tx? (outcomeOf shouldRollback (f s₁).1))) trace)
    (matched : ∀ w₂, Coupled (f s₁).2 w₂ →
      Matches (s'.trace ++ [answered propagation false tx? (outcomeOf shouldRollback (f s₁).1)])
        s'.stack (Documented.close ⟨mode, propagation, w.current, tx?⟩
          (outcomeOf shouldRollback (f s₁).1).rolledBack w₂).current) :
    AgreesAt (transactionalWithOn sqlxTransactionManager propagation shouldRollback f)
      (transactionalWithOn Documented.documentedManager propagation shouldRollback g)
      (CallConforms propagation shouldRollback g C) s w := by
  obtain ⟨trace', committed', nextTx'⟩ := popped
  have owns : mode.owns = false := by
    cases mode
    case own => exact absurd rfl shared
    all_goals rfl
  have entered' := meaning_enter runs
  rw [tx_eq, owns] at entered'
  apply entered_agree agrees starts entered entered' coupled₁ left
  · rw [← trace']
    exact List.prefix_append _ _
  · intro coupled₂
    refine ⟨fun _ => ?_, fun fails => absurd (ends_of_not_owner shared) fails⟩
    rw [meaning_leave, owns]
    obtain ⟨trace, committed, nextTx⟩ := close_shared ⟨mode, propagation, w.current, tx?⟩
      shared (outcomeOf shouldRollback (f s₁).1).rolledBack
      (g ((Documented.start mode w).record (.entered propagation false tx?))).2
    refine ⟨?_, ?_, ?_, piece.older coupled.wellFormed coupled.older, matched _ coupled₂,
      piece.wellFormed coupled.wellFormed⟩
    · show (Documented.close _ _ _).trace ++ _ = s'.trace ++ _
      rw [trace, coupled₂.trace, trace']
    · exact committed.trans (coupled₂.committed.trans committed'.symm)
    · exact nextTx.trans (coupled₂.nextTx.trans nextTx'.symm)

theorem Coupled.restack {held : Option TxStack} {current : Documented.Current}
    (coupled : Coupled s w) (matched : Matches s.trace held current)
    (wellFormed : WellFormed { s with stack := held }) :
    Coupled { s with stack := held } { w with current } :=
  ⟨coupled.trace, coupled.committed, coupled.nextTx, coupled.older, matched, wellFormed⟩

theorem Coupled.older_entered {owner : Bool} (coupled : Coupled s w) :
    Older [.entered propagation owner s.current] s.nextTx := by
  intro entry member tx here
  rw [List.mem_singleton.mp member] at here
  exact coupled.wellFormed.current_lt here

theorem older_outside {owner : Bool} (bound : Nat) : Older [.entered propagation owner none] bound := by
  intro entry member tx here
  rw [List.mem_singleton.mp member] at here
  cases here

theorem plain_agrees (agrees : Agrees f g C) (coupled : Coupled s w) (idle : s.stack = none)
    (plain : propagation = .never ∨ propagation = .notSupported ∨ propagation = .supports) :
    AgreesAt (transactionalWithOn sqlxTransactionManager propagation shouldRollback f)
      (transactionalWithOn Documented.documentedManager propagation shouldRollback g)
      (CallConforms propagation shouldRollback g C) s w := by
  have matched := coupled.matched
  rw [idle] at matched
  have outside : w.current = .outside := matched
  have runs : Documented.mode propagation w.current.scope? = .ok .plain := by
    rw [outside]
    rcases plain with rfl | rfl | rfl <;> rfl
  have tx_eq : (Documented.start .plain w).tx = none := by
    simp [Documented.start, Documented.World.tx, outside, Documented.Current.scope?]
  have wellFormed₁ : WellFormed (s.record (.entered propagation false none)) := coupled.wellFormed
  obtain ⟨body, inner⟩ := agrees.pieces _ wellFormed₁
  apply shared_agrees (f (s.record (.entered propagation false none))).2 agrees coupled (by simp)
    (fun suspended => absurd (outside.symm.trans suspended) (by simp)) runs tx_eq
    (enter_plain idle plain) (coupled.record _ (older_outside _)) ⟨rfl, rfl, rfl⟩ leave_plain
    (plain_piece _ idle inner coupled.wellFormed)
  intro w₂ coupled₂
  exact coupled₂.matched.later _

variable {stack : TxStack} {tx : ActiveTx} {rollbackOnly : Bool}

theorem Coupled.pushed (coupled : Coupled s w) (held : s.stack = some stack) {frame : Frame}
    {current : Documented.Current} (marker : ∀ tx rollbackOnly, frame ≠ .real tx rollbackOnly)
    (matched : Matches s.trace (some { stack with frames := frame :: stack.frames }) current) :
    Coupled { s with stack := some { stack with frames := frame :: stack.frames } }
      { w with current } :=
  coupled.restack matched
    (show WellFormed (Session.record _ (.began 0)) from
      pushed_wellFormed coupled.wellFormed held marker)

theorem joinFailed_answered {tx? : Option Nat} {other : Nat} (here : tx? = some other)
    (rolled : outcome.rolledBack = true) (joining : joins propagation = true) :
    joinFailed [answered propagation false tx? outcome] other = true := by
  simp [joinFailed, answered, Entry.failsIn, here, rolled, joining]

theorem joined_agrees (agrees : Agrees f g C) (coupled : Coupled s w) (held : s.stack = some stack)
    (top : active stack.frames = some (tx, rollbackOnly)) (joining : joins propagation = true) :
    AgreesAt (transactionalWithOn sqlxTransactionManager propagation shouldRollback f)
      (transactionalWithOn Documented.documentedManager propagation shouldRollback g)
      (CallConforms propagation shouldRollback g C) s w := by
  have matched := coupled.matched
  rw [held] at matched
  obtain ⟨doomed, within, marked⟩ := (matches_of_active top).mp matched
  have runs : Documented.mode propagation w.current.scope? = .ok .join := by
    rw [within]
    cases propagation <;> first | rfl | cases joining
  have marker : ∀ tx rollbackOnly, Frame.joined ≠ .real tx rollbackOnly := by simp
  let s₁ : Session :=
    Session.record { s with stack := some { stack with frames := .joined :: stack.frames } }
      (.entered propagation false s.current)
  have coupled₁ : Coupled s₁ (w.record (.entered propagation false s.current)) :=
    (coupled.pushed held marker matched).record _ coupled.older_entered
  obtain ⟨body, inner⟩ := agrees.pieces _ coupled₁.wellFormed
  obtain ⟨frames, seq, held₂, piece⟩ := joined_piece (outcomeOf shouldRollback (f s₁).1) held inner
    joining coupled.wellFormed
  apply shared_agrees
    { (f s₁).2 with
      stack := some ⟨if (outcomeOf shouldRollback (f s₁).1).rolledBack then
        mapActive Frame.markRollbackOnly frames else frames, seq⟩ }
    agrees coupled (by simp) (fun suspended => absurd (within.symm.trans suspended) (by simp)) runs
    coupled.tx_eq (enter_joined held joining) coupled₁ ⟨rfl, rfl, rfl⟩ (leave_joined held₂) piece
  intro w₂ coupled₂
  have matched₂ := coupled₂.matched
  rw [held₂] at matched₂
  -- The active transaction is still the one that the call has joined.
  have here : s.current = some tx.id := by rw [current_eq held, top]; rfl
  have same : (f s₁).2.current = s.current := by
    rw [inner.kept.current_eq]
    simp [s₁, Session.current, Session.record, held, activeReal]
  rw [current_eq held₂, here] at same
  obtain ⟨⟨tx', rollbackOnly'⟩, top', id⟩ := Option.map_eq_some_iff.mp same
  have id' : tx'.id = tx.id := id
  have below : active frames = some (tx', rollbackOnly') := top'
  obtain ⟨doomed', within', marked'⟩ := (matches_of_active top').mp matched₂
  cases rolled : (outcomeOf shouldRollback (f s₁).1).rolledBack with
  | false =>
    apply (matches_of_active below).mpr
    refine ⟨doomed', ?_, fun doom => ?_⟩
    · simp [Documented.close, within']
    · rw [joinFailed_append, marked' doom, Bool.true_or]
  | true =>
    rw [if_pos rfl, mapActive_eq _ below rfl]
    apply (matches_of_active (active_setActive below)).mpr
    refine ⟨true, ?_, fun _ => ?_⟩
    · simp [Documented.close, within']
    · rw [joinFailed_append, id', joinFailed_answered here rolled joining, Bool.or_true]

theorem suspending_agrees (agrees : Agrees f g C) (coupled : Coupled s w)
    (held : s.stack = some stack) (top : active stack.frames = some (tx, rollbackOnly)) :
    AgreesAt (transactionalWithOn sqlxTransactionManager .notSupported shouldRollback f)
      (transactionalWithOn Documented.documentedManager .notSupported shouldRollback g)
      (CallConforms .notSupported shouldRollback g C) s w := by
  have matched := coupled.matched
  rw [held] at matched
  obtain ⟨doomed, within, marked⟩ := (matches_of_active top).mp matched
  have runs : Documented.mode .notSupported w.current.scope? = .ok .suspend := by
    rw [within]
    rfl
  have marker : ∀ tx rollbackOnly, Frame.suspended ≠ .real tx rollbackOnly := by simp
  let s₁ : Session :=
    Session.record { s with stack := some { stack with frames := .suspended :: stack.frames } }
      (.entered .notSupported false none)
  have coupled₁ : Coupled s₁ ((Documented.start .suspend w).record
      (.entered .notSupported false none)) :=
    (coupled.pushed held marker rfl).record _ (older_outside _)
  obtain ⟨body, inner⟩ := agrees.pieces _ coupled₁.wellFormed
  obtain ⟨seq, held₂, piece⟩ := suspended_piece (outcomeOf shouldRollback (f s₁).1) held inner
    coupled.wellFormed
  apply shared_agrees { (f s₁).2 with stack := some ⟨stack.frames, seq⟩ } agrees coupled (by simp)
    (fun _ => .inr (.inl rfl)) runs rfl (enter_suspended held) coupled₁ ⟨rfl, rfl, rfl⟩
    (leave_suspended held₂) piece
  intro w₂ coupled₂
  have still : Matches s.trace (some ⟨stack.frames, seq⟩) w.current :=
    (matches_frames rfl).mpr matched
  have later := still.later
    ([.entered .notSupported false none] ++ body ++
      [answered .notSupported false none (outcomeOf shouldRollback (f s₁).1)])
  rw [← piece.extends_trace] at later
  exact later

theorem nested_agrees (agrees : Agrees f g C) (coupled : Coupled s w) (held : s.stack = some stack)
    (top : active stack.frames = some (tx, rollbackOnly)) :
    AgreesAt (transactionalWithOn sqlxTransactionManager .nested shouldRollback f)
      (transactionalWithOn Documented.documentedManager .nested shouldRollback g)
      (CallConforms .nested shouldRollback g C) s w := by
  have matched := coupled.matched
  rw [held] at matched
  obtain ⟨doomed, within, marked⟩ := (matches_of_active top).mp matched
  have runs : Documented.mode .nested w.current.scope? =
      .ok (.savepoint ⟨tx.id, tx.pending, doomed⟩) := by
    rw [within]
    rfl
  let s₁ : Session := pointed stack tx rollbackOnly s
  have coupled₁ : Coupled s₁ (w.record (.entered .nested false s.current)) := by
    have wellFormed₁ := pointed_wellFormed coupled.wellFormed held top
    let stack₁ : TxStack :=
      { frames := .savepoint ::
          setActive (tx.savepoint (stack.savepointSeq + 1)) rollbackOnly stack.frames
        savepointSeq := stack.savepointSeq + 1 }
    have top₁ : active stack₁.frames =
        some (tx.savepoint (stack.savepointSeq + 1), rollbackOnly) := active_setActive top
    have matched₁ : Matches s.trace (some stack₁) w.current := by
      rw [matches_of_active top₁]
      exact ⟨doomed, within, marked⟩
    exact (coupled.restack matched₁ wellFormed₁).record _ coupled.older_entered
  obtain ⟨body, inner⟩ := agrees.pieces _ coupled₁.wellFormed
  obtain ⟨tx', seq, grown, held₂, piece⟩ := nested_piece (outcomeOf shouldRollback (f s₁).1) held
    top inner coupled.wellFormed
  have left : SqlxTransactionManager.leave ⟨.nested (stack.savepointSeq + 1), .nested, s.current⟩
      (.ok (outcomeOf shouldRollback (f s₁).1)) (f s₁).2 = _ :=
    leave_nested held₂ (active_setActive top) grown
  rw [setActive_setActive] at left
  apply shared_agrees _ agrees coupled (by simp)
    (fun suspended => absurd (within.symm.trans suspended) (by simp)) runs
    coupled.tx_eq (enter_nested held top) coupled₁ ?_ left piece
  · intro w₂ coupled₂
    have matched₂ := coupled₂.matched
    rw [held₂] at matched₂
    obtain ⟨doomed', within', marked'⟩ := (matches_of_active (active_setActive top)).mp matched₂
    have id : tx'.id = tx.id := grown.id
    apply (matches_of_active (active_setActive top)).mpr
    cases rolled : (outcomeOf shouldRollback (f s₁).1).rolledBack with
    | false =>
      refine ⟨doomed', ?_, fun doom => ?_⟩
      · simp [Documented.close, within']
      · show joinFailed _ tx'.id = true
        rw [joinFailed_append, marked' doom, Bool.true_or]
    | true =>
      -- What was held against the transaction before the block still is.
      refine ⟨doomed, ?_, fun doom => ?_⟩
      · simp [Documented.close, within', ActiveTx.savepoint, id]
      · show joinFailed ((f s₁).2.trace ++ _) tx.id = true
        rw [joinFailed_append, inner.extends_trace, joinFailed_append]
        have before : joinFailed s₁.trace tx.id = true := by
          show joinFailed (s.trace ++ _) tx.id = true
          rw [joinFailed_append, marked doom, Bool.true_or]
        rw [before, Bool.true_or, Bool.true_or]
  · exact ⟨rfl, rfl, rfl⟩

theorem Piece.frozen {s' : Session} {trace : List Entry} (piece : Piece s s' trace)
    (held : s.stack = some stack) (top : active stack.frames = none) :
    ∃ seq, s'.stack = some ⟨stack.frames, seq⟩ := by
  have kept := piece.kept
  rw [held] at kept
  obtain ⟨stack', held', -, frames⟩ := kept
  rw [top] at frames
  have same : stack'.frames = stack.frames := frames
  exact ⟨stack'.savepointSeq, by rw [held', ← same]⟩

theorem idle_agrees (frame : Frame) (agrees : Agrees f g C) (coupled : Coupled s w)
    {token : Token} (held : s.stack = some stack) (top : active stack.frames = none)
    (idle : propagation = .supports ∨ propagation = .notSupported)
    (marker : ∀ tx rollbackOnly, frame ≠ .real tx rollbackOnly)
    (clear : active (frame :: stack.frames) = none)
    (entered : SqlxTransactionManager.enter propagation s = (.ok token, s₁))
    (pushed : s₁ = Session.record { s with stack := some { stack with frames := frame :: stack.frames } }
      (.entered propagation false none))
    (leaves : ∀ outcome s₂ body, Piece s₁ s₂ body → ∃ seq trace,
      SqlxTransactionManager.leave token (.ok outcome) s₂ =
        (.ok outcome, Session.record { s₂ with stack := some ⟨stack.frames, seq⟩ }
          (answered propagation false none outcome)) ∧
      Piece s (Session.record { s₂ with stack := some ⟨stack.frames, seq⟩ }
        (answered propagation false none outcome)) trace) :
    AgreesAt (transactionalWithOn sqlxTransactionManager propagation shouldRollback f)
      (transactionalWithOn Documented.documentedManager propagation shouldRollback g)
      (CallConforms propagation shouldRollback g C) s w := by
  have matched := coupled.matched
  rw [held] at matched
  have suspended := (matches_of_none top).mp matched
  have runs : Documented.mode propagation w.current.scope? = .ok .plain := by
    rw [suspended]
    rcases idle with rfl | rfl <;> rfl
  have current : s.current = none := by rw [current_eq held, top]; rfl
  have tx_eq : (Documented.start .plain w).tx = none := coupled.tx_eq.trans current
  have coupled₁ : Coupled s₁ (w.record (.entered propagation false none)) := by
    rw [pushed]
    exact (coupled.pushed held marker ((matches_of_none clear).mpr suspended)).record _
      (older_outside _)
  obtain ⟨body, inner⟩ := agrees.pieces _ coupled₁.wellFormed
  have held₁ : s₁.stack = some { stack with frames := frame :: stack.frames } := by rw [pushed]; rfl
  obtain ⟨seq₂, held₂⟩ := inner.frozen held₁ clear
  obtain ⟨seq, trace, left, piece⟩ := leaves (outcomeOf shouldRollback (f s₁).1) _ body inner
  apply shared_agrees { (f s₁).2 with stack := some ⟨stack.frames, seq⟩ } agrees coupled (by simp)
    (fun _ => idle.imp_right .inl) runs tx_eq entered coupled₁ ⟨rfl, rfl, rfl⟩ left piece
  intro w₂ coupled₂
  have matched₂ := coupled₂.matched
  rw [held₂] at matched₂
  have still := (matches_of_none clear).mp matched₂
  exact (matches_of_none top).mpr still

theorem idle_supports (agrees : Agrees f g C) (coupled : Coupled s w) (held : s.stack = some stack)
    (top : active stack.frames = none) :
    AgreesAt (transactionalWithOn sqlxTransactionManager .supports shouldRollback f)
      (transactionalWithOn Documented.documentedManager .supports shouldRollback g)
      (CallConforms .supports shouldRollback g C) s w := by
  have current : s.current = none := by rw [current_eq held, top]; rfl
  have entered := enter_joined held (show joins .supports = true from rfl)
  rw [current] at entered
  apply idle_agrees .joined agrees coupled held top (.inl rfl) (by simp) top entered rfl
  intro outcome s₂ body inner
  rw [← current] at inner
  obtain ⟨seq, frozen⟩ := inner.frozen rfl top
  obtain ⟨frames, seq', held₂, piece⟩ := joined_piece outcome held inner rfl coupled.wellFormed
  obtain ⟨same, -⟩ := TxStack.mk.inj (Option.some.inj (frozen.symm.trans held₂))
  obtain rfl := (List.cons.inj same).2
  rw [mapActive_none _ top, ite_self, current] at piece
  refine ⟨seq', _, ?_, piece⟩
  rw [leave_joined held₂, mapActive_none _ top, ite_self]

theorem idle_notSupported (agrees : Agrees f g C) (coupled : Coupled s w)
    (held : s.stack = some stack) (top : active stack.frames = none) :
    AgreesAt (transactionalWithOn sqlxTransactionManager .notSupported shouldRollback f)
      (transactionalWithOn Documented.documentedManager .notSupported shouldRollback g)
      (CallConforms .notSupported shouldRollback g C) s w := by
  apply idle_agrees .suspended agrees coupled held top (.inr rfl) (by simp) rfl
    (enter_suspended held) rfl
  intro outcome s₂ body inner
  obtain ⟨seq, held₂, piece⟩ := suspended_piece outcome held inner coupled.wellFormed
  exact ⟨seq, _, leave_suspended held₂, piece⟩

theorem refused_agrees {error : TxError} (coupled : Coupled s w)
    (starts : StartsAsDocumented propagation w)
    (refused : SqlxTransactionManager.enter propagation s =
      (.error error, s.record (.refused propagation error)))
    (refuses : Documented.mode propagation w.current.scope? = .error error) :
    AgreesAt (transactionalWithOn sqlxTransactionManager propagation shouldRollback f)
      (transactionalWithOn Documented.documentedManager propagation shouldRollback g)
      (CallConforms propagation shouldRollback g C) s w := by
  have refused' : Documented.enter propagation w =
      (.error error, w.record (.refused propagation error)) := by
    simp only [Documented.enter, refuses]
  have conforms : CallConforms propagation shouldRollback g C w := by
    refine ⟨starts, fun ticket w₁ entered => ?_⟩
    cases refused'.symm.trans entered
  unfold AgreesAt
  rw [call_of_refused refused, call_of_refused refused']
  refine ⟨fun _ => ⟨rfl, coupled.record _ ?_⟩, fun fails => absurd conforms fails⟩
  intro entry member tx here
  rw [List.mem_singleton.mp member] at here
  cases here

theorem astray_agrees (agrees : Agrees f g C) (coupled : Coupled s w) (held : s.stack = some stack)
    (top : active stack.frames = none)
    (astray : propagation = .required ∨ propagation = .mandatory ∨ propagation = .never ∨
      propagation = .nested) :
    AgreesAt (transactionalWithOn sqlxTransactionManager propagation shouldRollback f)
      (transactionalWithOn Documented.documentedManager propagation shouldRollback g)
      (CallConforms propagation shouldRollback g C) s w := by
  have matched := coupled.matched
  rw [held] at matched
  have suspended := (matches_of_none top).mp matched
  have fails : ¬ CallConforms propagation shouldRollback g C w := by
    rintro ⟨starts, -⟩
    have allowed := starts suspended
    rcases astray with rfl | rfl | rfl | rfl <;> simp at allowed
  refine ⟨fun conforms => absurd conforms fails, fun _ => ?_⟩
  -- The first entry of the call tells the sides apart.
  have parted (one other : Entry) (apart : one ≠ other)
      (code : s.trace ++ [one] <+: (transactionalWithOn sqlxTransactionManager propagation
        shouldRollback f s).2.trace)
      (documented : w.trace ++ [other] <+: (Documented.enter propagation w).2.trace) :
      Diverged (transactionalWithOn sqlxTransactionManager propagation shouldRollback f s).2.trace
        (transactionalWithOn Documented.documentedManager propagation shouldRollback g w).2.trace := by
    rw [coupled.trace] at documented
    exact (diverged_concat s.trace apart).extend code
      (documented.trans (meaning_call_enter agrees.extend w))
  have joins_none (joining : joins propagation = true) :
      s.trace ++ [.entered propagation false s.current] <+: (transactionalWithOn
        sqlxTransactionManager propagation shouldRollback f s).2.trace := by
    have marker : ∀ tx rollbackOnly, Frame.joined ≠ .real tx rollbackOnly := by simp
    obtain ⟨body, inner⟩ := agrees.pieces _ (pushed_wellFormed coupled.wellFormed held marker)
    obtain ⟨seq, held₂⟩ := inner.frozen rfl top
    have grown : s.trace ++ [.entered propagation false s.current] <+: (f _).2.trace :=
      ⟨body, inner.extends_trace.symm⟩
    rw [call_of_entered (enter_joined held joining) (leave_joined held₂)]
    exact grown.trans (List.prefix_append _ _)
  have begins (opens : Documented.mode propagation w.current.scope? = .ok .own) :
      w.trace ++ [.began w.nextTx] <+: (Documented.enter propagation w).2.trace := by
    rw [meaning_enter opens]
    exact List.prefix_append _ _
  rcases astray with rfl | rfl | rfl | rfl
  · exact parted _ _ (by simp) (joins_none rfl) (begins (by rw [suspended]; rfl))
  · refine parted _ (.refused .mandatory SqlxTransactionManager.mandatoryError) (by simp)
      (joins_none rfl) ?_
    simp [Documented.enter, suspended, Documented.Current.scope?, Documented.mode,
      Documented.World.record]
  · refine parted (.refused .never SqlxTransactionManager.neverError) (.entered .never false none)
      (by simp) ?_ ?_
    · rw [call_of_refused (enter_never held)]
      exact List.prefix_refl _
    · simp [Documented.enter, suspended, Documented.Current.scope?, Documented.mode,
        Documented.World.record, Documented.start, Documented.Mode.owns, Documented.World.tx]
  · refine parted (.refused .nested SqlxTransactionManager.nestedError) _ (by simp) ?_
      (begins (by rw [suspended]; rfl))
    rw [call_of_refused (enter_nested_none held top)]
    exact List.prefix_refl _

variable (propagation shouldRollback) in
theorem call_agrees (agrees : Agrees f g C) :
    Agrees (transactionalWithOn sqlxTransactionManager propagation shouldRollback f)
      (transactionalWithOn Documented.documentedManager propagation shouldRollback g)
      (CallConforms propagation shouldRollback g C) where
  pieces s wellFormed := call_piece propagation shouldRollback agrees.pieces wellFormed
  extend w := (meaning_enter_extend propagation w).trans (meaning_call_enter agrees.extend w)
  agree s w coupled := by
    have matched := coupled.matched
    cases held : s.stack with
    | none =>
      rw [held] at matched
      have outside : w.current = .outside := matched
      cases propagation with
      | required => exact root_agrees agrees coupled held (.inl rfl)
      | requiresNew => exact root_agrees agrees coupled held (.inr (.inl rfl))
      | nested => exact root_agrees agrees coupled held (.inr (.inr rfl))
      | never => exact plain_agrees agrees coupled held (.inl rfl)
      | notSupported => exact plain_agrees agrees coupled held (.inr (.inl rfl))
      | supports => exact plain_agrees agrees coupled held (.inr (.inr rfl))
      | mandatory =>
        apply refused_agrees coupled _ (enter_mandatory held) (by rw [outside]; rfl)
        intro suspended
        cases outside.symm.trans suspended
    | some stack =>
      rw [held] at matched
      cases top : active stack.frames with
      | none =>
        cases propagation with
        | required => exact astray_agrees agrees coupled held top (.inl rfl)
        | mandatory => exact astray_agrees agrees coupled held top (.inr (.inl rfl))
        | never => exact astray_agrees agrees coupled held top (.inr (.inr (.inl rfl)))
        | nested => exact astray_agrees agrees coupled held top (.inr (.inr (.inr rfl)))
        | requiresNew => exact requiresNew_agrees agrees coupled held
        | supports => exact idle_supports agrees coupled held top
        | notSupported => exact idle_notSupported agrees coupled held top
      | some pair =>
        obtain ⟨tx, rollbackOnly⟩ := pair
        obtain ⟨doomed, within, -⟩ := (matches_of_active top).mp matched
        cases propagation with
        | required => exact joined_agrees agrees coupled held top rfl
        | supports => exact joined_agrees agrees coupled held top rfl
        | mandatory => exact joined_agrees agrees coupled held top rfl
        | requiresNew => exact requiresNew_agrees agrees coupled held
        | nested => exact nested_agrees agrees coupled held top
        | notSupported => exact suspending_agrees agrees coupled held top
        | never =>
          apply refused_agrees coupled _ (enter_never held) (by rw [within]; rfl)
          intro suspended
          cases within.symm.trans suspended

end Calls

theorem Agrees.congr {f : Session → Except TxError Unit × Session}
    {g : Documented.World → Except TxError Unit × Documented.World} {C D : Documented.World → Prop}
    (agrees : Agrees f g C) (same : ∀ w, C w ↔ D w) : Agrees f g D :=
  have equal : C = D := funext fun w => propext (same w)
  equal ▸ agrees

theorem run_agrees (program : Program) :
    Agrees (run program) (Documented.meaning program) (Conforms program) := by
  induction program with
  | done result => exact done_agrees result
  | statement sql next after =>
    apply ((statement_agrees sql).bind fun _ => after).congr
    intro w
    exact iff_of_eq (true_and _)
  | call propagation shouldRollback body next inside after =>
    apply ((call_agrees propagation shouldRollback inside).bind after).congr
    intro w
    exact and_assoc

/-- What a program leaves in the database, what its calls return, and in which transaction
everything runs. -/
def MeansItsModes (program : Program) : Prop :=
  (run program {}).1 = (Documented.meaning program {}).1 ∧
    (run program {}).2.committed = (Documented.meaning program {}).2.committed ∧
    (run program {}).2.trace = (Documented.meaning program {}).2.trace

theorem modes_meant_iff (program : Program) : MeansItsModes program ↔ Conforms program {} := by
  have coupled : Coupled {} {} :=
    ⟨rfl, rfl, rfl, by simp [Older], rfl, by intro stack held; cases held⟩
  obtain ⟨same, apart⟩ := (run_agrees program).agree {} {} coupled
  constructor
  · rintro ⟨-, -, trace⟩
    by_contra fails
    exact (apart fails).ne trace
  · intro conforms
    obtain ⟨result, after⟩ := same conforms
    exact ⟨result, after.committed.symm, after.trace.symm⟩

def unprotected : Program :=
  .call .required (fun _ => true)
    (.call .notSupported (fun _ => true)
      (.call .required (fun _ => true)
        (.statement "insert" (.done (.error (.application "inner")))) fun _ => .done (.ok ()))
      .done) .done

def doomedByBlock : Program :=
  .call .required (fun _ => true)
    (.call .nested (fun _ => true)
      (.call .required (fun _ => true) (.done (.error (.application "inner"))) .done)
      fun _ => .statement "insert" (.done (.ok ()))) .done

theorem modes_not_meant :
    ((run unprotected {}).2.committed = ["insert"] ∧
        (Documented.meaning unprotected {}).2.committed = [] ∧ ¬ MeansItsModes unprotected) ∧
      (run doomedByBlock {}).2.committed = [] ∧
        (Documented.meaning doomedByBlock {}).2.committed = ["insert"] ∧
        ¬ MeansItsModes doomedByBlock := by
  have code : (run unprotected {}).2.committed = ["insert"] := by decide
  have documented : (Documented.meaning unprotected {}).2.committed = [] := by decide
  have code' : (run doomedByBlock {}).2.committed = [] := by decide
  have documented' : (Documented.meaning doomedByBlock {}).2.committed = ["insert"] := by decide
  refine ⟨⟨code, documented, fun means => ?_⟩, code', documented', fun means => ?_⟩
  · have same := means.2.1
    rw [code, documented] at same
    cases same
  · have same := means.2.1
    rw [code', documented'] at same
    cases same

end Firefly.DataSqlx
