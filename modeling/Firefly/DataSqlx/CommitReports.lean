import Firefly.DataSqlx.TxRuns

set_option autoImplicit false

namespace Firefly.DataSqlx

open Transactional SqlxTransactionManager

section Call

variable {propagation : Propagation} {outcome : TxOutcome} {s s₂ : Session} {body : List Entry}
  {stack : TxStack}

theorem about_entered {tx? : Option Nat} {owner : Bool} {entry : Entry}
    (member : entry ∈ [.entered propagation owner tx?] ++ [answered propagation owner tx? outcome])
    {tx : Nat} (here : entry.about = some tx) : tx? = some tx := by
  rcases List.mem_append.mp member with first | last
  · rw [List.mem_singleton.mp first] at here
    exact here
  · rw [List.mem_singleton.mp last] at here
    exact here

theorem joinFailed_around {tx? : Option Nat} (tx : Nat) (body : List Entry) :
    joinFailed ([.entered propagation false tx?] ++ body ++
      [answered propagation false tx? outcome]) tx =
        (joinFailed body tx || (outcome.rolledBack && joins propagation && tx? = some tx)) := by
  cases tx? <;> cases rolled : outcome.rolledBack <;>
    simp [joinFailed, answered, Entry.failsIn, rolled]

variable (outcome) in
theorem plain_piece (idle : s.stack = none)
    (inner : Piece (s.record (.entered propagation false none)) s₂ body)
    (wellFormed : WellFormed s) :
    Piece s (s₂.record (answered propagation false none outcome))
      ([.entered propagation false none] ++ body ++ [answered propagation false none outcome]) := by
  refine inner.wrap wellFormed ?_ le_rfl rfl ?_ ?_ ?_ (by simp [Commits, answered]) ?_
  · simp [Session.record, inner.extends_trace]
  · rw [idle]
    have kept := inner.kept
    rw [show (s.record (.entered propagation false none)).stack = none from idle] at kept
    exact kept
  · intro entry member tx here
    cases about_entered member here
  · intro tx same
    exact .inl same
  · simp [answered]

variable (outcome) in
theorem joined_piece (held : s.stack = some stack)
    (inner : Piece (Session.record
      { s with stack := some { stack with frames := .joined :: stack.frames } }
      (.entered propagation false s.current)) s₂ body)
    (joining : joins propagation = true) (wellFormed : WellFormed s) :
    ∃ frames' seq, s₂.stack = some ⟨.joined :: frames', seq⟩ ∧
      Piece s (Session.record
        { s₂ with
          stack := some ⟨if outcome.rolledBack then mapActive Frame.markRollbackOnly frames'
            else frames', seq⟩ } (answered propagation false s.current outcome))
        ([.entered propagation false s.current] ++ body ++
          [answered propagation false s.current outcome]) := by
  obtain ⟨after, held₂, evolved⟩ := inner.kept
  obtain ⟨frames', after_eq, below⟩ := evolved_under (.inl rfl) evolved
  refine ⟨frames', after.savepointSeq, by rw [held₂, after_eq], ?_⟩
  refine inner.wrap wellFormed ?_ le_rfl rfl ?_ ?_ ?_ (by simp [Commits, answered]) ?_
  · simp [Session.record, inner.extends_trace]
  · rw [held]
    refine ⟨_, rfl, below.1, ?_⟩
    have shape := below.2
    have current := current_eq held
    cases top : active stack.frames with
    | none =>
      simp only [top] at shape ⊢
      subst shape
      split
      · rw [mapActive_none _ top]
      · rfl
    | some pair =>
      obtain ⟨tx, rollbackOnly⟩ := pair
      simp only [top] at shape ⊢
      obtain ⟨tx', grown, rfl⟩ := shape
      rw [top] at current
      refine ⟨tx', grown, ?_⟩
      rw [joinFailed_around, joining, current]
      cases rolled : outcome.rolledBack with
      | false => simp
      | true =>
        rw [if_pos rfl, mapActive_eq _ (active_setActive top) rfl, setActive_setActive]
        simp
  · intro entry member tx here
    exact .inl (about_entered member here)
  · intro tx same
    left
    rw [← same]
    simp [Session.current, Session.record, held, activeReal]
  · simp [answered]

variable (outcome) in
theorem suspended_piece (held : s.stack = some stack)
    (inner : Piece (Session.record
      { s with stack := some { stack with frames := .suspended :: stack.frames } }
      (.entered .notSupported false none)) s₂ body) (wellFormed : WellFormed s) :
    ∃ seq, s₂.stack = some ⟨.suspended :: stack.frames, seq⟩ ∧
      Piece s (Session.record { s₂ with stack := some ⟨stack.frames, seq⟩ }
        (answered .notSupported false none outcome))
        ([.entered .notSupported false none] ++ body ++
          [answered .notSupported false none outcome]) := by
  obtain ⟨after, held₂, evolved⟩ := inner.kept
  obtain ⟨later, frames⟩ := evolved_suspended evolved
  refine ⟨after.savepointSeq, by rw [held₂, ← frames], ?_⟩
  refine inner.wrap wellFormed ?_ le_rfl rfl ?_ ?_ ?_ (by simp [Commits, answered]) ?_
  · simp [Session.record, inner.extends_trace]
  · rw [held]
    refine ⟨_, rfl, evolved_same stack _ _ _ later rfl ?_⟩
    intro tx rollbackOnly top
    rw [joinFailed_around, joinFailed_of_about]
    · simp
    · intro entry member here
      have older := wellFormed stack held tx rollbackOnly (active_mem top)
      rcases inner.about entry member _ here with same | range
      · cases same
      · exact absurd older (Nat.not_lt_of_le range.1)
  · intro entry member tx here
    cases about_entered member here
  · intro tx same
    cases same
  · simp [answered]

variable (outcome) in
theorem nested_piece {tx : ActiveTx} {rollbackOnly : Bool} (held : s.stack = some stack)
    (top : active stack.frames = some (tx, rollbackOnly))
    (inner : Piece (pointed stack tx rollbackOnly s) s₂ body) (wellFormed : WellFormed s) :
    ∃ tx' seq, Grown (stack.savepointSeq + 1) (tx.savepoint (stack.savepointSeq + 1)) tx' ∧
      s₂.stack = some ⟨.savepoint ::
        setActive tx' (rollbackOnly || joinFailed body tx.id) stack.frames, seq⟩ ∧
      Piece s (Session.record
        { s₂ with
          stack := some ⟨setActive (if outcome.rolledBack then
              tx.savepoint (stack.savepointSeq + 1) else { tx' with savepoints := tx.savepoints })
            (rollbackOnly || joinFailed body tx.id) stack.frames, seq⟩ }
        (answered .nested false s.current outcome))
        ([.entered .nested false s.current] ++ body ++
          [answered .nested false s.current outcome]) := by
  obtain ⟨after, held₂, evolved⟩ := inner.kept
  obtain ⟨frames', after_eq, below⟩ := evolved_under (.inr rfl) evolved
  obtain ⟨later, shape⟩ := below
  simp only [active_setActive top] at shape
  obtain ⟨tx', grown, rfl⟩ := shape
  have id : tx'.id = tx.id := grown.id
  refine ⟨tx', after.savepointSeq, grown, ?_, ?_⟩
  · rw [held₂, after_eq, setActive_setActive]
    rfl
  refine inner.wrap wellFormed ?_ le_rfl rfl ?_ ?_ ?_ (by simp [Commits, answered]) ?_
  · simp [pointed, Session.record, inner.extends_trace]
  · rw [held]
    refine ⟨_, rfl, (Nat.le_succ _).trans later, ?_⟩
    simp only [top, joinFailed_around, joins, Bool.and_false, Bool.false_and, Bool.or_false]
    cases outcome.rolledBack with
    | true => exact ⟨_, grown_savepoint (Nat.lt_succ_self _) tx, rfl⟩
    | false => exact ⟨_, grown_released grown, rfl⟩
  · intro entry member other here
    exact .inl (about_entered member here)
  · intro other same
    left
    rw [← same, current_eq held, top]
    simp [pointed, Session.current, Session.record, activeReal_eq, active, active_setActive top,
      ActiveTx.savepoint]
  · simp [answered]

def lastEntry (outcome : TxOutcome) (tx : ActiveTx) (rollbackOnly : Bool) : Entry :=
  if outcome.rolledBack || rollbackOnly then .rolledBack tx.id else .committed tx.id tx.pending

@[simp] theorem finish_trace (tx : ActiveTx) (rollbackOnly : Bool) :
    (finish (.ok outcome) tx rollbackOnly s).trace =
      s.trace ++ [lastEntry outcome tx rollbackOnly] := by
  unfold finish lastEntry rollsBack
  cases outcome.rolledBack || rollbackOnly <;> rfl

@[simp] theorem finish_stack (tx : ActiveTx) (rollbackOnly : Bool) :
    (finish (.ok outcome) tx rollbackOnly s).stack = s.stack := by
  simp only [finish]
  split <;> rfl

@[simp] theorem finish_nextTx (tx : ActiveTx) (rollbackOnly : Bool) :
    (finish (.ok outcome) tx rollbackOnly s).nextTx = s.nextTx := by
  simp only [finish]
  split <;> rfl

def ownedTrace (propagation : Propagation) (outcome : TxOutcome) (tx : ActiveTx)
    (body : List Entry) : List Entry :=
  [.began tx.id, .entered propagation true (some tx.id)] ++ body ++
    [lastEntry outcome tx (joinFailed body tx.id), answered propagation true (some tx.id) outcome]

theorem about_owned {tx : ActiveTx} {rollbackOnly : Bool} {entry : Entry}
    (member : entry ∈ [.began tx.id, .entered propagation true (some tx.id)] ++
      [lastEntry outcome tx rollbackOnly, answered propagation true (some tx.id) outcome]) :
    entry.about = some tx.id := by
  simp only [List.cons_append, List.nil_append, List.mem_cons, List.not_mem_nil, or_false]
    at member
  rcases member with rfl | rfl | rfl | rfl
  · rfl
  · rfl
  · rw [lastEntry]
    split <;> rfl
  · rfl

theorem joinFailed_owned (tx : ActiveTx) (body : List Entry) (other : Nat) :
    joinFailed (ownedTrace propagation outcome tx body) other = joinFailed body other := by
  have head : joinFailed [.began tx.id, .entered propagation true (some tx.id)] other = false := rfl
  have tail : joinFailed [lastEntry outcome tx (joinFailed body tx.id),
      answered propagation true (some tx.id) outcome] other = false := by
    rw [lastEntry]
    split <;> rfl
  rw [ownedTrace, joinFailed_append, joinFailed_append, head, tail, Bool.false_or, Bool.or_false]

theorem ended_owned (tx : ActiveTx) (body : List Entry) (unfinished : ¬ Commits body tx.id) :
    Ended (ownedTrace propagation outcome tx body) tx.id outcome.rolledBack
      (.ok outcome.rolledBack) := by
  refine ⟨rfl, ?_⟩
  rw [joinFailed_owned]
  have none : ¬ Commits [.began tx.id, .entered propagation true (some tx.id)] tx.id := by
    simp [Commits]
  rw [ownedTrace, commits_append, commits_append]
  simp only [none, unfinished, false_or]
  cases rolled : outcome.rolledBack <;> cases marked : joinFailed body tx.id <;>
    simp [Commits, lastEntry, answered, rolled]

theorem owned_piece {s₁ s₃ : Session} {tx : ActiveTx} (wellFormed : WellFormed s)
    (inner : Piece s₁ s₂ body) (id : tx.id = s.nextTx) (current : s₁.current = some s.nextTx)
    (trace₁ : s₁.trace = s.trace ++ [.began tx.id, .entered propagation true (some tx.id)])
    (next₁ : s₁.nextTx = s.nextTx + 1) (next₃ : s₃.nextTx = s₂.nextTx)
    (trace₃ : s₃.trace = s₂.trace ++ [lastEntry outcome tx (joinFailed body tx.id),
      answered propagation true (some tx.id) outcome])
    (kept : Kept (ownedTrace propagation outcome tx body) s.stack s₃.stack) :
    Piece s s₃ (ownedTrace propagation outcome tx body) := by
  have range : s.nextTx ≤ tx.id ∧ tx.id < s₁.nextTx := by
    rw [id, next₁]
    exact ⟨le_rfl, Nat.lt_succ_self _⟩
  refine inner.wrap wellFormed ?_ (by rw [next₁]; exact Nat.le_succ _) next₃ kept ?_ ?_ ?_ ?_
  · simp [trace₃, inner.extends_trace, trace₁]
  · intro entry member other here
    rw [about_owned member] at here
    exact .inr (Option.some.inj here ▸ range)
  · intro other same
    rw [current, ← id] at same
    exact .inr (Option.some.inj same ▸ range)
  · rintro other ⟨durable, member⟩
    have here := about_owned member
    exact Option.some.inj here ▸ range.1
  · intro propagation' other failed answer member
    have here := about_owned member
    obtain rfl : other = tx.id := Option.some.inj here
    have unfinished : ¬ Commits body tx.id := by
      intro commits
      exact absurd (inner.fresh _ commits) (Nat.not_le_of_lt range.2)
    obtain ⟨-, -, rfl, rfl⟩ :
        propagation' = propagation ∧ tx.id = tx.id ∧ failed = outcome.rolledBack ∧
          answer = .ok outcome.rolledBack := by
      have shapes : ∀ entry : Entry, lastEntry outcome tx (joinFailed body tx.id) = entry →
          entry ≠ .answered propagation' true (some tx.id) failed answer := by
        rintro entry rfl
        rw [lastEntry]
        split <;> simp
      simpa [answered, shapes _ rfl |>.symm] using member
    exact ⟨range, ended_owned tx body unfinished⟩

variable (outcome) in
theorem root_piece (idle : s.stack = none)
    (inner : Piece (opened propagation s) s₂ body) (wellFormed : WellFormed s) :
    ∃ tx seq, tx.id = s.nextTx ∧
      s₂.stack = some ⟨[.real tx (joinFailed body tx.id)], seq⟩ ∧
      Piece s ((finish (.ok outcome) tx (joinFailed body tx.id) { s₂ with stack := none }).record
        (answered propagation true (some s.nextTx) outcome))
        (ownedTrace propagation outcome tx body) := by
  obtain ⟨after, held₂, evolved⟩ := inner.kept
  obtain ⟨tx', grown, -, frames⟩ := evolved_real evolved
  have id : tx'.id = s.nextTx := grown.id
  simp only [Bool.false_or] at frames
  refine ⟨tx', after.savepointSeq, id, ?_, ?_⟩
  · rw [held₂, id, ← frames]
  apply owned_piece wellFormed inner id
  · simp [opened, Session.current, Session.record, activeReal]
  · simp [opened, Session.record, id]
  · rfl
  · simp [Session.record]
  · simp [Session.record, id]
  · rw [idle]
    exact finish_stack _ _

variable (outcome) in
theorem requiresNew_piece (held : s.stack = some stack)
    (inner : Piece (stacked stack .requiresNew s) s₂ body) (wellFormed : WellFormed s) :
    ∃ tx seq, tx.id = s.nextTx ∧
      s₂.stack = some ⟨.real tx (joinFailed body tx.id) :: stack.frames, seq⟩ ∧
      Piece s ((finish (.ok outcome) tx (joinFailed body tx.id)
          { s₂ with stack := some ⟨stack.frames, seq⟩ }).record
        (answered .requiresNew true (some s.nextTx) outcome))
        (ownedTrace .requiresNew outcome tx body) := by
  obtain ⟨after, held₂, evolved⟩ := inner.kept
  obtain ⟨tx', grown, later, frames⟩ := evolved_real evolved
  have id : tx'.id = s.nextTx := grown.id
  simp only [Bool.false_or] at frames
  refine ⟨tx', after.savepointSeq, id, ?_, ?_⟩
  · rw [held₂, id, ← frames]
  apply owned_piece wellFormed inner id
  · simp [stacked, Session.current, Session.record, activeReal]
  · simp [stacked, Session.record, id]
  · rfl
  · simp [Session.record]
  · simp [Session.record, id]
  · rw [held]
    refine ⟨_, finish_stack _ _, evolved_same stack _ _ _ later rfl ?_⟩
    intro older rollbackOnly top
    have before := wellFormed stack held older rollbackOnly (active_mem top)
    rw [joinFailed_owned, joinFailed_of_about]
    intro entry member here
    rcases inner.about entry member _ here with same | range
    · have same' : s.nextTx = older.id := by
        simpa [stacked, Session.current, Session.record, activeReal] using same
      exact absurd before (Nat.not_lt_of_le same'.le)
    · have range' : s.nextTx + 1 ≤ older.id := range.1
      exact absurd before (Nat.not_lt_of_le ((Nat.le_succ _).trans range'))

end Call

theorem refused_piece {s : Session} {stack : Option TxStack} (entry : Entry)
    (about : entry.about = none) (kept : Kept [] s.stack stack) :
    Piece s (Session.record { s with stack } entry) [entry] := by
  refine ⟨rfl, le_rfl, ?_, ?_, ?_, ?_⟩
  · have unmarked (tx : Nat) : joinFailed [entry] tx = joinFailed [] tx := by
      rw [joinFailed_of_about]
      · rfl
      · intro other member here
        rw [List.mem_singleton.mp member, about] at here
        cases here
    cases held : s.stack with
    | none =>
      rw [held] at kept
      exact kept
    | some before =>
      rw [held] at kept
      obtain ⟨after, same, later, shape⟩ := kept
      refine ⟨after, same, later, ?_⟩
      cases top : active before.frames with
      | none =>
        rw [top] at shape
        exact shape
      | some pair =>
        rw [top] at shape
        simpa only [unmarked] using shape
  · intro other member tx here
    rw [List.mem_singleton.mp member, about] at here
    cases here
  · rintro tx ⟨durable, member⟩
    rw [← List.mem_singleton.mp member] at about
    cases about
  · intro propagation tx failed answer member
    rw [← List.mem_singleton.mp member] at about
    cases about

section Programs

variable {propagation : Propagation} {shouldRollback : TxError → Bool}
  {f : Session → Except TxError Unit × Session} {s : Session}

theorem opened_wellFormed (propagation : Propagation) (s : Session) :
    WellFormed (opened propagation s) := by
  rintro stack held tx rollbackOnly member
  obtain rfl := Option.some.inj held
  obtain ⟨rfl, -⟩ : tx = { id := s.nextTx } ∧ _ := by simpa using member
  exact Nat.lt_succ_self _

theorem stacked_wellFormed {stack : TxStack} (wellFormed : WellFormed s)
    (held : s.stack = some stack) : WellFormed (stacked stack .requiresNew s) := by
  rintro stack' held' tx rollbackOnly member
  obtain rfl := Option.some.inj held'
  rcases List.mem_cons.mp member with here | below
  · obtain ⟨rfl, -⟩ := Frame.real.inj here
    exact Nat.lt_succ_self _
  · exact (wellFormed stack held tx rollbackOnly below).trans (Nat.lt_succ_self _)

theorem pushed_wellFormed {stack : TxStack} {frame : Frame} {entry : Entry}
    (wellFormed : WellFormed s) (held : s.stack = some stack)
    (marker : ∀ tx rollbackOnly, frame ≠ .real tx rollbackOnly) :
    WellFormed (Session.record
      { s with stack := some { stack with frames := frame :: stack.frames } } entry) := by
  rintro stack' held' tx rollbackOnly member
  obtain rfl := Option.some.inj held'
  rcases List.mem_cons.mp member with here | below
  · exact absurd here.symm (marker tx rollbackOnly)
  · exact wellFormed stack held tx rollbackOnly below

theorem pointed_wellFormed {stack : TxStack} {tx : ActiveTx} {rollbackOnly : Bool}
    (wellFormed : WellFormed s) (held : s.stack = some stack)
    (top : active stack.frames = some (tx, rollbackOnly)) :
    WellFormed (pointed stack tx rollbackOnly s) := by
  rintro stack' held' other mark member
  obtain rfl := Option.some.inj held'
  rcases List.mem_cons.mp member with here | below
  · cases here
  · rcases mem_setActive below with before | here
    · exact wellFormed stack held other mark before
    · obtain ⟨rfl, -⟩ := Frame.real.inj here
      exact wellFormed stack held tx rollbackOnly (active_mem top)

variable (propagation shouldRollback) in
theorem call_piece (bodies : ∀ s, WellFormed s → ∃ body, Piece s (f s).2 body)
    (wellFormed : WellFormed s) :
    ∃ trace, Piece s
      (transactionalWithOn sqlxTransactionManager propagation shouldRollback f s).2 trace := by
  cases held : s.stack with
  | none =>
    have openly (opens : propagation = .required ∨ propagation = .requiresNew ∨
        propagation = .nested) : ∃ trace, Piece s (transactionalWithOn sqlxTransactionManager
          propagation shouldRollback f s).2 trace := by
      obtain ⟨body, inner⟩ := bodies _ (opened_wellFormed propagation s)
      obtain ⟨tx, seq, id, held₂, piece⟩ := root_piece (outcomeOf shouldRollback
        (f (opened propagation s)).1) held inner wellFormed
      rw [call_entered (enter_root held opens), leave_root held₂]
      exact ⟨_, piece⟩
    have plainly (plain : propagation = .never ∨ propagation = .notSupported ∨
        propagation = .supports) : ∃ trace, Piece s (transactionalWithOn sqlxTransactionManager
          propagation shouldRollback f s).2 trace := by
      obtain ⟨body, inner⟩ := bodies (s.record (.entered propagation false none)) wellFormed
      rw [call_entered (enter_plain held plain), leave_plain]
      exact ⟨_, plain_piece (outcomeOf shouldRollback (f _).1) held inner wellFormed⟩
    cases propagation with
    | required => exact openly (.inl rfl)
    | requiresNew => exact openly (.inr (.inl rfl))
    | nested => exact openly (.inr (.inr rfl))
    | never => exact plainly (.inl rfl)
    | notSupported => exact plainly (.inr (.inl rfl))
    | supports => exact plainly (.inr (.inr rfl))
    | mandatory =>
      rw [call_refused (enter_mandatory held)]
      exact ⟨_, refused_piece _ rfl (Kept.refl s.stack)⟩
  | some stack =>
    have joined (joining : joins propagation = true) : ∃ trace, Piece s (transactionalWithOn
        sqlxTransactionManager propagation shouldRollback f s).2 trace := by
      have pushed : ∀ tx rollbackOnly, Frame.joined ≠ .real tx rollbackOnly := by simp
      obtain ⟨body, inner⟩ := bodies _ (pushed_wellFormed wellFormed held pushed)
      obtain ⟨frames, seq, held₂, piece⟩ := joined_piece (outcomeOf shouldRollback (f _).1) held
        inner joining wellFormed
      rw [call_entered (enter_joined held joining), leave_joined held₂]
      exact ⟨_, piece⟩
    cases propagation with
    | required => exact joined rfl
    | supports => exact joined rfl
    | mandatory => exact joined rfl
    | never =>
      rw [call_refused (enter_never held)]
      exact ⟨_, refused_piece _ rfl (Kept.refl s.stack)⟩
    | notSupported =>
      have pushed : ∀ tx rollbackOnly, Frame.suspended ≠ .real tx rollbackOnly := by simp
      obtain ⟨body, inner⟩ := bodies _ (pushed_wellFormed wellFormed held pushed)
      obtain ⟨seq, held₂, piece⟩ := suspended_piece (outcomeOf shouldRollback (f _).1) held
        inner wellFormed
      rw [call_entered (enter_suspended held), leave_suspended held₂]
      exact ⟨_, piece⟩
    | requiresNew =>
      obtain ⟨body, inner⟩ := bodies _ (stacked_wellFormed wellFormed held)
      obtain ⟨tx, seq, id, held₂, piece⟩ := requiresNew_piece (outcomeOf shouldRollback (f _).1)
        held inner wellFormed
      rw [call_entered (enter_requiresNew held), leave_requiresNew held₂]
      exact ⟨_, piece⟩
    | nested =>
      cases top : active stack.frames with
      | none =>
        rw [call_refused (enter_nested_none held top)]
        refine ⟨_, refused_piece _ rfl ?_⟩
        rw [held]
        exact ⟨_, rfl, Nat.le_succ _, by rw [top]⟩
      | some pair =>
        obtain ⟨tx, rollbackOnly⟩ := pair
        obtain ⟨body, inner⟩ := bodies _ (pointed_wellFormed wellFormed held top)
        obtain ⟨tx', seq, grown, held₂, piece⟩ := nested_piece
          (outcomeOf shouldRollback (f _).1) held top inner wellFormed
        rw [call_entered (enter_nested held top),
          leave_nested held₂ (active_setActive top) grown, setActive_setActive]
        exact ⟨_, piece⟩

theorem run_piece (program : Program) :
    ∀ s, WellFormed s → ∃ trace, Piece s (run program s).2 trace := by
  induction program with
  | done result => exact fun s _ => ⟨[], Piece.refl s⟩
  | statement sql next after =>
    intro s wellFormed
    have piece := statement_piece sql s
    obtain ⟨trace, rest⟩ := after _ (piece.wellFormed wellFormed)
    exact ⟨_, piece.trans rest wellFormed⟩
  | call propagation shouldRollback body next inside after =>
    intro s wellFormed
    obtain ⟨trace, piece⟩ := call_piece propagation shouldRollback inside wellFormed
    obtain ⟨rest, last⟩ := after _ _ (piece.wellFormed wellFormed)
    exact ⟨_, piece.trans last wellFormed⟩

end Programs

/-- Whoever owned a transaction hears of a commit, and its listeners do, exactly when it was
committed. -/
def HonestReports (trace : List Entry) : Prop :=
  ∀ propagation tx failed answer, .answered propagation true (some tx) failed answer ∈ trace →
    (answer = .ok false ↔ Commits trace tx) ∧
      (completionPhase answer = .afterCommit ↔ Commits trace tx)

def OwnersYield (trace : List Entry) : Prop :=
  ∀ propagation tx answer, .answered propagation true (some tx) false answer ∈ trace →
    joinFailed trace tx = false

theorem completionPhase_ok (failed : Bool) :
    completionPhase (.ok failed) = .afterCommit ↔ failed = false := by
  cases failed <;> simp [completionPhase]

def swallowed : Program :=
  .call .required (fun _ => true)
    (.call .required (fun _ => true) (.done (.error (.application "inner"))) fun _ =>
      .done (.ok ())) .done

end Firefly.DataSqlx
