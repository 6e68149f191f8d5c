import Firefly.DataSqlx.TxFrames

set_option autoImplicit false

namespace Firefly.DataSqlx

open Transactional SqlxTransactionManager

def Entry.about : Entry → Option Nat
  | .began tx | .committed tx _ | .rolledBack tx => some tx
  | .executed _ tx | .entered _ _ tx | .answered _ _ tx _ _ => tx
  | .refused _ _ => none

def joins : Propagation → Bool
  | .required | .supports | .mandatory => true
  | _ => false

def Entry.failsIn (tx : Nat) : Entry → Bool
  | .answered propagation false (some other) true _ => joins propagation && other = tx
  | _ => false

def joinFailed (trace : List Entry) (tx : Nat) : Bool :=
  trace.any (Entry.failsIn tx)

def Commits (trace : List Entry) (tx : Nat) : Prop :=
  ∃ durable, .committed tx durable ∈ trace

structure Ended (trace : List Entry) (tx : Nat) (failed : Bool) (answer : Except TxError Bool) :
    Prop where
  answer_eq : answer = .ok failed
  commits : Commits trace tx ↔ failed = false ∧ joinFailed trace tx = false

@[simp] theorem joinFailed_append (first second : List Entry) (tx : Nat) :
    joinFailed (first ++ second) tx = (joinFailed first tx || joinFailed second tx) :=
  List.any_append

theorem commits_append {first second : List Entry} {tx : Nat} :
    Commits (first ++ second) tx ↔ Commits first tx ∨ Commits second tx := by
  simp [Commits, exists_or]

theorem joinFailed_of_about {trace : List Entry} {tx : Nat}
    (elsewhere : ∀ entry ∈ trace, entry.about ≠ some tx) : joinFailed trace tx = false := by
  rw [joinFailed, List.any_eq_false]
  intro entry member fails
  cases entry with
  | answered propagation owner other failed answer =>
    cases owner <;> cases other <;> cases failed <;> simp [Entry.failsIn] at fails
    exact elsewhere _ member (congrArg some fails.2)
  | _ => simp [Entry.failsIn] at fails

theorem not_commits_of_about {trace : List Entry} {tx : Nat}
    (elsewhere : ∀ entry ∈ trace, entry.about ≠ some tx) : ¬ Commits trace tx := by
  rintro ⟨durable, member⟩
  exact elsewhere _ member rfl

def Evolved (trace : List Entry) (stack stack' : TxStack) : Prop :=
  stack.savepointSeq ≤ stack'.savepointSeq ∧
    match active stack.frames with
    | none => stack'.frames = stack.frames
    | some (tx, rollbackOnly) => ∃ tx', Grown stack.savepointSeq tx tx' ∧
        stack'.frames = setActive tx' (rollbackOnly || joinFailed trace tx.id) stack.frames

def Kept (trace : List Entry) : Option TxStack → Option TxStack → Prop
  | none, after => after = none
  | some stack, after => ∃ stack', after = some stack' ∧ Evolved trace stack stack'

structure Piece (s s' : Session) (trace : List Entry) : Prop where
  extends_trace : s'.trace = s.trace ++ trace
  nextTx_le : s.nextTx ≤ s'.nextTx
  kept : Kept trace s.stack s'.stack
  about : ∀ entry ∈ trace, ∀ tx, entry.about = some tx →
    s.current = some tx ∨ s.nextTx ≤ tx ∧ tx < s'.nextTx
  fresh : ∀ tx, Commits trace tx → s.nextTx ≤ tx
  ended : ∀ propagation tx failed answer, .answered propagation true (some tx) failed answer ∈ trace →
    (s.nextTx ≤ tx ∧ tx < s'.nextTx) ∧ Ended trace tx failed answer

def WellFormed (s : Session) : Prop :=
  ∀ stack, s.stack = some stack → ∀ tx rollbackOnly, .real tx rollbackOnly ∈ stack.frames →
    tx.id < s.nextTx

theorem current_eq {s : Session} {stack : TxStack} (held : s.stack = some stack) :
    s.current = (active stack.frames).map (·.1.id) := by
  simp [Session.current, held, activeReal_eq, Function.comp_def]

theorem Kept.current_eq {trace : List Entry} {s s' : Session} (kept : Kept trace s.stack s'.stack) :
    s'.current = s.current := by
  cases held : s.stack with
  | none =>
    rw [held] at kept
    have gone : s'.stack = none := kept
    simp [Session.current, held, gone]
  | some stack =>
    rw [held] at kept
    obtain ⟨stack', held', -, frames⟩ := kept
    rw [DataSqlx.current_eq held, DataSqlx.current_eq held']
    cases top : active stack.frames with
    | none =>
      rw [top] at frames
      rw [frames, top]
    | some pair =>
      rw [top] at frames
      obtain ⟨tx', grown, same⟩ := frames
      rw [same, active_setActive top]
      simp [grown.id]

theorem WellFormed.current_lt {s : Session} (wellFormed : WellFormed s) {tx : Nat}
    (held : s.current = some tx) : tx < s.nextTx := by
  cases stack : s.stack with
  | none => simp [Session.current, stack] at held
  | some frames =>
    rw [current_eq stack] at held
    obtain ⟨⟨here, rollbackOnly⟩, top, rfl⟩ := Option.map_eq_some_iff.mp held
    exact wellFormed _ stack _ _ (active_mem top)

theorem Evolved.trans {first second : List Entry} {a b c : TxStack} (one : Evolved first a b)
    (other : Evolved second b c) : Evolved (first ++ second) a c := by
  refine ⟨one.1.trans other.1, ?_⟩
  have frames := one.2
  have frames' := other.2
  cases top : active a.frames with
  | none =>
    rw [top] at frames
    rw [frames, top] at frames'
    exact frames'
  | some pair =>
    obtain ⟨tx, rollbackOnly⟩ := pair
    rw [top] at frames
    obtain ⟨tx', grown, same⟩ := frames
    rw [same, active_setActive top] at frames'
    obtain ⟨tx'', grown', same'⟩ := frames'
    refine ⟨tx'', grown.trans grown' one.1, ?_⟩
    rw [same', setActive_setActive, grown.id, joinFailed_append, Bool.or_assoc]

theorem Kept.trans {first second : List Entry} {a b c : Option TxStack} (one : Kept first a b)
    (other : Kept second b c) : Kept (first ++ second) a c := by
  cases a with
  | none =>
    obtain rfl : b = none := one
    exact other
  | some stack =>
    obtain ⟨stack', rfl, evolved⟩ := one
    obtain ⟨stack'', rfl, evolved'⟩ := other
    exact ⟨stack'', rfl, evolved.trans evolved'⟩

theorem Piece.wellFormed {s s' : Session} {trace : List Entry} (piece : Piece s s' trace)
    (wellFormed : WellFormed s) : WellFormed s' := by
  intro stack' held' tx' rollbackOnly' member
  have kept := piece.kept
  cases held : s.stack with
  | none =>
    rw [held] at kept
    have gone : s'.stack = none := kept
    rw [gone] at held'
    cases held'
  | some stack =>
    rw [held] at kept
    obtain ⟨other, same, -, frames⟩ := kept
    obtain rfl : other = stack' := Option.some.inj (same.symm.trans held')
    cases top : active stack.frames with
    | none =>
      rw [top] at frames
      rw [frames] at member
      exact (wellFormed stack held tx' _ member).trans_le piece.nextTx_le
    | some pair =>
      rw [top] at frames
      obtain ⟨tx, grown, frames⟩ := frames
      rw [frames] at member
      rcases mem_setActive member with before | here
      · exact (wellFormed stack held tx' _ before).trans_le piece.nextTx_le
      · obtain ⟨rfl, -⟩ := Frame.real.inj here
        rw [grown.id]
        exact (wellFormed stack held _ _ (active_mem top)).trans_le piece.nextTx_le

theorem Ended.extend {before trace after : List Entry} {tx : Nat} {failed : Bool}
    {answer : Except TxError Bool} (ended : Ended trace tx failed answer)
    (elsewhere : ∀ entry ∈ before ++ after, entry.about ≠ some tx) :
    Ended (before ++ trace ++ after) tx failed answer := by
  have first (entry : Entry) (member : entry ∈ before) : entry.about ≠ some tx :=
    elsewhere entry (List.mem_append_left _ member)
  have last (entry : Entry) (member : entry ∈ after) : entry.about ≠ some tx :=
    elsewhere entry (List.mem_append_right _ member)
  refine ⟨ended.answer_eq, ?_⟩
  simp only [commits_append, joinFailed_append, joinFailed_of_about first,
    joinFailed_of_about last, not_commits_of_about first, not_commits_of_about last, false_or,
    or_false, Bool.false_or, Bool.or_false]
  exact ended.commits

theorem Piece.wrap {s s₁ s₂ s₃ : Session} {head body tail : List Entry} (inner : Piece s₁ s₂ body)
    (wellFormed : WellFormed s)
    (extends_trace : s₃.trace = s.trace ++ (head ++ body ++ tail))
    (nextTx_le : s.nextTx ≤ s₁.nextTx) (nextTx_eq : s₃.nextTx = s₂.nextTx)
    (kept : Kept (head ++ body ++ tail) s.stack s₃.stack)
    (around : ∀ entry ∈ head ++ tail, ∀ tx, entry.about = some tx →
      s.current = some tx ∨ s.nextTx ≤ tx ∧ tx < s₁.nextTx)
    (current : ∀ tx, s₁.current = some tx → s.current = some tx ∨ s.nextTx ≤ tx ∧ tx < s₁.nextTx)
    (fresh : ∀ tx, Commits (head ++ tail) tx → s.nextTx ≤ tx)
    (owned : ∀ propagation tx failed answer,
      .answered propagation true (some tx) failed answer ∈ head ++ tail →
        (s.nextTx ≤ tx ∧ tx < s₁.nextTx) ∧ Ended (head ++ body ++ tail) tx failed answer) :
    Piece s s₃ (head ++ body ++ tail) where
  extends_trace := extends_trace
  nextTx_le := by
    rw [nextTx_eq]
    exact nextTx_le.trans inner.nextTx_le
  kept := kept
  about entry member tx here := by
    have later := inner.nextTx_le
    rw [nextTx_eq]
    have outside (outer : entry ∈ head ++ tail) :
        s.current = some tx ∨ s.nextTx ≤ tx ∧ tx < s₂.nextTx :=
      (around entry outer tx here).imp_right fun range => ⟨range.1, range.2.trans_le later⟩
    rcases List.mem_append.mp member with front | back
    · rcases List.mem_append.mp front with first | inside
      · exact outside (List.mem_append_left _ first)
      · rcases inner.about entry inside tx here with same | range
        · exact (current tx same).imp_right fun range => ⟨range.1, range.2.trans_le later⟩
        · exact .inr ⟨nextTx_le.trans range.1, range.2⟩
    · exact outside (List.mem_append_right _ back)
  fresh tx commits := by
    rcases commits_append.mp commits with front | back
    · rcases commits_append.mp front with first | inside
      · exact fresh tx (commits_append.mpr (.inl first))
      · exact nextTx_le.trans (inner.fresh tx inside)
    · exact fresh tx (commits_append.mpr (.inr back))
  ended propagation tx failed answer member := by
    have later := inner.nextTx_le
    rw [nextTx_eq]
    have outside (outer : .answered propagation true (some tx) failed answer ∈ head ++ tail) :
        (s.nextTx ≤ tx ∧ tx < s₂.nextTx) ∧ Ended (head ++ body ++ tail) tx failed answer :=
      (owned _ _ _ _ outer).imp_left fun range => ⟨range.1, range.2.trans_le later⟩
    rcases List.mem_append.mp member with front | back
    · rcases List.mem_append.mp front with first | inside
      · exact outside (List.mem_append_left _ first)
      · obtain ⟨range, ended⟩ := inner.ended _ _ _ _ inside
        refine ⟨⟨nextTx_le.trans range.1, range.2⟩, ended.extend ?_⟩
        intro entry outer here
        rcases around entry outer tx here with same | before
        · exact absurd (wellFormed.current_lt same) (Nat.not_lt_of_le (nextTx_le.trans range.1))
        · exact absurd before.2 (Nat.not_lt_of_le range.1)
    · exact outside (List.mem_append_right _ back)

theorem Kept.refl (stack : Option TxStack) : Kept [] stack stack := by
  cases stack with
  | none => rfl
  | some stack =>
    refine ⟨stack, rfl, le_rfl, ?_⟩
    cases top : active stack.frames with
    | none => rfl
    | some pair =>
      refine ⟨pair.1, Grown.refl _ _, ?_⟩
      rw [joinFailed, List.any_nil, Bool.or_false, setActive_self top]

theorem Piece.refl (s : Session) : Piece s s [] :=
  ⟨by simp, le_rfl, Kept.refl _, by simp, by simp [Commits], by simp⟩

theorem Piece.trans {s s₁ s₂ : Session} {first second : List Entry} (one : Piece s s₁ first)
    (other : Piece s₁ s₂ second) (wellFormed : WellFormed s) :
    Piece s s₂ (first ++ second) where
  extends_trace := by rw [other.extends_trace, one.extends_trace, List.append_assoc]
  nextTx_le := one.nextTx_le.trans other.nextTx_le
  kept := one.kept.trans other.kept
  about entry member tx here := by
    rcases List.mem_append.mp member with before | after
    · exact (one.about entry before tx here).imp_right fun range =>
        ⟨range.1, range.2.trans_le other.nextTx_le⟩
    · rcases other.about entry after tx here with same | range
      · exact .inl (one.kept.current_eq ▸ same)
      · exact .inr ⟨one.nextTx_le.trans range.1, range.2⟩
  fresh tx commits := by
    rcases commits_append.mp commits with before | after
    · exact one.fresh tx before
    · exact one.nextTx_le.trans (other.fresh tx after)
  ended propagation tx failed answer member := by
    rcases List.mem_append.mp member with before | after
    · obtain ⟨range, ended⟩ := one.ended _ _ _ _ before
      refine ⟨⟨range.1, range.2.trans_le other.nextTx_le⟩, ?_⟩
      have elsewhere : ∀ entry ∈ [] ++ second, entry.about ≠ some tx := by
        intro entry inside here
        rcases other.about entry inside tx here with same | later
        · rw [one.kept.current_eq] at same
          exact absurd (wellFormed.current_lt same) (Nat.not_lt_of_le range.1)
        · exact absurd range.2 (Nat.not_lt_of_le later.1)
      simpa using ended.extend elsewhere
    · obtain ⟨range, ended⟩ := other.ended _ _ _ _ after
      refine ⟨⟨one.nextTx_le.trans range.1, range.2⟩, ?_⟩
      have elsewhere : ∀ entry ∈ first ++ [], entry.about ≠ some tx := by
        intro entry inside here
        rw [List.append_nil] at inside
        rcases one.about entry inside tx here with same | earlier
        · exact absurd (wellFormed.current_lt same)
            (Nat.not_lt_of_le (one.nextTx_le.trans range.1))
        · exact absurd earlier.2 (Nat.not_lt_of_le range.1)
      simpa using ended.extend elsewhere

section Under

variable {trace : List Entry} {frames : List Frame} {seq : Nat} {after : TxStack}

theorem evolved_under {frame : Frame} (transparent : frame = .joined ∨ frame = .savepoint)
    (evolved : Evolved trace ⟨frame :: frames, seq⟩ after) :
    ∃ frames', after = ⟨frame :: frames', after.savepointSeq⟩ ∧
      Evolved trace ⟨frames, seq⟩ ⟨frames', after.savepointSeq⟩ := by
  have through : active (frame :: frames) = active frames := by
    rcases transparent with rfl | rfl <;> rfl
  have below : ∀ tx rollbackOnly,
      setActive tx rollbackOnly (frame :: frames) = frame :: setActive tx rollbackOnly frames := by
    rcases transparent with rfl | rfl <;> exact fun _ _ => rfl
  obtain ⟨later, shape⟩ := evolved
  cases top : active frames with
  | none =>
    rw [through, top] at shape
    exact ⟨frames, congrArg (TxStack.mk · after.savepointSeq) shape, later, by simp [top]⟩
  | some pair =>
    rw [through, top] at shape
    obtain ⟨tx', grown, same⟩ := shape
    rw [below] at same
    exact ⟨_, congrArg (TxStack.mk · after.savepointSeq) same, later, by
      simp only [top]
      exact ⟨tx', grown, rfl⟩⟩

theorem evolved_real {tx : ActiveTx} {rollbackOnly : Bool}
    (evolved : Evolved trace ⟨.real tx rollbackOnly :: frames, seq⟩ after) :
    ∃ tx', Grown seq tx tx' ∧ seq ≤ after.savepointSeq ∧
      after.frames = .real tx' (rollbackOnly || joinFailed trace tx.id) :: frames := by
  obtain ⟨later, tx', grown, same⟩ := evolved
  exact ⟨tx', grown, later, same⟩

theorem evolved_suspended (evolved : Evolved trace ⟨.suspended :: frames, seq⟩ after) :
    seq ≤ after.savepointSeq ∧ after.frames = .suspended :: frames :=
  evolved

theorem evolved_same (stack : TxStack) (trace : List Entry) (frames : List Frame) (later : Nat)
    (le : stack.savepointSeq ≤ later) (same : frames = stack.frames)
    (unmarked : ∀ tx rollbackOnly, active stack.frames = some (tx, rollbackOnly) →
      joinFailed trace tx.id = false) : Evolved trace stack ⟨frames, later⟩ := by
  refine ⟨le, ?_⟩
  cases top : active stack.frames with
  | none => exact same
  | some pair =>
    refine ⟨pair.1, Grown.refl _ _, ?_⟩
    rw [unmarked _ _ top, Bool.or_false, setActive_self top]
    exact same

end Under

theorem statement_piece (sql : String) (s : Session) :
    Piece s (s.execute sql) [.executed sql s.current] := by
  cases held : s.stack with
  | none =>
    have same : s.execute sql =
        Session.record { s with committed := s.committed ++ [sql] } (.executed sql none) := by
      simp [Session.execute, held]
    have current : s.current = none := by simp [Session.current, held]
    rw [same, current]
    refine ⟨rfl, le_rfl, ?_, by simp [Entry.about], by simp [Commits], by simp⟩
    show Kept _ s.stack s.stack
    rw [held]
    rfl
  | some stack =>
    have current := current_eq held
    cases top : active stack.frames with
    | none =>
      have same : s.execute sql =
          Session.record { s with committed := s.committed ++ [sql] } (.executed sql none) := by
        simp [Session.execute, held, activeReal_eq, top]
      rw [top] at current
      rw [same, show s.current = none from current]
      refine ⟨rfl, le_rfl, ?_, by simp [Entry.about], by simp [Commits], by simp⟩
      show Kept _ s.stack s.stack
      rw [held]
      exact ⟨stack, rfl, le_rfl, by rw [top]⟩
    | some pair =>
      obtain ⟨tx, rollbackOnly⟩ := pair
      have frames : mapActive (Frame.withTx fun tx => tx.execute sql) stack.frames =
          setActive (tx.execute sql) rollbackOnly stack.frames := mapActive_eq _ top rfl
      have same : s.execute sql = Session.record
          { s with
            stack := some
              { stack with frames := setActive (tx.execute sql) rollbackOnly stack.frames } }
          (.executed sql (some tx.id)) := by
        simp [Session.execute, held, activeReal_eq, top, frames]
      rw [top] at current
      rw [same, show s.current = some tx.id from current]
      refine ⟨rfl, le_rfl, ?_, ?_, by simp [Commits], by simp⟩
      · rw [held]
        refine ⟨_, rfl, le_rfl, ?_⟩
        rw [top]
        exact ⟨_, grown_execute _ tx sql, by simp [joinFailed, Entry.failsIn]⟩
      · intro entry member other here
        obtain rfl := List.mem_singleton.mp member
        left
        exact current.trans here

section Calls

variable {propagation : Propagation} {shouldRollback : TxError → Bool}
  {f : Session → Except TxError Unit × Session} {s : Session}

theorem call_refused {error : TxError} {s' : Session}
    (refused : enter propagation s = (.error error, s')) :
    transactionalWithOn sqlxTransactionManager propagation shouldRollback f s =
      (.error error, s') := by
  simp [transactionalWithOn, TransactionManager.execute, sqlxTransactionManager, refused]

theorem call_entered {token : Token} {s₁ : Session}
    (entered : enter propagation s = (.ok token, s₁)) :
    (transactionalWithOn sqlxTransactionManager propagation shouldRollback f s).2 =
      (leave token (.ok (outcomeOf shouldRollback (f s₁).1)) (f s₁).2).2 := by
  simp only [transactionalWithOn, TransactionManager.execute, sqlxTransactionManager, entered]
  rcases leave token (.ok (outcomeOf shouldRollback (f s₁).1)) (f s₁).2 with ⟨answer, s'⟩
  cases answer <;> rfl

theorem enter_plain (none : s.stack = none)
    (plain : propagation = .never ∨ propagation = .notSupported ∨ propagation = .supports) :
    enter propagation s = (.ok { kind := .plain, propagation, tx := .none },
      s.record (.entered propagation false .none)) := by
  have current : s.current = .none := by simp [Session.current, none]
  rcases plain with rfl | rfl | rfl <;> simp [enter, none, enterRoot, current, Kind.owns]

def opened (propagation : Propagation) (s : Session) : Session :=
  Session.record
    { s with
      stack := some { frames := [.real { id := s.nextTx } false] }
      nextTx := s.nextTx + 1
      trace := s.trace ++ [.began s.nextTx] }
    (.entered propagation true (some s.nextTx))

theorem enter_root (none : s.stack = none)
    (opens : propagation = .required ∨ propagation = .requiresNew ∨ propagation = .nested) :
    enter propagation s =
      (.ok { kind := .root, propagation, tx := some s.nextTx }, opened propagation s) := by
  rcases opens with rfl | rfl | rfl <;>
    simp [enter, none, enterRoot, Session.begin, Session.current, Session.record, Kind.owns,
      activeReal, opened]

variable {stack : TxStack}

theorem enter_joined (held : s.stack = some stack) (joining : joins propagation = true) :
    enter propagation s = (.ok { kind := .joined, propagation, tx := s.current },
      Session.record { s with stack := some { stack with frames := .joined :: stack.frames } }
        (.entered propagation false s.current)) := by
  have current : Session.current
      { s with stack := some { stack with frames := .joined :: stack.frames } } = s.current := by
    simp [Session.current, held, activeReal]
  cases propagation <;> simp_all [enter, enterNested, Kind.owns, joins]

def stacked (stack : TxStack) (propagation : Propagation) (s : Session) : Session :=
  Session.record
    { s with
      stack := some { stack with frames := .real { id := s.nextTx } false :: stack.frames }
      nextTx := s.nextTx + 1
      trace := s.trace ++ [.began s.nextTx] }
    (.entered propagation true (some s.nextTx))

theorem enter_requiresNew (held : s.stack = some stack) :
    enter .requiresNew s = (.ok ⟨.requiresNew, .requiresNew, some s.nextTx⟩,
      stacked stack .requiresNew s) := by
  simp [enter, held, enterNested, Session.begin, Session.current, Session.record, Kind.owns,
    activeReal, stacked]

theorem enter_suspended (held : s.stack = some stack) :
    enter .notSupported s =
      (.ok { kind := .suspended, propagation := .notSupported, tx := .none },
        Session.record { s with stack := some { stack with frames := .suspended :: stack.frames } }
          (.entered .notSupported false .none)) := by
  simp [enter, held, enterNested, Session.current, Kind.owns, activeReal]

def pointed (stack : TxStack) (tx : ActiveTx) (rollbackOnly : Bool) (s : Session) : Session :=
  Session.record
    { s with
      stack := some
        { frames := .savepoint ::
            setActive (tx.savepoint (stack.savepointSeq + 1)) rollbackOnly stack.frames
          savepointSeq := stack.savepointSeq + 1 } }
    (.entered .nested false s.current)

theorem enter_mandatory (none : s.stack = none) :
    enter .mandatory s =
      (.error mandatoryError, s.record (.refused .mandatory mandatoryError)) := by
  simp [enter, none, enterRoot]

theorem enter_never (held : s.stack = some stack) :
    enter .never s = (.error neverError, s.record (.refused .never neverError)) := by
  simp [enter, held, enterNested]

theorem enter_nested_none (held : s.stack = some stack) (top : active stack.frames = none) :
    enter .nested s = (.error nestedError, Session.record
      { s with stack := some { stack with savepointSeq := stack.savepointSeq + 1 } }
      (.refused .nested nestedError)) := by
  simp [enter, held, enterNested, activeReal_eq, top]

theorem enter_nested {tx : ActiveTx} {rollbackOnly : Bool} (held : s.stack = some stack)
    (top : active stack.frames = some (tx, rollbackOnly)) :
    enter .nested s = (.ok ⟨.nested (stack.savepointSeq + 1), .nested, s.current⟩,
      pointed stack tx rollbackOnly s) := by
  have frames : mapActive (Frame.withTx fun tx => tx.savepoint (stack.savepointSeq + 1))
      stack.frames = setActive (tx.savepoint (stack.savepointSeq + 1)) rollbackOnly stack.frames :=
    mapActive_eq _ top rfl
  have real : activeReal stack.frames = some tx := by simp [activeReal_eq, top]
  have current' : (activeReal
      (setActive (tx.savepoint (stack.savepointSeq + 1)) rollbackOnly stack.frames)).map (·.id) =
        some tx.id := by
    simp [activeReal_eq, active_setActive top, ActiveTx.savepoint]
  simp [enter, held, enterNested, real, frames, Kind.owns, pointed, Session.current, activeReal,
    current']

end Calls

section Leave

variable {propagation : Propagation} {tx? : Option Nat} {outcome : TxOutcome} {s : Session}
  {frames : List Frame} {seq : Nat}

def answered (propagation : Propagation) (owner : Bool) (tx? : Option Nat) (outcome : TxOutcome) :
    Entry :=
  .answered propagation owner tx? outcome.rolledBack (.ok outcome.rolledBack)

theorem leave_plain : leave ⟨.plain, propagation, tx?⟩ (.ok outcome) s =
    (.ok outcome, s.record (answered propagation false tx? outcome)) := rfl

theorem leave_root {tx : ActiveTx} {rollbackOnly : Bool}
    (held : s.stack = some ⟨.real tx rollbackOnly :: frames, seq⟩) :
    leave ⟨.root, propagation, tx?⟩ (.ok outcome) s =
      (.ok outcome, (finish (.ok outcome) tx rollbackOnly { s with stack := none }).record
        (answered propagation true tx? outcome)) := by
  simp [leave, leaveKind, held, Kind.owns, answered, rollsBack, Except.map]

theorem leave_joined (held : s.stack = some ⟨.joined :: frames, seq⟩) :
    leave ⟨.joined, propagation, tx?⟩ (.ok outcome) s =
      (.ok outcome, Session.record
        { s with
          stack := some ⟨if outcome.rolledBack then mapActive Frame.markRollbackOnly frames
            else frames, seq⟩ } (answered propagation false tx? outcome)) := by
  simp [leave, leaveKind, held, Kind.owns, answered, rollsBack, Except.map, Session.withFrames]

theorem leave_requiresNew {tx : ActiveTx} {rollbackOnly : Bool}
    (held : s.stack = some ⟨.real tx rollbackOnly :: frames, seq⟩) :
    leave ⟨.requiresNew, propagation, tx?⟩ (.ok outcome) s =
      (.ok outcome,
        (finish (.ok outcome) tx rollbackOnly { s with stack := some ⟨frames, seq⟩ }).record
          (answered propagation true tx? outcome)) := by
  simp [leave, leaveKind, held, Kind.owns, answered, rollsBack, Except.map, Session.withFrames]

theorem leave_suspended (held : s.stack = some ⟨.suspended :: frames, seq⟩) :
    leave ⟨.suspended, propagation, tx?⟩ (.ok outcome) s =
      (.ok outcome, Session.record { s with stack := some ⟨frames, seq⟩ }
        (answered propagation false tx? outcome)) := by
  simp [leave, leaveKind, held, Kind.owns, answered, rollsBack, Except.map, Session.withFrames]

theorem leave_nested {name : Nat} {tx tx' : ActiveTx} {rollbackOnly : Bool}
    (held : s.stack = some ⟨.savepoint :: frames, seq⟩)
    (top : active frames = some (tx', rollbackOnly))
    (grown : Grown name (tx.savepoint name) tx') :
    leave ⟨.nested name, propagation, tx?⟩ (.ok outcome) s =
      (.ok outcome, Session.record
        { s with
          stack := some ⟨setActive (if outcome.rolledBack then tx.savepoint name
            else { tx' with savepoints := tx.savepoints }) rollbackOnly frames, seq⟩ }
        (answered propagation false tx? outcome)) := by
  have real : activeReal frames = some tx' := by simp [activeReal_eq, top]
  have put (after : ActiveTx) : mapActive (Frame.withTx fun _ => after) frames =
      setActive after rollbackOnly frames := mapActive_eq _ top rfl
  cases rolled : outcome.rolledBack <;>
    simp [leave, leaveKind, held, Kind.owns, answered, rollsBack, Except.map, Session.withFrames,
      real, rolled, put, rollbackToSavepoint_eq grown, releaseSavepoint_eq grown]

end Leave

end Firefly.DataSqlx
