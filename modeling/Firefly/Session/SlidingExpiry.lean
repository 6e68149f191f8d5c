import Firefly.Session.RetiredIds

set_option autoImplicit false

-- A response renews the cookie, a save renews the entry in the store.

namespace Firefly.Session.Sliding

open Layer

structure Entry where
  stored : Stored
  expiresAt : Int

structure State where
  store : Nat → Option Entry
  fresh : Nat
  cookie : Option Nat
  cookieEnds : Int
  visits : Nat → Option SessionInner
  clock : Int
  saved : Option Int

def start : State :=
  { store := fun _ => none, fresh := 0, cookie := none, cookieEnds := 0, visits := fun _ => none, clock := 0
    saved := none }

inductive Event where
  | arrive (request : Nat) (now : Int)
  | respond (request : Nat) (ops : List Op) (now : Int)
  | sweep (now : Int)

namespace State

def delete (s : State) (id : Nat) : State := { s with store := Function.update s.store id none }

def get (s : State) (id : Nat) (now : Int) : Option Stored × State :=
  match s.store id with
  | none => (none, s)
  | some entry => if entry.expiresAt < now then (none, s.delete id) else (some entry.stored, s)

def save (s : State) (inner : SessionInner) (ttl now : Int) : State :=
  { s with
    store := Function.update s.store inner.id
      (some { stored := { data := inner.data, lineage := inner.lineage }, expiresAt := now + ttl })
    saved := some now }

def retain (s : State) (now : Int) : State :=
  { s with store := fun id => (s.store id).filter fun entry => decide (now < entry.expiresAt) }

def enter (s : State) (request : Nat) (inner : SessionInner) : State :=
  { s with visits := Function.update s.visits request (some inner) }

def create (s : State) (request : Nat) (now : Int) : State :=
  { s with fresh := s.fresh + 1 }.enter request (SessionInner.new s.fresh now)

def loadOrCreate (s : State) (request : Nat) (now : Int) : State :=
  match s.cookie with
  | none => s.create request now
  | some id =>
    match s.get id now with
    | (some stored, s) => s.enter request (SessionInner.load id stored.data stored.lineage now)
    | (none, s) => s.create request now

def persist (s : State) (inner : SessionInner) (ttl now : Int) : State :=
  let s :=
    match inner.previousId with
    | some previous => if previous ≠ inner.id then s.delete previous else s
    | none => s
  if inner.invalidated then s.delete inner.id
  else if inner.modified then s.save inner ttl now
  else s

def decorateResponse (s : State) (inner : SessionInner) (ttl now : Int) : State :=
  if inner.invalidated then { s with cookie := none }
  else { s with cookie := some inner.id, cookieEnds := now + ttl }

def respond (s : State) (request : Nat) (ops : List Op) (ttl now : Int) : State :=
  match s.visits request with
  | none => s
  | some inner =>
    let (inner, fresh) := ops.foldl Op.apply (inner, s.fresh)
    let s := { s with fresh, visits := Function.update s.visits request none }
    (s.persist inner ttl now).decorateResponse inner ttl now

def step (ttl : Int) (s : State) : Event → State
  | .arrive request now => { s with clock := now }.loadOrCreate request now
  | .respond request ops now => { s with clock := now }.respond request ops ttl now
  | .sweep now => { s with clock := now }.retain now

def found (s : State) (now : Int) : Option Nat := do
  let id ← s.cookie
  let stored ← (s.get id now).1
  return stored.lineage

end State

def answers (ttl : Int) : State → List Event → List (Option Nat)
  | _, [] => []
  | s, .arrive request now :: rest => s.found now :: answers ttl (s.step ttl (.arrive request now)) rest
  | s, event :: rest => answers ttl (s.step ttl event) rest

/-- Time does not go back. A client without a cookie waits for its first answer, no handler invalidates the
session, and one that rotates its id has no other request beside it. -/
def Orderly (s : State) : Event → Prop
  | .arrive request now => s.clock ≤ now ∧ s.visits request = none ∧
      (s.cookie = none → ∀ other, s.visits other = none)
  | .respond request ops now => s.clock ≤ now ∧ .invalidate ∉ ops ∧
      (.rotateId ∈ ops → ∀ other, other ≠ request → s.visits other = none)
  | .sweep now => s.clock ≤ now

def Throughout (P : State → Event → Prop) (ttl : Int) : State → List Event → Prop
  | _, [] => True
  | s, event :: rest => P s event ∧ Throughout P ttl (s.step ttl event) rest

def InTime (ttl : Int) (s : State) : Event → Prop
  | .arrive _ now => ∀ t, s.saved = some t → now < t + ttl
  | _ => True

def NotLate (ttl : Int) (s : State) : Event → Prop
  | .arrive _ now => ∀ t, s.saved = some t → now ≤ t + ttl
  | _ => True

def InMaxAge (s : State) : Event → Prop
  | .arrive _ now => s.cookie ≠ none → now < s.cookieEnds
  | _ => True

structure Own (id : Nat) (inner : SessionInner) : Prop where
  id : inner.id = id
  lineage : inner.lineage = 0
  unrotated : inner.previousId = none
  valid : inner.invalidated = false

def Kept (s : State) (id : Nat) (ends : Int) : Prop :=
  (∃ data, s.store id = some { stored := { data, lineage := 0 }, expiresAt := ends }) ∨
    s.store id = none ∧ ends ≤ s.clock

structure Idle (s : State) : Prop where
  cookie : s.cookie = none
  visits : ∀ request, s.visits request = none
  fresh : s.fresh = 0
  saved : s.saved = none

structure Waiting (s : State) (request : Nat) (inner : SessionInner) : Prop where
  cookie : s.cookie = none
  visit : s.visits request = some inner
  alone : ∀ other, other ≠ request → s.visits other = none
  own : Own 0 inner
  modified : inner.modified = true
  below : 0 < s.fresh
  saved : s.saved = none

structure Holding (ttl : Int) (s : State) (id : Nat) (t : Int) : Prop where
  cookie : s.cookie = some id
  saved : s.saved = some t
  below : id < s.fresh
  own : ∀ request inner, s.visits request = some inner → Own id inner
  kept : Kept s id (t + ttl)

section Handler

variable {ops : List Op} {inner : SessionInner} {id fresh : Nat}

theorem apply_valid (ops : List Op) (inner : SessionInner) (fresh : Nat) (unended : .invalidate ∉ ops)
    (valid : inner.invalidated = false) : (ops.foldl Op.apply (inner, fresh)).1.invalidated = false := by
  induction ops generalizing inner fresh with
  | nil => exact valid
  | cons op ops ih =>
    rw [List.mem_cons, not_or] at unended
    refine ih (Op.apply (inner, fresh) op).1 (Op.apply (inner, fresh) op).2 unended.2 ?_
    cases op with
    | set name value => exact valid
    | remove name =>
      simp only [Op.apply, SessionInner.removeAttribute]
      split
      · exact valid
      · exact valid
    | rotateId => simp [Op.apply, SessionInner.rotateId, valid]
    | invalidate => exact absurd rfl unended.1

theorem apply_own (own : Own id inner) (below : id < fresh) (unended : .invalidate ∉ ops) :
    let after := ops.foldl Op.apply (inner, fresh)
    after.1.lineage = 0 ∧ after.1.invalidated = false ∧ after.1.id < after.2 ∧
      (after.1.id = id ∧ after.1.previousId = none ∨ .rotateId ∈ ops ∧ after.1.modified = true) := by
  have grown := apply_grows ops inner fresh
  have valid := apply_valid ops inner fresh unended own.valid
  refine ⟨grown.2.trans own.lineage, valid, ?_⟩
  rcases apply_id ops inner fresh (own.id ▸ below) with
    ⟨same, previousId⟩ | ⟨-, bounded, modified, previous, rotated, -⟩
  · rw [own.id] at same
    exact ⟨same ▸ below.trans_le grown.1, .inl ⟨same, previousId.trans own.unrotated⟩⟩
  · refine ⟨bounded, .inr ⟨by_contra fun absent => ?_, modified⟩⟩
    have quiet : rotations ops = 0 :=
      List.count_eq_zero.mpr fun among => absent ((List.takeWhile_prefix _).subset among)
    rw [apply_quiet ops inner fresh (.inr quiet), own.unrotated] at rotated
    cases rotated

end Handler

section Steps

variable {ttl now t : Int} {s : State} {id request : Nat} {inner : SessionInner} {ops : List Op}

theorem own_load (id : Nat) (data : SessionData) (now : Int) : Own id (SessionInner.load id data 0 now) :=
  ⟨rfl, rfl, rfl, rfl⟩

theorem Holding.found (holding : Holding ttl s id t) (current : s.clock ≤ now) :
    (now < t + ttl → s.found now = some 0) ∧ (t + ttl < now → s.found now = none) := by
  have cookie := holding.cookie
  rcases holding.kept with ⟨data, stored⟩ | ⟨gone, ended⟩
  · refine ⟨fun early => ?_, fun late => by simp [State.found, State.get, cookie, stored, late]⟩
    simp [State.found, State.get, cookie, stored, not_lt.mpr early.le]
  · exact ⟨fun early => by omega, fun _ => by simp [State.found, State.get, cookie, gone]⟩

theorem Idle.arrive (idle : Idle s) :
    Waiting (s.step ttl (.arrive request now)) request (SessionInner.new 0 now) := by
  have created : s.step ttl (.arrive request now) = { s with clock := now }.create request now := by
    simp [State.step, State.loadOrCreate, idle.cookie]
  rw [created, State.create, idle.fresh]
  refine ⟨idle.cookie, ?_, ?_, ⟨rfl, rfl, rfl, rfl⟩, rfl, Nat.one_pos, idle.saved⟩
  · simp [State.enter]
  · intro other apart
    simp [State.enter, Function.update_of_ne apart, idle.visits]

theorem Holding.arrive (holding : Holding ttl s id t) (current : s.clock ≤ now) (hit : s.found now ≠ none) :
    Holding ttl (s.step ttl (.arrive request now)) id t := by
  have cookie := holding.cookie
  obtain ⟨data, stored⟩ : ∃ data,
      s.store id = some { stored := { data, lineage := 0 }, expiresAt := t + ttl } := by
    refine holding.kept.resolve_right fun gone => hit ?_
    simp [State.found, State.get, cookie, gone.1]
  have early : ¬ t + ttl < now := fun late => hit ((holding.found current).2 late)
  have loaded : s.step ttl (.arrive request now) =
      { s with clock := now }.enter request (SessionInner.load id data 0 now) := by
    simp [State.step, State.loadOrCreate, State.get, cookie, stored, early]
  rw [loaded]
  refine ⟨cookie, holding.saved, holding.below, ?_, .inl ⟨data, stored⟩⟩
  intro other inner visit
  by_cases same : other = request
  · subst same
    simp only [State.enter, Function.update_self, Option.some.injEq] at visit
    exact visit ▸ own_load id data now
  · simp only [State.enter, Function.update_of_ne same] at visit
    exact holding.own other inner visit

structure SavedAt (before after : State) (inner : SessionInner) (ttl now : Int) : Prop where
  entry : after.store inner.id =
    some { stored := { data := inner.data, lineage := inner.lineage }, expiresAt := now + ttl }
  visits : after.visits = before.visits
  fresh : after.fresh = before.fresh
  saved : after.saved = some now

theorem persist_modified (s : State) (ttl now : Int) (valid : inner.invalidated = false)
    (modified : inner.modified = true) : SavedAt s (s.persist inner ttl now) inner ttl now := by
  rw [State.persist, valid, modified]
  cases inner.previousId with
  | none => exact ⟨by simp [State.save], rfl, rfl, rfl⟩
  | some previous =>
    by_cases apart : previous ≠ inner.id
    · exact ⟨by simp [State.save], by simp [State.save, apart, State.delete],
        by simp [State.save, apart, State.delete], by simp [State.save]⟩
    · exact ⟨by simp [State.save], by simp [State.save, apart], by simp [State.save, apart],
        by simp [State.save]⟩

theorem persist_unmodified (s : State) (ttl now : Int) (unrotated : inner.previousId = none)
    (valid : inner.invalidated = false) (unmodified : inner.modified = false) :
    s.persist inner ttl now = s := by
  simp [State.persist, unrotated, valid, unmodified]

theorem respond_own (visit : s.visits request = some inner) (own : Own id inner) (below : id < s.fresh)
    (others : ∀ other inner, other ≠ request → s.visits other = some inner → Own id inner)
    (current : s.clock ≤ now) (unended : .invalidate ∉ ops)
    (alone : .rotateId ∈ ops → ∀ other, other ≠ request → s.visits other = none)
    (before : inner.modified = true ∨ s.cookie = some id ∧ s.saved = some t ∧ Kept s id (t + ttl)) :
    ∃ id t, Holding ttl (s.step ttl (.respond request ops now)) id t := by
  have handled := apply_own own below unended
  have modifies := apply_modified ops inner s.fresh
  rcases ran : ops.foldl Op.apply (inner, s.fresh) with ⟨after, fresh⟩
  simp only [ran] at handled modifies
  obtain ⟨lineage, valid, bounded, way⟩ := handled
  have rest : ∀ other inner, Function.update s.visits request none other = some inner →
      Own after.id inner := by
    intro other inner among
    by_cases same : other = request
    · simp [same] at among
    · rw [Function.update_of_ne same] at among
      rcases way with ⟨unrotated, -⟩ | ⟨rotated, -⟩
      · exact unrotated ▸ others other inner same among
      · rw [alone rotated other same] at among
        cases among
  have stepped : s.step ttl (.respond request ops now) =
      (State.persist { s with clock := now, fresh, visits := Function.update s.visits request none }
        after ttl now).decorateResponse after ttl now := by
    simp [State.step, State.respond, visit, ran]
  rw [stepped, State.decorateResponse, if_neg (by simp [valid])]
  cases modified : after.modified with
  | true =>
    have saved := persist_modified
      { s with clock := now, fresh, visits := Function.update s.visits request none } ttl now valid modified
    refine ⟨after.id, now, rfl, saved.saved, ?_, ?_, .inl ⟨after.data, ?_⟩⟩
    · exact saved.fresh ▸ bounded
    · intro other inner among
      exact rest other inner ((congrFun saved.visits other).symm.trans among)
    · exact lineage ▸ saved.entry
  | false =>
    obtain ⟨same, unrotated⟩ : after.id = id ∧ after.previousId = none :=
      way.resolve_right fun rotated => by simp [modified] at rotated
    obtain ⟨cookie, saved, kept⟩ : s.cookie = some id ∧ s.saved = some t ∧ Kept s id (t + ttl) :=
      before.resolve_left fun already => by simp [modifies already] at modified
    rw [persist_unmodified _ ttl now unrotated valid modified]
    refine ⟨id, t, congrArg some same, saved, same ▸ bounded, same ▸ rest, ?_⟩
    exact kept.imp (fun stored => stored) fun gone => ⟨gone.1, gone.2.trans current⟩

theorem respond_absent (absent : s.visits request = none) :
    s.step ttl (.respond request ops now) = { s with clock := now } := by
  simp [State.step, State.respond, absent]

theorem Kept.later {ends : Int} (kept : Kept s id ends) (current : s.clock ≤ now) :
    Kept { s with clock := now } id ends :=
  kept.imp (fun stored => stored) fun gone => ⟨gone.1, gone.2.trans current⟩

theorem sweep_kept {ends : Int} (kept : Kept s id ends) (current : s.clock ≤ now) :
    Kept (s.step ttl (.sweep now)) id ends := by
  rcases kept with ⟨data, stored⟩ | ⟨gone, ended⟩
  · by_cases alive : now < ends
    · exact .inl ⟨data, by simp [State.step, State.retain, stored, alive]⟩
    · exact .inr ⟨by simp [State.step, State.retain, stored, not_lt.mp alive], not_lt.mp alive⟩
  · exact .inr ⟨by simp [State.step, State.retain, gone], ended.trans current⟩

end Steps

section Runs

variable {ttl now t : Int} {s : State} {id request : Nat} {inner : SessionInner} {event : Event}
  {events : List Event}

theorem Holding.step (holding : Holding ttl s id t) (orderly : Orderly s event)
    (hit : ∀ request now, event = .arrive request now → s.found now ≠ none) :
    ∃ id t, Holding ttl (s.step ttl event) id t := by
  cases event with
  | arrive request now => exact ⟨id, t, holding.arrive orderly.1 (hit request now rfl)⟩
  | respond request ops now =>
    obtain ⟨current, unended, alone⟩ := orderly
    cases visit : s.visits request with
    | none =>
      rw [respond_absent visit]
      exact ⟨id, t, holding.cookie, holding.saved, holding.below, holding.own, holding.kept.later current⟩
    | some inner =>
      exact respond_own visit (holding.own request inner visit) holding.below
        (fun other inner _ among => holding.own other inner among) current unended alone
        (.inr ⟨holding.cookie, holding.saved, holding.kept⟩)
  | sweep now =>
    exact ⟨id, t, holding.cookie, holding.saved, holding.below, holding.own, sweep_kept holding.kept orderly⟩

variable (ttl) in
theorem Waiting.step (waiting : Waiting s request inner) (orderly : Orderly s event) :
    (∀ other now, event ≠ .arrive other now) ∧
      (Waiting (s.step ttl event) request inner ∨ ∃ id t, Holding ttl (s.step ttl event) id t) := by
  cases event with
  | arrive other now => exact absurd (orderly.2.2 waiting.cookie request) (by simp [waiting.visit])
  | respond other ops now =>
    refine ⟨by simp, ?_⟩
    obtain ⟨current, unended, alone⟩ := orderly
    by_cases same : other = request
    · subst same
      refine .inr (respond_own (t := now) waiting.visit waiting.own waiting.below ?_ current unended alone
        (.inl waiting.modified))
      intro another inner' apart among
      simp [waiting.alone another apart] at among
    · rw [respond_absent (waiting.alone other same)]
      exact .inl ⟨waiting.cookie, waiting.visit, waiting.alone, waiting.own, waiting.modified, waiting.below,
        waiting.saved⟩
  | sweep now =>
    exact ⟨by simp, .inl ⟨waiting.cookie, waiting.visit, waiting.alone, waiting.own, waiting.modified,
      waiting.below, waiting.saved⟩⟩

def Answered (ttl : Int) (s : State) (events : List Event) : Prop :=
  (Throughout (InTime ttl) ttl s events → ∀ answer ∈ answers ttl s events, answer = some 0) ∧
    ((∀ answer ∈ answers ttl s events, answer = some 0) → Throughout (NotLate ttl) ttl s events)

theorem answered_quiet (quiet : ∀ request now, event ≠ .arrive request now)
    (rest : Answered ttl (s.step ttl event) events) : Answered ttl s (event :: events) := by
  cases event with
  | arrive request now => exact absurd rfl (quiet request now)
  | respond request ops now => exact ⟨fun inTime => rest.1 inTime.2, fun all => ⟨trivial, rest.2 all⟩⟩
  | sweep now => exact ⟨fun inTime => rest.1 inTime.2, fun all => ⟨trivial, rest.2 all⟩⟩

theorem Holding.answers (holding : Holding ttl s id t) (orderly : Throughout Orderly ttl s events) :
    Answered ttl s events := by
  induction events generalizing s id t with
  | nil => exact ⟨by simp [Sliding.answers], fun _ => trivial⟩
  | cons event events ih =>
    obtain ⟨now, later⟩ := orderly
    cases event with
    | arrive request time =>
      have found := holding.found now.1
      constructor
      · rintro ⟨inTime, rest⟩
        have hit := found.1 (inTime t holding.saved)
        obtain ⟨id', t', next⟩ := holding.step now fun request time' same => by
          obtain ⟨-, rfl⟩ := Event.arrive.inj same
          simp [hit]
        intro answer among
        rcases List.mem_cons.mp among with rfl | among
        · exact hit
        · exact (ih next later).1 rest answer among
      · intro all
        have hit : s.found time = some 0 := all _ (List.mem_cons_self ..)
        obtain ⟨id', t', next⟩ := holding.step now fun request time' same => by
          obtain ⟨-, rfl⟩ := Event.arrive.inj same
          simp [hit]
        refine ⟨fun t' saved => ?_, (ih next later).2 fun answer among =>
          all answer (List.mem_cons_of_mem _ among)⟩
        obtain rfl : t = t' := Option.some.inj (holding.saved.symm.trans saved)
        by_contra late
        rw [found.2 (not_le.mp late)] at hit
        cases hit
    | respond request ops time =>
      obtain ⟨id', t', next⟩ := holding.step now (by simp)
      exact answered_quiet (by simp) (ih next later)
    | sweep time =>
      obtain ⟨id', t', next⟩ := holding.step now (by simp)
      exact answered_quiet (by simp) (ih next later)

theorem Waiting.answers (waiting : Waiting s request inner) (orderly : Throughout Orderly ttl s events) :
    Answered ttl s events := by
  induction events generalizing s with
  | nil => exact ⟨by simp [Sliding.answers], fun _ => trivial⟩
  | cons event events ih =>
    obtain ⟨now, later⟩ := orderly
    obtain ⟨quiet, still | ⟨id, t, holding⟩⟩ := Waiting.step ttl waiting now
    · exact answered_quiet quiet (ih still later)
    · exact answered_quiet quiet (holding.answers later)

theorem Idle.answers (idle : Idle s) (orderly : Throughout Orderly ttl s events) :
    (∀ first ∈ (answers ttl s events).head?, first = none) ∧
      (Throughout (InTime ttl) ttl s events → ∀ answer ∈ (answers ttl s events).tail, answer = some 0) ∧
      ((∀ answer ∈ (answers ttl s events).tail, answer = some 0) → Throughout (NotLate ttl) ttl s events) := by
  induction events generalizing s with
  | nil => exact ⟨by simp [Sliding.answers], by simp [Sliding.answers], fun _ => trivial⟩
  | cons event events ih =>
    obtain ⟨now, later⟩ := orderly
    cases event with
    | arrive request time =>
      have rest := idle.arrive.answers later
      refine ⟨?_, fun inTime => rest.1 inTime.2, fun all => ⟨?_, rest.2 all⟩⟩
      · rintro first among
        obtain rfl : s.found time = first := by simpa [Sliding.answers] using among
        simp [State.found, idle.cookie]
      · intro t saved
        simp [idle.saved] at saved
    | respond request ops time =>
      have still : Idle (s.step ttl (.respond request ops time)) := by
        rw [respond_absent (idle.visits request)]
        exact ⟨idle.cookie, idle.visits, idle.fresh, idle.saved⟩
      obtain ⟨first, found, timely⟩ := ih still later
      exact ⟨first, fun inTime => found inTime.2, fun all => ⟨trivial, timely all⟩⟩
    | sweep time =>
      have still : Idle (s.step ttl (.sweep time)) := ⟨idle.cookie, idle.visits, idle.fresh, idle.saved⟩
      obtain ⟨first, found, timely⟩ := ih still later
      exact ⟨first, fun inTime => found inTime.2, fun all => ⟨trivial, timely all⟩⟩

end Runs

theorem session_kept (ttl : Int) (events : List Event) (orderly : Throughout Orderly ttl start events) :
    (∀ first ∈ (answers ttl start events).head?, first = none) ∧
      (Throughout (InTime ttl) ttl start events →
        ∀ answer ∈ (answers ttl start events).tail, answer = some 0) ∧
      ((∀ answer ∈ (answers ttl start events).tail, answer = some 0) →
        Throughout (NotLate ttl) ttl start events) :=
  Idle.answers ⟨rfl, fun _ => rfl, rfl, rfl⟩ orderly

def modifying : List Event :=
  [.arrive 0 0, .respond 0 [] 0, .arrive 1 6, .respond 1 [.set "page" (.int 2)] 6, .arrive 2 12]

theorem modifying_kept : (answers 10 start modifying).tail = [some 0, some 0] := by
  have known : ∀ {P : Prop}, some 0 = (none : Option Nat) → P := fun impossible => by cases impossible
  refine (List.eq_replicate_iff (n := 2)).mpr ⟨by decide, (session_kept 10 modifying ?_).2.1 ?_⟩
  · exact ⟨⟨by decide, rfl, fun _ _ => rfl⟩, ⟨by decide, by simp, by simp⟩,
      ⟨by decide, rfl, fun none => known none⟩, ⟨by decide, by simp, by simp⟩,
      ⟨by decide, rfl, fun none => known none⟩, trivial⟩
  · refine ⟨fun t saved => (by cases saved), trivial, fun t saved => ?_, trivial, fun t saved => ?_, trivial⟩
    · obtain rfl : (0 : Int) = t := Option.some.inj saved
      decide
    · obtain rfl : (6 : Int) = t := Option.some.inj saved
      decide

def arrivals (events : List Event) : List Int :=
  events.filterMap fun event =>
    match event with
    | .arrive _ now => some now
    | _ => none

def Close (ttl : Int) (events : List Event) : Prop :=
  (arrivals events).IsChain fun before after => after < before + ttl

theorem read_only_lost : ¬ ∀ (ttl : Int) (events : List Event), 0 < ttl →
    Throughout Orderly ttl start events → Close ttl events → Throughout InMaxAge ttl start events →
    ∀ answer ∈ (answers ttl start events).tail, answer = some 0 := by
  intro claimed
  have known : ∀ {P : Prop}, some 0 = (none : Option Nat) → P := fun impossible => by cases impossible
  have orderly : Throughout Orderly 10 start
      [.arrive 0 0, .respond 0 [] 0, .arrive 1 6, .respond 1 [] 6, .arrive 2 12] :=
    ⟨⟨by decide, rfl, fun _ _ => rfl⟩, ⟨by decide, by simp, by simp⟩,
      ⟨by decide, rfl, fun none => known none⟩, ⟨by decide, by simp, by simp⟩,
      ⟨by decide, rfl, fun none => known none⟩, trivial⟩
  have close : Close 10 [.arrive 0 0, .respond 0 [] 0, .arrive 1 6, .respond 1 [] 6, .arrive 2 12] := by
    simp [Close, arrivals]
  have inMaxAge : Throughout InMaxAge 10 start
      [.arrive 0 0, .respond 0 [] 0, .arrive 1 6, .respond 1 [] 6, .arrive 2 12] :=
    ⟨fun present => absurd rfl present, trivial, fun _ => by decide, trivial, fun _ => by decide, trivial⟩
  have lost := claimed 10 _ (by decide) orderly close inMaxAge none (by decide)
  cases lost

end Firefly.Session.Sliding
