import Firefly.Transactional.Events

set_option autoImplicit false

namespace Firefly.Transactional.Events

variable {ε σ τ : Type}

def Note.delivery? : Note ε → Option (Nat × Nat × TransactionPhase)
  | .delivered number listener phase => some (number, listener, phase)
  | _ => none

def deliveries (log : List (Note ε)) (number listener : Nat) (phase : TransactionPhase) : Nat :=
  (log.filterMap Note.delivery?).count (number, listener, phase)

theorem deliveries_append (log more : List (Note ε)) (number listener : Nat)
    (phase : TransactionPhase) :
    deliveries (log ++ more) number listener phase =
      deliveries log number listener phase + deliveries more number listener phase := by
  rw [deliveries, List.filterMap_append, List.count_append]
  rfl

theorem mem_delivery {log : List (Note ε)} {number listener : Nat} {phase : TransactionPhase} :
    (number, listener, phase) ∈ log.filterMap Note.delivery? ↔
      .delivered number listener phase ∈ log := by
  rw [List.mem_filterMap]
  constructor
  · rintro ⟨note, among, delivers⟩
    cases note <;> simp [Note.delivery?] at delivers
    obtain ⟨rfl, rfl, rfl⟩ := delivers
    exact among
  · intro among
    exact ⟨_, among, rfl⟩

section ToRun

variable {listeners : ε → List (Listener ε)} {phase : TransactionPhase}
  {events : List (BufferedEvent ε)}

def due (listeners : ε → List (Listener ε)) (phase : TransactionPhase)
    (events : List (BufferedEvent ε)) : List (Nat × Nat × TransactionPhase) :=
  (toRun listeners phase events).map fun entry => (entry.1, entry.2.1, phase)

theorem mem_due {number i : Nat} {q : TransactionPhase}
    (among : (number, i, q) ∈ due listeners phase events) :
    q = phase ∧ number ∈ events.map (·.number) := by
  simp only [due, toRun, List.mem_map, List.mem_flatMap] at among
  obtain ⟨_, ⟨buffered, inside, entry, -, rfl⟩, same⟩ := among
  obtain ⟨rfl, -, rfl⟩ := by simpa using same
  exact ⟨rfl, List.mem_map_of_mem inside⟩

theorem count_listeners {all : List (Listener ε)} {i : Nat} {listener : Listener ε}
    (number : Nat) (listens : all[i]? = some listener) (bound : listener.phase = some phase) :
    ((all.zipIdx.filter fun entry => entry.1.phase = some phase).map
      fun entry => (number, entry.2, phase)).count (number, i, phase) = 1 := by
  refine List.count_eq_one_of_mem ?_ ?_
  · -- a listener stands at one index
    have indices : (all.zipIdx.map Prod.snd).Nodup := by
      rw [List.zipIdx_map_snd]
      exact List.nodup_range'
    have kept : ((all.zipIdx.filter fun entry => entry.1.phase = some phase).map Prod.snd).Nodup :=
      indices.sublist (List.Sublist.map _ List.filter_sublist)
    have tagged := kept.map (f := fun j => (number, j, phase)) fun a b same => by simpa using same
    rwa [List.map_map] at tagged
  · refine List.mem_map.mpr ⟨(listener, i), List.mem_filter.mpr ⟨?_, by simpa using bound⟩, rfl⟩
    exact List.mem_zipIdx_iff_getElem?.mpr listens

theorem due_cons (buffered : BufferedEvent ε) (events : List (BufferedEvent ε)) :
    due listeners phase (buffered :: events) =
      ((listeners buffered.event).zipIdx.filter fun entry => entry.1.phase = some phase).map
        (fun entry => (buffered.number, entry.2, phase)) ++ due listeners phase events := by
  simp [due, toRun, Function.comp_def]

theorem count_due {buffered : BufferedEvent ε} {i : Nat} {listener : Listener ε}
    (numbered : (events.map (·.number)).Nodup) (among : buffered ∈ events)
    (listens : (listeners buffered.event)[i]? = some listener) (bound : listener.phase = some phase) :
    (due listeners phase events).count (buffered.number, i, phase) = 1 := by
  induction events with
  | nil => cases among
  | cons first events ih =>
    obtain ⟨fresh, numbered⟩ := List.nodup_cons.mp numbered
    rw [due_cons, List.count_append]
    rcases List.mem_cons.mp among with rfl | later
    · have none_later : (buffered.number, i, phase) ∉ due listeners phase events :=
        fun among => fresh (mem_due among).2
      rw [count_listeners buffered.number listens bound, List.count_eq_zero_of_not_mem none_later]
    · have other : first.number ≠ buffered.number :=
        fun same => fresh (List.mem_map.mpr ⟨buffered, later, same.symm⟩)
      rw [ih numbered later, List.count_eq_zero_of_not_mem]
      intro among
      obtain ⟨entry, -, same⟩ := List.mem_map.mp among
      exact other (congrArg Prod.fst same)

end ToRun

structure Ledger (ε : Type) where
  buffer : Option (Scope ε)
  within : List Nat
  calls : Nat
  numbers : Nat
  log : List (Note ε)

def World.ledger (w : World ε σ) : Ledger ε :=
  { buffer := w.buffer, within := w.within, calls := w.calls, numbers := w.numbers, log := w.log }

theorem World.ledger_record (w : World ε σ) (note : Note ε) :
    (w.record note).ledger = { w.ledger with log := w.ledger.log ++ [note] } := rfl

def Ended (log : List (Note ε)) (call : Nat) : Prop :=
  ∃ failed report, .ended call failed report ∈ log

theorem Ended.mono {log more : List (Note ε)} {call : Nat} (ended : Ended log call)
    (kept : log ⊆ more) : Ended more call := by
  obtain ⟨failed, report, among⟩ := ended
  exact ⟨failed, report, kept among⟩

structure Inside (scope : Scope ε) (passed : List TransactionPhase) (l l' : Ledger ε)
    (added : List (BufferedEvent ε)) (notes : List (Note ε))
    (made : List (Nat × Nat × TransactionPhase)) : Prop where
  buffer : l'.buffer = some { scope with events := scope.events ++ added, passed }
  log : l'.log = l.log ++ notes
  calls : l.calls ≤ l'.calls
  numbered : added.map (·.number) = List.range' l.numbers added.length
  numbers : l'.numbers = l.numbers + added.length
  delivers : notes.filterMap Note.delivery? = made
  published : ∀ buffered call tx phases calls, .published buffered call tx phases calls ∈ notes →
    buffered ∈ added ∧ call = scope.call ∧ phases = passed
  ended : ∀ call failed report, .ended call failed report ∈ notes →
    l.calls ≤ call ∧ call < l'.calls
  within : l'.within = l.within
  enclosed : ∀ buffered call tx phases calls, .published buffered call tx phases calls ∈ notes →
    ∀ outer ∈ calls, outer ∈ l.within ∨ Ended notes outer

section Inside

variable {scope : Scope ε} {passed : List TransactionPhase} {l l' l'' : Ledger ε}
  {added added' : List (BufferedEvent ε)} {notes notes' : List (Note ε)}
  {made made' : List (Nat × Nat × TransactionPhase)}

theorem Inside.refl (held : l.buffer = some scope) : Inside scope scope.passed l l [] [] [] where
  buffer := by rw [held, List.append_nil]
  log := (List.append_nil _).symm
  calls := le_rfl
  numbered := rfl
  numbers := rfl
  delivers := rfl
  published := by simp
  ended := by simp
  within := rfl
  enclosed := by simp

theorem Inside.trans (first : Inside scope passed l l' added notes made)
    (second : Inside { scope with events := scope.events ++ added, passed } passed l' l'' added'
      notes' made') :
    Inside scope passed l l'' (added ++ added') (notes ++ notes') (made ++ made') where
  buffer := by rw [second.buffer, List.append_assoc]
  log := by rw [second.log, first.log, List.append_assoc]
  calls := first.calls.trans second.calls
  numbered := by
    rw [List.map_append, first.numbered, second.numbered, first.numbers, List.length_append,
      List.range'_append_1]
  numbers := by rw [second.numbers, first.numbers, List.length_append, Nat.add_assoc]
  delivers := by rw [List.filterMap_append, first.delivers, second.delivers]
  published := by
    intro buffered call tx phases calls among
    rcases List.mem_append.mp among with before | after
    · obtain ⟨inside, rest⟩ := first.published _ _ _ _ _ before
      exact ⟨List.mem_append_left _ inside, rest⟩
    · obtain ⟨inside, rest⟩ := second.published _ _ _ _ _ after
      exact ⟨List.mem_append_right _ inside, rest⟩
  ended := by
    intro call failed report among
    have low := first.calls
    have high := second.calls
    rcases List.mem_append.mp among with before | after
    · have := first.ended _ _ _ before
      omega
    · have := second.ended _ _ _ after
      omega
  within := by rw [second.within, first.within]
  enclosed := by
    intro buffered call tx phases calls among outer held
    rcases List.mem_append.mp among with before | after
    · refine (first.enclosed _ _ _ _ _ before outer held).imp_right fun ended => ?_
      exact ended.mono (List.subset_append_left _ _)
    · have placed := second.enclosed _ _ _ _ _ after outer held
      rw [first.within] at placed
      exact placed.imp_right fun ended => ended.mono (List.subset_append_right _ _)

theorem inside_published (scope : Scope ε) (l : Ledger ε) (event : ε) (tx : Nat) :
    let buffered : BufferedEvent ε := { number := l.numbers, event }
    let note := Note.published buffered scope.call tx scope.passed l.within
    Inside scope scope.passed l
      { l with
        buffer := some { scope with events := scope.events ++ [buffered] }
        numbers := l.numbers + 1
        log := l.log ++ [note] } [buffered] [note] [] where
  buffer := rfl
  log := rfl
  calls := le_rfl
  numbered := rfl
  numbers := rfl
  delivers := rfl
  published := by simp +contextual
  ended := by simp
  within := rfl
  enclosed := by simp +contextual

theorem Inside.ends {call : Nat} {failed : Bool} {report : Except TxError Bool} {within : List Nat}
    (inner : Inside scope passed { l with within } l' added notes made)
    (around : within ⊆ call :: l.within) (low : l.calls ≤ call) (high : call < l'.calls) :
    Inside scope passed l
      { l' with within := l.within, log := l'.log ++ [.ended call failed report] } added
      (notes ++ [.ended call failed report]) made where
  buffer := inner.buffer
  log := by rw [inner.log, List.append_assoc]
  calls := inner.calls
  numbered := inner.numbered
  numbers := inner.numbers
  delivers := by simp [Note.delivery?, inner.delivers]
  published := by simpa using inner.published
  ended := by
    intro other failed' report' among
    rcases List.mem_append.mp among with before | here
    · exact inner.ended _ _ _ before
    · obtain ⟨rfl, -, -⟩ := by simpa using here
      exact ⟨low, high⟩
  within := rfl
  enclosed := by
    intro buffered call' tx phases calls among outer held
    have before := by simpa using among
    rcases inner.enclosed _ _ _ _ _ before outer held with open' | ended
    · rcases List.mem_cons.mp (around open') with rfl | further
      · exact .inr ⟨failed, report, by simp⟩
      · exact .inl further
    · exact .inr (ended.mono (List.subset_append_left _ _))

end Inside

def StaysInside (leads : World ε σ → World ε σ → Prop) : Prop :=
  ∀ scope w w', w.buffer = some scope → leads w w' →
    ∃ added notes, Inside scope scope.passed w.ledger w'.ledger added notes []

section Folds

variable {α : Type} {f : World ε σ → α → Option (World ε σ)}

theorem inside_foldlM (made : α → List (Nat × Nat × TransactionPhase))
    (step : ∀ item scope w w', w.buffer = some scope → f w item = some w' →
      ∃ added notes, Inside scope scope.passed w.ledger w'.ledger added notes (made item))
    (items : List α) {scope : Scope ε} {w w' : World ε σ} (held : w.buffer = some scope)
    (folded : items.foldlM f w = some w') :
    ∃ added notes, Inside scope scope.passed w.ledger w'.ledger added notes
      (items.flatMap made) := by
  induction items generalizing scope w with
  | nil =>
    cases folded
    exact ⟨[], [], .refl held⟩
  | cons item items ih =>
    rw [List.foldlM_cons] at folded
    obtain ⟨middle, first, rest⟩ := Option.bind_eq_some_iff.mp folded
    obtain ⟨added, notes, inside⟩ := step item scope w middle held first
    obtain ⟨added', notes', inside'⟩ := ih inside.buffer rest
    exact ⟨_, _, inside.trans inside'⟩

end Folds

section Calls

def Dispatches (dispatch : Listener ε → World ε σ → Option (World ε σ)) (listener : Listener ε)
    (w w' : World ε σ) : Prop :=
  dispatch listener w = some w'

def Leads (f : World ε σ → Option (Except TxError Unit × World ε σ)) (w w' : World ε σ) : Prop :=
  ∃ result, f w = some (result, w')

variable {setting : Setting ε σ τ} {dispatch : Listener ε → World ε σ → Option (World ε σ)}
  {f : World ε σ → Option (Except TxError Unit × World ε σ)}

theorem publishEvent_inside (stays : ∀ listener, StaysInside (Dispatches dispatch listener)) (event : ε) :
    StaysInside fun w w' => publishEvent setting dispatch event w = some w' := by
  intro scope w w' held ran
  obtain ⟨middle, immediate, rest⟩ := Option.bind_eq_some_iff.mp ran
  obtain ⟨added, notes, inside⟩ := inside_foldlM (fun _ => [])
    (fun listener scope w w' held ran => stays listener scope w w' held ran) _ held immediate
  rw [List.flatMap_eq_nil_iff.mpr fun _ _ => rfl] at inside
  have buffered : middle.buffer = some _ := inside.buffer
  split at rest
  next =>
    rw [buffered] at rest
    obtain rfl := Option.some.inj rest
    exact ⟨_, _, inside.trans (inside_published _ _ event _)⟩
  next =>
    obtain rfl := Option.some.inj rest
    exact ⟨_, _, inside⟩

-- Everything that is buffered when a phase begins is due in it.
theorem dispatchPhase_inside (stays : ∀ listener, StaysInside (Dispatches dispatch listener))
    {phase : TransactionPhase} {scope : Scope ε} {w w' : World ε σ} (held : w.buffer = some scope)
    (ran : dispatchPhase setting dispatch phase w = some w') :
    ∃ added notes, Inside scope (scope.passed ++ [phase]) w.ledger w'.ledger added notes
      (due setting.listeners phase scope.events) := by
  rw [dispatchPhase, held] at ran
  have begins : Inside scope (scope.passed ++ [phase]) w.ledger (World.ledger (World.record
      { w with buffer := some { scope with passed := scope.passed ++ [phase] } }
      (.dispatched scope.call phase))) [] [.dispatched scope.call phase] [] :=
    { buffer := by rw [List.append_nil]; rfl, log := rfl, calls := le_rfl, numbered := rfl,
      numbers := rfl, delivers := rfl, published := by simp, ended := by simp, within := rfl,
      enclosed := by simp }
  have given : ∀ entry scope w w', w.buffer = some scope → deliver dispatch phase w entry = some w' →
      ∃ added notes, Inside scope scope.passed w.ledger w'.ledger added notes
        [(entry.1, entry.2.1, phase)] := by
    intro entry scope w w' held ran
    obtain ⟨added, notes, inside⟩ := stays entry.2.2 scope
      (w.record (.delivered entry.1 entry.2.1 phase)) w' held ran
    have noted : Inside scope scope.passed w.ledger
        (World.ledger (w.record (.delivered entry.1 entry.2.1 phase))) []
        [.delivered entry.1 entry.2.1 phase] [(entry.1, entry.2.1, phase)] :=
      { buffer := by rw [List.append_nil]; exact held, log := rfl, calls := le_rfl,
        numbered := rfl, numbers := rfl, delivers := rfl, published := by simp, ended := by simp,
        within := rfl, enclosed := by simp }
    exact ⟨_, _, noted.trans (by simpa using inside)⟩
  obtain ⟨added, notes, inside⟩ := inside_foldlM
    (fun entry => [(entry.1, entry.2.1, phase)]) given _ begins.buffer ran
  rw [due, List.map_eq_flatMap]
  exact ⟨_, _, begins.trans inside⟩

theorem standing_within (call : Nat) (around : List Nat) (standing : Standing) :
    standing.within call around ⊆ call :: around := by
  cases standing <;> simp [Standing.within]

-- What a manager has done to the world but for the session: nothing, or what the operation and the
-- dispatch of BEFORE_COMMIT have done.
theorem execute_cases {propagation : Propagation} {shouldRollback : TxError → Bool} {ownsScope : Bool}
    {call : Nat} {w : World ε σ} {executed : Executed ε σ}
    (ran : execute setting dispatch propagation shouldRollback ownsScope call f w = some executed) :
    executed.failed = true ∧ executed.after.ledger = w.ledger ∨
      ∃ start result inside middle within, within ⊆ call :: w.within ∧
        start.ledger = { w.ledger with within } ∧ f start = some (result, inside) ∧
        executed.failed = (outcomeOf shouldRollback result).rolledBack ∧
        (if (ownsScope && !executed.failed) = true then
          dispatchPhase setting dispatch .beforeCommit inside = some middle else inside = middle) ∧
        executed.after.ledger = { middle.ledger with within := w.within } := by
  unfold execute at ran
  split at ran
  next =>
    obtain rfl := Option.some.inj ran
    exact .inl ⟨rfl, rfl⟩
  next token session entered =>
    right
    obtain ⟨⟨result, inside⟩, called, ran⟩ := Option.bind_eq_some_iff.mp ran
    let start : World ε σ :=
      { w with
        session
        owning := if setting.owns token then call :: w.owning else w.owning
        within := (setting.standing token).within call w.within }
    have around := standing_within call w.within (setting.standing token)
    by_cases owned : (ownsScope && !(outcomeOf shouldRollback result).rolledBack) = true
    · simp only [owned, if_true] at ran
      obtain ⟨middle, before, ran⟩ := Option.bind_eq_some_iff.mp ran
      obtain rfl := Option.some.inj ran
      exact ⟨start, result, inside, middle, _, around, rfl, called, rfl, by rwa [if_pos owned], rfl⟩
    · simp only [owned, Bool.false_eq_true, if_false] at ran
      obtain rfl := Option.some.inj ran
      exact ⟨start, result, inside, inside, _, around, rfl, called, rfl, by rw [if_neg owned], rfl⟩

theorem transactionalWithOn_inside {propagation : Propagation} {shouldRollback : TxError → Bool}
    (body : StaysInside (Leads f)) :
    StaysInside (Leads (transactionalWithOn setting dispatch propagation shouldRollback f)) := by
  rintro scope w w' held ⟨result, ran⟩
  obtain ⟨executed, called, ends⟩ := Option.bind_eq_some_iff.mp ran
  have shared : w.buffer.isNone = false := by rw [held]; rfl
  simp only [shared, Bool.false_eq_true, if_false] at called ends
  obtain rfl : executed.after.record _ = w' := congrArg Prod.snd (Option.some.inj ends)
  have opened : ∀ within, Inside scope scope.passed { w.ledger with within }
      { w.ledger with within, calls := w.calls + 1 } [] [] [] := fun within =>
    { Inside.refl (l := { w.ledger with within }) held with
      calls := Nat.le_succ _, ended := by simp, within := rfl, enclosed := by simp }
  rcases execute_cases called with
    ⟨-, same⟩ | ⟨start, result, inside, middle, within, around, same, entered, -, before, after⟩
  · rw [World.ledger_record, same]
    exact ⟨_, _, (opened w.within).ends (List.subset_cons_self _ _) le_rfl (Nat.lt_succ_self _)⟩
  · rw [Bool.false_and, if_neg Bool.false_ne_true] at before
    have held' : start.buffer = some scope := (congrArg Ledger.buffer same).trans held
    obtain ⟨added, notes, runs⟩ := body scope start inside held' ⟨result, entered⟩
    have runs : Inside scope scope.passed { w.ledger with within, calls := w.calls + 1 }
        inside.ledger added notes [] := by
      rw [same] at runs
      exact runs
    rw [World.ledger_record, after, ← before]
    have all := (opened within).trans (by simpa only [List.append_nil] using runs)
    exact ⟨_, _, all.ends around le_rfl (Nat.lt_of_succ_le runs.calls)⟩

theorem runWith_inside (stays : ∀ listener, StaysInside (Dispatches dispatch listener))
    (program : Program ε) : StaysInside (Leads (program.runWith setting dispatch)) := by
  induction program with
  | done result =>
    rintro scope w w' held ⟨result', ran⟩
    obtain ⟨-, rfl⟩ := Prod.mk.inj (Option.some.inj ran)
    exact ⟨[], [], .refl held⟩
  | statement sql next ih =>
    intro scope w w' held ran
    exact ih scope { w with session := setting.execute sql w.session } w' held ran
  | publish event next ih =>
    rintro scope w w' held ⟨result, ran⟩
    obtain ⟨middle, published, ran⟩ := Option.bind_eq_some_iff.mp ran
    obtain ⟨added, notes, first⟩ := publishEvent_inside stays event scope w middle held published
    obtain ⟨added', notes', rest⟩ := ih _ middle w' first.buffer ⟨result, ran⟩
    exact ⟨_, _, first.trans rest⟩
  | call propagation shouldRollback body next bodyIh nextIh =>
    rintro scope w w' held ⟨result, ran⟩
    obtain ⟨⟨value, middle⟩, called, ran⟩ := Option.bind_eq_some_iff.mp ran
    obtain ⟨added, notes, first⟩ :=
      transactionalWithOn_inside bodyIh scope w middle held ⟨value, called⟩
    obtain ⟨added', notes', rest⟩ := nextIh value _ middle w' first.buffer ⟨result, ran⟩
    exact ⟨_, _, first.trans rest⟩

theorem dispatchAt_inside (depth : Nat) (listener : Listener ε) :
    StaysInside (Dispatches (dispatchAt setting depth) listener) := by
  induction depth generalizing listener with
  | zero =>
    intro scope w w' held ran
    cases ran
  | succ depth ih =>
    intro scope w w' held ran
    obtain ⟨⟨result, last⟩, whole, rfl⟩ := Option.map_eq_some_iff.mp ran
    exact runWith_inside ih listener.dispatcher scope w last held ⟨result, whole⟩

end Calls

end Firefly.Transactional.Events
