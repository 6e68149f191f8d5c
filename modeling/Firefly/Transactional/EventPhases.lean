import Firefly.Transactional.EventLedger

set_option autoImplicit false

namespace Firefly.Transactional.Events

variable {ε σ τ : Type}

structure Book (listeners : ε → List (Listener ε)) (l l' : Ledger ε) (notes : List (Note ε)) :
    Prop where
  buffer : l'.buffer = none
  log : l'.log = l.log ++ notes
  calls : l.calls ≤ l'.calls
  numbers : l.numbers ≤ l'.numbers
  published : ∀ buffered call tx passed calls, .published buffered call tx passed calls ∈ notes →
    (l.numbers ≤ buffered.number ∧ buffered.number < l'.numbers) ∧
      l.calls ≤ call ∧ call < l'.calls
  settled : ∀ buffered call tx passed calls, .published buffered call tx passed calls ∈ notes →
    ∃ failed report, Settled listeners notes buffered call passed failed report
  delivered : ∀ number i q, .delivered number i q ∈ notes →
    l.numbers ≤ number ∧ number < l'.numbers
  ended : ∀ call failed report, .ended call failed report ∈ notes →
    l.calls ≤ call ∧ call < l'.calls
  within : l'.within = []
  enclosed : ∀ buffered call tx passed calls, .published buffered call tx passed calls ∈ notes →
    passed ⊆ [.beforeCommit] → Enclosed notes call calls

section Book

variable {listeners : ε → List (Listener ε)} {l l' l'' : Ledger ε} {notes notes' : List (Note ε)}
  {buffered : BufferedEvent ε} {call : Nat} {passed : List TransactionPhase} {failed : Bool}
  {report : Except TxError Bool}

theorem Book.refl (listeners : ε → List (Listener ε)) (idle : l.buffer = none)
    (outside : l.within = []) : Book listeners l l [] where
  buffer := idle
  log := (List.append_nil _).symm
  calls := le_rfl
  numbers := le_rfl
  published := by simp
  settled := by simp
  delivered := by simp
  ended := by simp
  within := outside
  enclosed := by simp

theorem Settled.append (settled : Settled listeners notes buffered call passed failed report)
    (unended : ∀ failed report, .ended call failed report ∉ notes')
    (unmade : ∀ i q, .delivered buffered.number i q ∉ notes') :
    Settled listeners (notes ++ notes') buffered call passed failed report where
  ended_iff := by
    intro failed' report'
    rw [List.mem_append, settled.ended_iff]
    exact or_iff_left (unended failed' report')
  counted := by
    intro i listener q listens bound
    rw [deliveries_append, deliveries_eq_zero i q unmade]
    exact settled.counted i listener q listens bound
  order := by
    intro earlier i q front given after
    rcases List.prefix_or_prefix_of_prefix front (List.prefix_append notes notes') with
      within | beyond
    · exact settled.order earlier i q within given after
    · exact beyond.subset ((settled.ended_iff failed report).mpr ⟨rfl, rfl⟩)
  begun := settled.begun

theorem Settled.prepend (settled : Settled listeners notes' buffered call passed failed report)
    (unended : ∀ failed report, .ended call failed report ∉ notes)
    (unmade : ∀ i q, .delivered buffered.number i q ∉ notes) :
    Settled listeners (notes ++ notes') buffered call passed failed report where
  ended_iff := by
    intro failed' report'
    rw [List.mem_append, settled.ended_iff]
    exact or_iff_right (unended failed' report')
  counted := by
    intro i listener q listens bound
    rw [deliveries_append, deliveries_eq_zero i q unmade, Nat.zero_add]
    exact settled.counted i listener q listens bound
  order := by
    intro earlier i q front given after
    rcases List.prefix_or_prefix_of_prefix front (List.prefix_append notes notes') with
      within | ⟨later, rfl⟩
    · exact absurd (within.subset given) (unmade i q)
    · have given' := (List.mem_append.mp given).resolve_left (unmade i q)
      have front' := (List.prefix_append_right_inj notes).mp front
      exact List.mem_append_right _ (settled.order later i q front' given' after)
  begun := settled.begun

theorem Enclosed.append {calls : List Nat} (enclosed : Enclosed notes call calls)
    (ended : Ended notes call) : Enclosed (notes ++ notes') call calls := by
  intro earlier front there outer held
  rcases List.prefix_or_prefix_of_prefix front (List.prefix_append notes notes') with
    within | beyond
  · exact enclosed earlier within there outer held
  · exact (enclosed notes List.prefix_rfl ended outer held).mono beyond.subset

theorem Enclosed.prepend {calls : List Nat} (enclosed : Enclosed notes' call calls)
    (unended : ∀ failed report, .ended call failed report ∉ notes) :
    Enclosed (notes ++ notes') call calls := by
  rintro earlier front ⟨failed, report, among⟩ outer held
  rcases List.prefix_or_prefix_of_prefix front (List.prefix_append notes notes') with
    within | ⟨later, rfl⟩
  · exact absurd (within.subset among) (unended failed report)
  · have ended := (List.mem_append.mp among).resolve_left (unended failed report)
    have front' := (List.prefix_append_right_inj notes).mp front
    exact (enclosed later front' ⟨failed, report, ended⟩ outer held).mono
      (List.subset_append_right _ _)

theorem Book.trans (first : Book listeners l l' notes) (second : Book listeners l' l'' notes') :
    Book listeners l l'' (notes ++ notes') where
  buffer := second.buffer
  log := by rw [second.log, first.log, List.append_assoc]
  calls := first.calls.trans second.calls
  numbers := first.numbers.trans second.numbers
  published := by
    intro buffered call tx passed calls among
    have calls := And.intro first.calls second.calls
    have numbers := And.intro first.numbers second.numbers
    rcases List.mem_append.mp among with before | after
    · have := first.published _ _ _ _ _ before
      omega
    · have := second.published _ _ _ _ _ after
      omega
  settled := by
    intro buffered call tx passed calls among
    rcases List.mem_append.mp among with before | after
    · obtain ⟨failed, report, settled⟩ := first.settled _ _ _ _ _ before
      have range := first.published _ _ _ _ _ before
      refine ⟨failed, report, settled.append (fun failed report ended => ?_) fun i q given => ?_⟩
      · have := second.ended _ _ _ ended
        omega
      · have := second.delivered _ _ _ given
        omega
    · obtain ⟨failed, report, settled⟩ := second.settled _ _ _ _ _ after
      have range := second.published _ _ _ _ _ after
      refine ⟨failed, report, settled.prepend (fun failed report ended => ?_) fun i q given => ?_⟩
      · have := first.ended _ _ _ ended
        omega
      · have := first.delivered _ _ _ given
        omega
  delivered := by
    intro number i q among
    have numbers := And.intro first.numbers second.numbers
    rcases List.mem_append.mp among with before | after
    · have := first.delivered _ _ _ before
      omega
    · have := second.delivered _ _ _ after
      omega
  ended := by
    intro call failed report among
    have calls := And.intro first.calls second.calls
    rcases List.mem_append.mp among with before | after
    · have := first.ended _ _ _ before
      omega
    · have := second.ended _ _ _ after
      omega
  within := second.within
  enclosed := by
    intro buffered call tx passed calls among early
    rcases List.mem_append.mp among with before | after
    · obtain ⟨failed, report, settled⟩ := first.settled _ _ _ _ _ before
      exact (first.enclosed _ _ _ _ _ before early).append
        ⟨failed, report, (settled.ended_iff _ _).mpr ⟨rfl, rfl⟩⟩
    · refine (second.enclosed _ _ _ _ _ after early).prepend fun failed report ended => ?_
      have range := second.published _ _ _ _ _ after
      have := first.ended _ _ _ ended
      omega

theorem Running.book {scope : Scope ε} {failed : Bool} {report : Except TxError Bool}
    (running : Running listeners l l' scope notes (some (failed, report)))
    (whole : scope.passed = phases failed report) (outside : l'.within = []) :
    Book listeners l { l' with buffer := none } notes where
  buffer := rfl
  log := running.log
  calls := running.calls.le
  numbers := by
    rw [show Ledger.numbers { l' with buffer := none } = l'.numbers from rfl, running.numbers]
    exact Nat.le_add_right _ _
  published := by
    intro buffered call tx passed calls among
    obtain ⟨inside, rfl, -⟩ := running.published _ _ _ _ _ among
    have number := List.mem_map_of_mem (f := BufferedEvent.number) inside
    rw [running.numbered, List.mem_range'_1, ← running.numbers] at number
    exact ⟨number, le_rfl, running.calls⟩
  settled := fun buffered call tx passed calls among => ⟨failed, report, running.settled whole among⟩
  delivered := by
    intro number i q among
    have number := (running.delivered _ _ _ among).1
    rwa [running.numbered, List.mem_range'_1, ← running.numbers] at number
  ended := running.ended
  within := outside
  enclosed := by
    intro buffered call tx passed calls among early
    obtain ⟨-, rfl, -⟩ := running.published _ _ _ _ _ among
    exact running.enclosed _ _ _ _ _ among early

end Book

def StaysOutside (listeners : ε → List (Listener ε)) (leads : World ε σ → World ε σ → Prop) : Prop :=
  ∀ w w', w.buffer = none → w.within = [] → leads w w' → ∃ notes, Book listeners w.ledger w'.ledger notes

section Calls

variable {setting : Setting ε σ τ} {dispatch : Listener ε → World ε σ → Option (World ε σ)}
  {f : World ε σ → Option (Except TxError Unit × World ε σ)}

theorem outside_foldlM
    (dispatched : ∀ listener, StaysOutside setting.listeners (Dispatches dispatch listener))
    (all : List (Listener ε)) {w w' : World ε σ} (idle : w.buffer = none) (outside : w.within = [])
    (folded : all.foldlM (fun w listener => dispatch listener w) w = some w') :
    ∃ notes, Book setting.listeners w.ledger w'.ledger notes := by
  induction all generalizing w with
  | nil =>
    cases folded
    exact ⟨[], .refl _ idle outside⟩
  | cons listener all ih =>
    rw [List.foldlM_cons] at folded
    obtain ⟨middle, first, rest⟩ := Option.bind_eq_some_iff.mp folded
    obtain ⟨notes, book⟩ := dispatched listener w middle idle outside first
    obtain ⟨notes', book'⟩ := ih book.buffer book.within rest
    exact ⟨_, book.trans book'⟩

theorem publishEvent_outside
    (dispatched : ∀ listener, StaysOutside setting.listeners (Dispatches dispatch listener))
    (event : ε) :
    StaysOutside setting.listeners fun w w' => publishEvent setting dispatch event w = some w' := by
  intro w w' idle outside ran
  obtain ⟨middle, immediate, rest⟩ := Option.bind_eq_some_iff.mp ran
  obtain ⟨notes, book⟩ := outside_foldlM dispatched _ idle outside immediate
  have idle' : middle.buffer = none := book.buffer
  split at rest
  next =>
    rw [idle'] at rest
    obtain ⟨notes', book'⟩ := outside_foldlM dispatched _ idle' book.within rest
    exact ⟨_, book.trans book'⟩
  next =>
    obtain rfl := Option.some.inj rest
    exact ⟨_, book⟩

theorem execute_running (stays : ∀ listener, StaysInside (Dispatches dispatch listener))
    (body : StaysInside (Leads f)) {propagation : Propagation} {shouldRollback : TxError → Bool}
    {l₀ : Ledger ε} {w : World ε σ} {scope : Scope ε} {executed : Executed ε σ} {call : Nat}
    (running : Running setting.listeners l₀ w.ledger scope [] none) (unpassed : scope.passed = [])
    (opens : call = l₀.calls) (outside : w.within = [])
    (ran : execute setting dispatch propagation shouldRollback true call f w = some executed) :
    executed.after.ledger.within = [] ∧
    ∃ scope' notes, Running setting.listeners l₀ executed.after.ledger scope' notes none ∧
      scope'.passed = if executed.failed then [] else [.beforeCommit] := by
  rcases execute_cases ran with
    ⟨failed, same⟩ | ⟨start, result, inside, middle, within, around, same, entered, -, before, after⟩
  · refine ⟨by rw [same]; exact outside, scope, [], same ▸ running, ?_⟩
    rw [failed, unpassed]
    rfl
  · rw [opens, outside] at around
    have running := running.enter around
    rw [← same] at running
    refine ⟨by rw [after]; exact outside, ?_⟩
    obtain ⟨added, notes, runs⟩ := body scope start inside running.buffer ⟨result, entered⟩
    have ran := running.inside runs
    rw [after, outside]
    cases failed : executed.failed with
    | true =>
      simp only [failed, Bool.not_true, Bool.and_false, Bool.false_eq_true, if_false] at before
      exact ⟨{ scope with events := scope.events ++ added }, notes,
        before ▸ ran.enter (List.nil_subset _), unpassed⟩
    | false =>
      simp only [failed, Bool.not_false, Bool.and_true, if_true] at before
      obtain ⟨added', notes', phase⟩ := dispatchPhase_inside stays ran.buffer before
      have dispatched := ran.dispatch phase (by simp [unpassed]) (iff_of_true rfl rfl)
      exact ⟨_, _, dispatched.enter (List.nil_subset _), by simp [unpassed]⟩

theorem completionPhase_late (report : Except TxError Bool) :
    completionPhase report ≠ .beforeCommit ∧ completionPhase report ≠ .afterCompletion := by
  unfold completionPhase
  split <;> decide

theorem transactionalWithOn_outside
    (stays : ∀ listener, StaysInside (Dispatches dispatch listener)) (body : StaysInside (Leads f))
    {propagation : Propagation} {shouldRollback : TxError → Bool} :
    StaysOutside setting.listeners
      (Leads (transactionalWithOn setting dispatch propagation shouldRollback f)) := by
  rintro w w' idle outside ⟨result, ran⟩
  obtain ⟨executed, called, ends⟩ := Option.bind_eq_some_iff.mp ran
  have owned : w.buffer.isNone = true := by rw [idle]; rfl
  simp only [owned, if_true] at called ends
  obtain ⟨middle, completes, ends⟩ := Option.bind_eq_some_iff.mp ends
  obtain ⟨last, finishes, ends⟩ := Option.bind_eq_some_iff.mp ends
  obtain rfl : { last with buffer := none } = w' := congrArg Prod.snd (Option.some.inj ends)
  have opened : Running setting.listeners w.ledger
      (World.ledger { w with calls := w.calls + 1, buffer := some { call := w.calls } })
      { call := w.calls } [] none :=
    { buffer := rfl, log := (List.append_nil _).symm, call := rfl, calls := Nat.lt_succ_self _,
      numbered := rfl, numbers := rfl, published := by simp, counted := by simp,
      delivered := by simp, ended := by simp, own := by simp, early := by simp,
      order := by simp +contextual, around := fun _ => by simp [World.ledger, outside],
      within := by simp, enclosed := by simp }
  obtain ⟨outside', scope, notes, running, passed⟩ :=
    execute_running stays body opened rfl rfl outside called
  have closed := running.closes executed.failed (executed.answer.map (·.rolledBack))
  obtain ⟨late, other⟩ := completionPhase_late (executed.answer.map (·.rolledBack))
  obtain ⟨added₁, notes₁, phase₁⟩ := dispatchPhase_inside (w := executed.after.record _) stays closed.buffer
    completes
  have completed := closed.dispatch phase₁ (by rw [passed]; split <;> simp [late])
    (iff_of_false nofun late)
  obtain ⟨added₂, notes₂, phase₂⟩ := dispatchPhase_inside stays completed.buffer finishes
  have finished := completed.dispatch phase₂ (by rw [passed]; split <;> simp [Ne.symm other])
    (iff_of_false nofun nofun)
  refine ⟨_, finished.book ?_ (by rw [phase₂.within, phase₁.within]; exact outside')⟩
  rw [phases, passed]
  split <;> simp

theorem runWith_outside (stays : ∀ listener, StaysInside (Dispatches dispatch listener))
    (dispatched : ∀ listener, StaysOutside setting.listeners (Dispatches dispatch listener))
    (program : Program ε) :
    StaysOutside setting.listeners (Leads (program.runWith setting dispatch)) := by
  induction program with
  | done result =>
    rintro w w' idle outside ⟨result', ran⟩
    obtain ⟨-, rfl⟩ := Prod.mk.inj (Option.some.inj ran)
    exact ⟨[], .refl _ idle outside⟩
  | statement sql next ih =>
    intro w w' idle outside ran
    exact ih { w with session := setting.execute sql w.session } w' idle outside ran
  | publish event next ih =>
    rintro w w' idle outside ⟨result, ran⟩
    obtain ⟨middle, published, ran⟩ := Option.bind_eq_some_iff.mp ran
    obtain ⟨notes, first⟩ := publishEvent_outside dispatched event w middle idle
      outside published
    obtain ⟨notes', rest⟩ := ih middle w' first.buffer first.within ⟨result, ran⟩
    exact ⟨_, first.trans rest⟩
  | call propagation shouldRollback body next bodyIh nextIh =>
    rintro w w' idle outside ⟨result, ran⟩
    obtain ⟨⟨value, middle⟩, called, ran⟩ := Option.bind_eq_some_iff.mp ran
    obtain ⟨notes, first⟩ := transactionalWithOn_outside stays (runWith_inside stays body) w middle
      idle outside ⟨value, called⟩
    obtain ⟨notes', rest⟩ := nextIh value middle w' first.buffer first.within ⟨result, ran⟩
    exact ⟨_, first.trans rest⟩

theorem dispatchAt_outside (depth : Nat) (listener : Listener ε) :
    StaysOutside setting.listeners (Dispatches (dispatchAt setting depth) listener) := by
  induction depth generalizing listener with
  | zero =>
    intro w w' idle outside ran
    cases ran
  | succ depth ih =>
    intro w w' idle outside ran
    obtain ⟨⟨result, last⟩, whole, rfl⟩ := Option.map_eq_some_iff.mp ran
    exact runWith_outside (dispatchAt_inside depth) ih listener.dispatcher w last idle
      outside ⟨result, whole⟩

theorem run_book {depth : Nat} {program : Program ε} {session : σ} {result : Except TxError Unit}
    {w : World ε σ} (ran : run setting depth program { session } = some (result, w)) :
    Book setting.listeners (World.ledger { session : World ε σ }) w.ledger w.log := by
  obtain ⟨notes, book⟩ := runWith_outside (dispatchAt_inside depth) (dispatchAt_outside depth)
    program { session } w rfl rfl ⟨result, ran⟩
  have same : w.log = notes := book.log
  rwa [same]

end Calls

def Reported (log : List (Note ε)) (call : Nat) (phase : TransactionPhase) : Prop :=
  ∃ failed report, .ended call failed report ∈ log ∧ completionPhase report = phase

section Completion

variable {listeners : ε → List (Listener ε)} {log : List (Note ε)} {buffered : BufferedEvent ε}
  {call : Nat} {passed : List TransactionPhase} {failed : Bool} {report : Except TxError Bool}
  {phase : TransactionPhase}

theorem mem_phases_iff (completion : phase = .afterCommit ∨ phase = .afterRollback) :
    phase ∈ phases failed report ↔ completionPhase report = phase := by
  rcases completion with rfl | rfl <;> cases failed <;> simp [phases, eq_comm]

theorem Settled.reported_iff (settled : Settled listeners log buffered call passed failed report) :
    Reported log call phase ↔ completionPhase report = phase := by
  simp [Reported, settled.ended_iff]

theorem Settled.delivered_iff (settled : Settled listeners log buffered call passed failed report)
    {i : Nat} {listener : Listener ε} (listens : (listeners buffered.event)[i]? = some listener)
    (bound : listener.phase = some phase)
    (completion : phase = .afterCommit ∨ phase = .afterRollback) :
    .delivered buffered.number i phase ∈ log ↔ Reported log call phase ∧ phase ∉ passed := by
  have ended : phase ∈ phases failed report ↔ completionPhase report = phase := mem_phases_iff completion
  rw [settled.reported_iff, ← ended, ← mem_delivery, ← List.count_pos_iff]
  change 0 < deliveries log buffered.number i phase ↔ _
  rw [settled.counted i listener phase listens bound]
  split
  next given => simpa using given
  next missing => simpa using missing

-- Only what is published before the scope's call has ended is given to the listeners of its end.
theorem Settled.early (settled : Settled listeners log buffered call passed failed report)
    (reported : completionPhase report = phase) (unseen : phase ∉ passed) :
    passed ⊆ [.beforeCommit] := by
  have begun := settled.begun
  rw [phases, reported] at begun
  obtain ⟨rest, whole⟩ := begun
  cases failed with
  | true =>
    cases passed with
    | nil => exact List.nil_subset _
    | cons first passed =>
      obtain ⟨rfl, -⟩ := List.cons.inj whole
      exact absurd List.mem_cons_self unseen
  | false =>
    rcases passed with - | ⟨first, - | ⟨second, passed⟩⟩
    · exact List.nil_subset _
    · obtain ⟨rfl, -⟩ := List.cons.inj whole
      exact List.Subset.refl _
    · obtain ⟨-, whole⟩ := List.cons.inj whole
      obtain ⟨rfl, -⟩ := List.cons.inj whole
      exact absurd (by simp) unseen

end Completion

def Occurs (log : List (Note ε)) (call : Nat) (phase : TransactionPhase) : Prop :=
  ∃ failed report, .ended call failed report ∈ log ∧ phase ∈ phases failed report

def Owed (log : List (Note ε)) (scope tx : Nat) (passed : List TransactionPhase)
    (phase : TransactionPhase) : Prop :=
  Occurs log tx phase ∧ (phase = .beforeCommit → tx = scope → passed ⊆ [.beforeCommit])

def NoneLost (listeners : ε → List (Listener ε)) (log : List (Note ε)) : Prop :=
  ∀ buffered scope tx passed within, .published buffered scope tx passed within ∈ log →
    ∀ (i : Nat) listener phase, (listeners buffered.event)[i]? = some listener →
      listener.phase = some phase → Owed log scope tx passed phase →
        deliveries log buffered.number i phase = 1

def InTime (listeners : ε → List (Listener ε)) (log : List (Note ε)) : Prop :=
  ∀ buffered scope tx passed within, .published buffered scope tx passed within ∈ log →
    ∀ (i : Nat) listener phase, (listeners buffered.event)[i]? = some listener →
      listener.phase = some phase → Owed log scope tx passed phase →
        Occurs log scope phase ∧ phase ∉ passed

section Claims

variable {setting : Setting ε σ τ} {depth : Nat} {program : Program ε} {session : σ}
  {result : Except TxError Unit} {w : World ε σ}

theorem events_delivered_iff (ran : run setting depth program { session } = some (result, w)) :
    NoneLost setting.listeners w.log ↔ InTime setting.listeners w.log := by
  unfold NoneLost InTime
  refine forall₅_congr fun buffered scope tx passed within => forall_congr' fun among => ?_
  refine forall₃_congr fun i listener phase => forall₃_congr fun listens bound _ => ?_
  obtain ⟨failed, report, settled⟩ := (run_book ran).settled _ _ _ _ _ among
  have occurs : Occurs w.log scope phase ↔ phase ∈ phases failed report := by
    constructor
    · rintro ⟨failed', report', ended, goes⟩
      obtain ⟨rfl, rfl⟩ := (settled.ended_iff _ _).mp ended
      exact goes
    · intro goes
      exact ⟨failed, report, (settled.ended_iff _ _).mpr ⟨rfl, rfl⟩, goes⟩
  rw [settled.counted i listener phase listens bound, occurs]
  simp

end Claims

section Cascade

def plainManager : TransactionManager Unit Unit where
  enter := fun _ s => (.ok (), s)
  leave := fun _ answer s => (answer, s)

def cascade : Setting Nat Unit Unit where
  listeners
    | 0 => [{ phase := some .afterCommit, dispatcher := .publish 1 (.done (.ok ())) }]
    | 1 => [{ phase := some .afterCommit, dispatcher := .done (.ok ()) }]
    | _ => []
  manager := plainManager
  standing := fun _ => .own
  execute := fun _ s => s

def publishing (event : Nat) : Program Nat :=
  .call .required (fun _ => true) (.publish event (.done (.ok ()))) .done

def onceLog : List (Note Nat) :=
  [.published { number := 0, event := 1 } 0 0 [] [0], .dispatched 0 .beforeCommit,
    .ended 0 false (.ok false), .dispatched 0 .afterCommit, .delivered 0 0 .afterCommit,
    .dispatched 0 .afterCompletion]

theorem events_delivered_iff_once : NoneLost cascade.listeners onceLog ↔
    InTime cascade.listeners onceLog :=
  events_delivered_iff (w := { session := (), calls := 1, numbers := 1, log := onceLog })
    (show run cascade 2 (publishing 1) { session := () } = some (.ok (), _) from rfl)

def cascadeLog : List (Note Nat) :=
  [.published { number := 0, event := 0 } 0 0 [] [0], .dispatched 0 .beforeCommit,
    .ended 0 false (.ok false), .dispatched 0 .afterCommit, .delivered 0 0 .afterCommit,
    .published { number := 1, event := 1 } 0 0 [.beforeCommit, .afterCommit] [],
    .dispatched 0 .afterCompletion]

theorem cascaded_event_lost :
    ¬ ∀ result w, run cascade 2 (publishing 0) { session := () } = some (result, w) →
      NoneLost cascade.listeners w.log := by
  intro lossless
  have ran : run cascade 2 (publishing 0) { session := () } =
      some (.ok (), { session := (), calls := 1, numbers := 2, log := cascadeLog }) := rfl
  have delivered := lossless _ _ ran { number := 1, event := 1 } 0 0 [.beforeCommit, .afterCommit] []
    (by simp [cascadeLog]) 0 _ .afterCommit rfl rfl
    ⟨⟨false, .ok false, by simp [cascadeLog], by decide⟩, nofun⟩
  exact absurd delivered (by decide)

end Cascade

end Firefly.Transactional.Events
