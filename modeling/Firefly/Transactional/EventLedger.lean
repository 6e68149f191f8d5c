import Firefly.Transactional.EventScopes

set_option autoImplicit false

namespace Firefly.Transactional.Events

variable {ε σ τ : Type}

def phases (failed : Bool) (report : Except TxError Bool) : List TransactionPhase :=
  (if failed then [] else [.beforeCommit]) ++ [completionPhase report, .afterCompletion]

structure Settled (listeners : ε → List (Listener ε)) (log : List (Note ε))
    (buffered : BufferedEvent ε) (call : Nat) (passed : List TransactionPhase) (failed : Bool)
    (report : Except TxError Bool) : Prop where
  ended_iff : ∀ failed' report', .ended call failed' report' ∈ log ↔
    failed' = failed ∧ report' = report
  counted : ∀ i listener q, (listeners buffered.event)[i]? = some listener →
    listener.phase = some q →
      deliveries log buffered.number i q = if q ∈ phases failed report ∧ q ∉ passed then 1 else 0
  order : ∀ earlier i q, earlier <+: log → .delivered buffered.number i q ∈ earlier →
    q ≠ .beforeCommit → .ended call failed report ∈ earlier
  begun : passed <+: phases failed report

def Enclosed (log : List (Note ε)) (call : Nat) (calls : List Nat) : Prop :=
  ∀ earlier, earlier <+: log → Ended earlier call → ∀ outer ∈ calls, Ended earlier outer

structure Running (listeners : ε → List (Listener ε)) (l₀ l : Ledger ε) (scope : Scope ε)
    (notes : List (Note ε)) (closing : Option (Bool × Except TxError Bool)) : Prop where
  buffer : l.buffer = some scope
  log : l.log = l₀.log ++ notes
  call : scope.call = l₀.calls
  calls : l₀.calls < l.calls
  numbered : scope.events.map (·.number) = List.range' l₀.numbers scope.events.length
  numbers : l.numbers = l₀.numbers + scope.events.length
  published : ∀ buffered call tx passed calls, .published buffered call tx passed calls ∈ notes →
    buffered ∈ scope.events ∧ call = l₀.calls ∧ passed <+: scope.passed
  counted : ∀ buffered call tx passed calls, .published buffered call tx passed calls ∈ notes →
    ∀ i listener q, (listeners buffered.event)[i]? = some listener → listener.phase = some q →
      deliveries notes buffered.number i q = if q ∈ scope.passed ∧ q ∉ passed then 1 else 0
  delivered : ∀ number i q, .delivered number i q ∈ notes →
    number ∈ scope.events.map (·.number) ∧ q ∈ scope.passed
  ended : ∀ call failed report, .ended call failed report ∈ notes →
    l₀.calls ≤ call ∧ call < l.calls
  own : ∀ failed report, .ended l₀.calls failed report ∈ notes ↔ closing = some (failed, report)
  early : closing = none → scope.passed ⊆ [.beforeCommit]
  order : ∀ earlier number i q, earlier <+: notes → .delivered number i q ∈ earlier →
    q ≠ .beforeCommit → Ended earlier l₀.calls
  around : closing = none → l.within ⊆ [l₀.calls]
  within : closing = none → ∀ buffered call tx passed calls,
    .published buffered call tx passed calls ∈ notes →
      ∀ outer ∈ calls, outer = l₀.calls ∨ Ended notes outer
  enclosed : ∀ buffered call tx passed calls, .published buffered call tx passed calls ∈ notes →
    passed ⊆ [.beforeCommit] → Enclosed notes l₀.calls calls

section Running

variable {listeners : ε → List (Listener ε)} {l₀ l l' : Ledger ε} {scope : Scope ε}
  {notes new : List (Note ε)} {closing : Option (Bool × Except TxError Bool)}
  {passed : List TransactionPhase} {added : List (BufferedEvent ε)}
  {made : List (Nat × Nat × TransactionPhase)}

theorem deliveries_made (delivers : new.filterMap Note.delivery? = made) (number i : Nat)
    (q : TransactionPhase) : deliveries new number i q = made.count (number, i, q) := by
  rw [deliveries, delivers]

theorem deliveries_eq_zero {number : Nat} (i : Nat) (q : TransactionPhase)
    (none_made : ∀ i q, .delivered number i q ∉ notes) : deliveries notes number i q = 0 :=
  List.count_eq_zero_of_not_mem fun among => none_made i q (mem_delivery.mp among)

theorem Running.enter {within : List Nat} (running : Running listeners l₀ l scope notes none)
    (around : within ⊆ [l₀.calls]) : Running listeners l₀ { l with within } scope notes none :=
  { running with around := fun _ => around }

-- The scope grows: what was buffered has the deliveries of the phases that are new in `passed`.
theorem Running.advance (running : Running listeners l₀ l scope notes closing)
    (inside : Inside scope passed l l' added new made) (kept : scope.passed <+: passed)
    (exactly : ∀ buffered ∈ scope.events, ∀ i listener q,
      (listeners buffered.event)[i]? = some listener → listener.phase = some q →
        made.count (buffered.number, i, q) = if q ∈ passed ∧ q ∉ scope.passed then 1 else 0)
    (known : ∀ number i q, (number, i, q) ∈ made →
      number ∈ scope.events.map (·.number) ∧ q ∈ passed)
    (early : closing = none ↔ passed ⊆ [.beforeCommit]) :
    Running listeners l₀ l' { scope with events := scope.events ++ added, passed }
      (notes ++ new) closing := by
  -- the events that are new have numbers that no delivery has
  have fresh : ∀ buffered ∈ added, buffered.number ∉ scope.events.map (·.number) := by
    intro buffered among
    have number := List.mem_map_of_mem (f := BufferedEvent.number) among
    rw [inside.numbered, List.mem_range'_1, running.numbers] at number
    rw [running.numbered, List.mem_range'_1]
    omega
  have delivered : ∀ number i q, .delivered number i q ∈ new →
      number ∈ scope.events.map (·.number) ∧ q ∈ passed := by
    intro number i q among
    exact known number i q (inside.delivers ▸ mem_delivery.mpr among)
  refine { buffer := inside.buffer, log := ?log, call := running.call, calls := ?calls,
           numbered := ?numbered, numbers := ?numbers, published := ?published,
           counted := ?counted, delivered := ?delivered, ended := ?ended, own := ?own,
           early := early.mp, order := ?order, around := ?around, within := ?within,
           enclosed := ?enclosed }
  case log => rw [inside.log, running.log, List.append_assoc]
  case calls => exact lt_of_lt_of_le running.calls inside.calls
  case numbered =>
    rw [List.map_append, running.numbered, inside.numbered, running.numbers, List.length_append,
      List.range'_append_1]
  case numbers => rw [inside.numbers, running.numbers, List.length_append, Nat.add_assoc]
  case published =>
    intro buffered call tx phases calls among
    rcases List.mem_append.mp among with before | after
    · obtain ⟨buffered', same, earlier⟩ := running.published _ _ _ _ _ before
      exact ⟨List.mem_append_left _ buffered', same, earlier.trans kept⟩
    · obtain ⟨buffered', rfl, rfl⟩ := inside.published _ _ _ _ _ after
      exact ⟨List.mem_append_right _ buffered', running.call, List.prefix_rfl⟩
  case counted =>
    intro buffered call tx phases calls among i listener q listens bound
    rw [deliveries_append]
    rcases List.mem_append.mp among with before | after
    · obtain ⟨buffered', -, earlier⟩ := running.published _ _ _ _ _ before
      rw [running.counted _ _ _ _ _ before i listener q listens bound,
        deliveries_made inside.delivers, exactly buffered buffered' i listener q listens bound]
      by_cases old : q ∈ scope.passed
      · simp [old, kept.subset old]
      · have unseen : q ∉ phases := fun seen => old (earlier.subset seen)
        simp [old, unseen]
    · obtain ⟨added', -, rfl⟩ := inside.published _ _ _ _ _ after
      have apart := fresh buffered added'
      rw [deliveries_eq_zero i q fun i q given => apart (running.delivered _ i q given).1,
        deliveries_eq_zero i q fun i q given => apart (delivered _ i q given).1]
      simp
  case delivered =>
    intro number i q among
    rw [List.map_append]
    rcases List.mem_append.mp among with before | after
    · obtain ⟨known', earlier⟩ := running.delivered _ _ _ before
      exact ⟨List.mem_append_left _ known', kept.subset earlier⟩
    · obtain ⟨known', now⟩ := delivered _ _ _ after
      exact ⟨List.mem_append_left _ known', now⟩
  case ended =>
    intro call failed report among
    have later := inside.calls
    have own := running.calls
    rcases List.mem_append.mp among with before | after
    · have := running.ended _ _ _ before
      omega
    · have := inside.ended _ _ _ after
      omega
  case own =>
    intro failed report
    rw [List.mem_append, running.own]
    refine or_iff_left fun after => ?_
    have later := (inside.ended _ _ _ after).1
    have own := running.calls
    omega
  case order =>
    intro earlier number i q front among after
    rcases List.prefix_or_prefix_of_prefix front (List.prefix_append notes new) with within | beyond
    · exact running.order earlier number i q within among after
    · cases closing with
      | none =>
        -- before the end there is BEFORE_COMMIT only
        have now : q ∈ passed := by
          rcases List.mem_append.mp (front.subset among) with before | later
          · exact kept.subset (running.delivered _ _ _ before).2
          · exact (delivered _ _ _ later).2
        exact absurd (List.mem_singleton.mp (early.mp rfl now)) after
      | some closed =>
        exact ⟨closed.1, closed.2, beyond.subset ((running.own _ _).mpr rfl)⟩
  case around =>
    intro still
    rw [inside.within]
    exact running.around still
  case within =>
    intro still buffered call tx phases calls among outer held
    rcases List.mem_append.mp among with before | after
    · refine (running.within still _ _ _ _ _ before outer held).imp_right fun ended => ?_
      exact ended.mono (List.subset_append_left _ _)
    · rcases inside.enclosed _ _ _ _ _ after outer held with open' | ended
      · exact .inl (List.mem_singleton.mp (running.around still open'))
      · exact .inr (ended.mono (List.subset_append_right _ _))
  case enclosed =>
    intro buffered call tx phases calls among first earlier front ended outer held
    rcases List.mem_append.mp among with before | after
    · have enclosed := running.enclosed _ _ _ _ _ before first
      rcases List.prefix_or_prefix_of_prefix front (List.prefix_append notes new) with
        within | beyond
      · exact enclosed earlier within ended outer held
      · -- the scope has not ended in what is new
        obtain ⟨failed, report, among⟩ := ended
        have old : .ended l₀.calls failed report ∈ notes := by
          refine (List.mem_append.mp (front.subset among)).resolve_right fun later => ?_
          have low := (inside.ended _ _ _ later).1
          have own := running.calls
          omega
        have there := enclosed notes List.prefix_rfl ⟨failed, report, old⟩ outer held
        exact there.mono beyond.subset
    · obtain ⟨-, -, rfl⟩ := inside.published _ _ _ _ _ after
      obtain ⟨failed, report, among⟩ := ended
      have still := early.mpr first
      rcases List.mem_append.mp (front.subset among) with old | later
      · cases still.symm.trans ((running.own failed report).mp old)
      · have low := (inside.ended _ _ _ later).1
        have own := running.calls
        omega

theorem Running.inside (running : Running listeners l₀ l scope notes none)
    (inside : Inside scope scope.passed l l' added new []) :
    Running listeners l₀ l' { scope with events := scope.events ++ added } (notes ++ new) none :=
  running.advance inside List.prefix_rfl (by simp) (by simp)
    ⟨running.early, fun _ => rfl⟩

theorem Running.dispatch {phase : TransactionPhase}
    (running : Running listeners l₀ l scope notes closing)
    (inside : Inside scope (scope.passed ++ [phase]) l l' added new (due listeners phase scope.events))
    (unseen : phase ∉ scope.passed) (early : closing = none ↔ phase = .beforeCommit) :
    Running listeners l₀ l'
      { scope with events := scope.events ++ added, passed := scope.passed ++ [phase] }
      (notes ++ new) closing := by
  refine running.advance inside (List.prefix_append _ _) ?_ ?_ ?_
  · intro buffered among i listener q listens bound
    by_cases now : q = phase
    · subst now
      have numbered : (scope.events.map (·.number)).Nodup := by
        rw [running.numbered]
        exact List.nodup_range'
      rw [count_due numbered among listens bound]
      simp [unseen]
    · rw [List.count_eq_zero_of_not_mem fun given => now (mem_due given).1]
      simp +contextual [now]
  · intro number i q given
    obtain ⟨rfl, among⟩ := mem_due given
    exact ⟨among, by simp⟩
  · constructor
    · intro still
      rw [early.mp still]
      simpa using running.early still
    · intro first
      exact early.mpr (List.mem_singleton.mp (first (by simp)))

theorem Running.closes (running : Running listeners l₀ l scope notes none) (failed : Bool)
    (report : Except TxError Bool) :
    Running listeners l₀ { l with log := l.log ++ [.ended l₀.calls failed report] } scope
      (notes ++ [.ended l₀.calls failed report]) (some (failed, report)) := by
  have open' : ∀ number i q, .delivered number i q ∈ notes → q = .beforeCommit := fun _ _ _ given =>
    List.mem_singleton.mp (running.early rfl (running.delivered _ _ _ given).2)
  have unended : ∀ failed report, .ended l₀.calls failed report ∉ notes := by
    intro failed report among
    cases (running.own failed report).mp among
  refine { running with
    log := by rw [running.log, List.append_assoc]
    published := by simpa using running.published
    counted := ?_
    delivered := by simpa using running.delivered
    ended := ?_
    own := by simp [unended, eq_comm]
    early := nofun
    order := ?_
    around := nofun
    within := nofun
    enclosed := ?_ }
  · intro buffered call tx phases calls among i listener q listens bound
    rw [deliveries_append]
    exact running.counted _ _ _ _ _ (by simpa using among) i listener q listens bound
  · intro call failed' report' among
    rcases List.mem_append.mp among with before | here
    · exact running.ended _ _ _ before
    · obtain ⟨rfl, -, -⟩ := by simpa using here
      exact ⟨le_rfl, running.calls⟩
  · intro earlier number i q front among after
    rcases List.prefix_concat_iff.mp front with rfl | within
    · exact ⟨failed, report, by simp⟩
    · exact absurd (open' number i q (within.subset among)) after
  · intro buffered call tx phases calls among _ earlier front ended outer held
    have among' : .published buffered call tx phases calls ∈ notes := by simpa using among
    rcases List.prefix_concat_iff.mp front with rfl | within
    · rcases running.within rfl _ _ _ _ _ among' outer held with rfl | ended
      · exact ⟨failed, report, by simp⟩
      · exact ended.mono (List.subset_append_left _ _)
    · obtain ⟨failed', report', before⟩ := ended
      exact absurd (within.subset before) (unended failed' report')

theorem Running.settled {failed : Bool} {report : Except TxError Bool}
    (running : Running listeners l₀ l scope notes (some (failed, report)))
    (whole : scope.passed = phases failed report) {buffered : BufferedEvent ε} {call tx : Nat}
    {calls : List Nat} (among : .published buffered call tx passed calls ∈ notes) :
    Settled listeners notes buffered call passed failed report := by
  obtain ⟨-, rfl, begun⟩ := running.published _ _ _ _ _ among
  refine { ended_iff := ?_, counted := ?_, order := ?_, begun := whole ▸ begun }
  · intro failed' report'
    rw [running.own]
    simp [eq_comm]
  · intro i listener q listens bound
    rw [running.counted _ _ _ _ _ among i listener q listens bound, whole]
  · intro earlier i q front given after
    obtain ⟨failed', report', ended⟩ := running.order earlier _ i q front given after
    obtain ⟨rfl, rfl⟩ := by simpa using (running.own failed' report').mp (front.subset ended)
    exact ended

end Running

end Firefly.Transactional.Events
