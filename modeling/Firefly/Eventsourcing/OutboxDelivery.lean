import Firefly.Shared.Runs

set_option autoImplicit false

-- A pass of the relay publishes the records that were pending when it began. Others may be enqueued
-- meanwhile.

namespace Firefly.Eventsourcing.OutboxDelivery

open Runs

variable {E : Type}

structure RecordState (E : Type) where
  event : E
  attempts : Nat := 0
  delivered : Bool := false
  lastError : Option String := none

namespace RecordState

def pending (maxAttempts : Nat) (record : RecordState E) : Bool :=
  !record.delivered && record.attempts < maxAttempts

def deadLetter (maxAttempts : Nat) (record : RecordState E) : Bool :=
  !record.delivered && record.attempts ≥ maxAttempts

def answered (record : RecordState E) : Except String Unit → RecordState E
  | .ok () => { record with delivered := true }
  | .error error => { record with attempts := record.attempts + 1, lastError := some error }

end RecordState

structure Publish (E : Type) where
  index : Nat
  event : E
  result : Except String Unit

structure Outbox (E : Type) where
  records : List (RecordState E) := []
  -- The records that the pass has still to publish, if there is one.
  todo : Option (List Nat) := none
  log : List (Publish E) := []

inductive Choice (E : Type) where
  | enqueue (event : E)
  | beginPass
  | publish (result : Except String Unit)
  | endPass

def Outbox.pending (maxAttempts : Nat) (outbox : Outbox E) : List Nat :=
  (List.range outbox.records.length).filter fun i =>
    outbox.records[i]?.any (RecordState.pending maxAttempts)

def step (maxAttempts : Nat) (outbox : Outbox E) : Choice E → Option (Outbox E)
  | .enqueue event => some { outbox with records := outbox.records ++ [{ event }] }
  | .beginPass =>
    if outbox.todo.isNone then some { outbox with todo := some (outbox.pending maxAttempts) } else none
  | .publish result =>
    match outbox.todo with
    | some (i :: rest) => outbox.records[i]?.map fun record =>
      { records := outbox.records.set i (record.answered result)
        todo := some rest
        log := outbox.log ++ [⟨i, record.event, result⟩] }
    | _ => none
  | .endPass => if outbox.todo = some [] then some { outbox with todo := none } else none

def failures (i : Nat) (log : List (Publish E)) : Nat :=
  log.countP fun publish => publish.index = i ∧ publish.result.isOk = false

def successes (i : Nat) (log : List (Publish E)) : Nat :=
  log.countP fun publish => publish.index = i ∧ publish.result.isOk = true

structure Bookkept (maxAttempts : Nat) (log : List (Publish E)) (i : Nat) (record : RecordState E) : Prop where
  attempts : record.attempts = failures i log
  bounded : record.attempts ≤ maxAttempts
  delivered : successes i log = if record.delivered then 1 else 0
  event : ∀ publish ∈ log, publish.index = i → publish.event = record.event

structure Kept (maxAttempts : Nat) (outbox : Outbox E) : Prop where
  records : ∀ i record, outbox.records[i]? = some record → Bookkept maxAttempts outbox.log i record
  logged : ∀ publish ∈ outbox.log, publish.index < outbox.records.length
  pending : ∀ todo ∈ outbox.todo, ∀ i ∈ todo, i ∈ outbox.pending maxAttempts
  ordered : ∀ todo ∈ outbox.todo, todo.Pairwise (· < ·)

variable {maxAttempts : Nat} {outbox outbox' : Outbox E} {i : Nat} {record : RecordState E}

theorem mem_pending : i ∈ outbox.pending maxAttempts ↔
    ∃ record, outbox.records[i]? = some record ∧ record.pending maxAttempts = true := by
  simp only [Outbox.pending, List.mem_filter, List.mem_range, Option.any_eq_true]
  constructor
  · exact fun both => both.2
  · rintro ⟨record, found, pending⟩
    exact ⟨(List.getElem?_eq_some_iff.mp found).1, record, found, pending⟩

inductive Steps (maxAttempts : Nat) (outbox : Outbox E) : Choice E → Outbox E → Prop
  | enqueue (event : E) :
    Steps maxAttempts outbox (.enqueue event) { outbox with records := outbox.records ++ [{ event }] }
  | beginPass (idle : outbox.todo = none) :
    Steps maxAttempts outbox .beginPass { outbox with todo := some (outbox.pending maxAttempts) }
  | publish {i : Nat} {rest : List Nat} {record : RecordState E} (result : Except String Unit)
    (todo : outbox.todo = some (i :: rest)) (found : outbox.records[i]? = some record) :
    Steps maxAttempts outbox (.publish result)
      { records := outbox.records.set i (record.answered result)
        todo := some rest
        log := outbox.log ++ [⟨i, record.event, result⟩] }
  | endPass (done : outbox.todo = some []) :
    Steps maxAttempts outbox .endPass { outbox with todo := none }

theorem step_steps {choice : Choice E} (stepped : step maxAttempts outbox choice = some outbox') :
    Steps maxAttempts outbox choice outbox' := by
  cases choice with
  | enqueue event =>
    cases stepped
    exact .enqueue event
  | beginPass =>
    rw [step] at stepped
    split at stepped
    · rename_i idle
      cases stepped
      exact .beginPass (Option.isNone_iff_eq_none.mp idle)
    · cases stepped
  | publish result =>
    rw [step] at stepped
    split at stepped
    · rename_i i rest todo
      obtain ⟨record, found, rfl⟩ := Option.map_eq_some_iff.mp stepped
      exact .publish result todo found
    · cases stepped
  | endPass =>
    rw [step] at stepped
    split at stepped
    · rename_i done
      cases stepped
      exact .endPass done
    · cases stepped

theorem bookkept_other {log : List (Publish E)} {publish : Publish E} (apart : publish.index ≠ i)
    (kept : Bookkept maxAttempts log i record) : Bookkept maxAttempts (log ++ [publish]) i record := by
  constructor
  · simpa [failures, apart] using kept.attempts
  · exact kept.bounded
  · simpa [successes, apart] using kept.delivered
  · intro other member same
    rcases List.mem_append.mp member with old | new
    · exact kept.event other old same
    · exact absurd (List.mem_singleton.mp new ▸ same) apart

theorem bookkept_answered {log : List (Publish E)} (kept : Bookkept maxAttempts log i record)
    (pending : record.pending maxAttempts = true) (result : Except String Unit) :
    Bookkept maxAttempts (log ++ [⟨i, record.event, result⟩]) i (record.answered result) := by
  simp only [RecordState.pending, Bool.and_eq_true, Bool.not_eq_true', decide_eq_true_eq] at pending
  have event : ∀ publish ∈ log ++ [⟨i, record.event, result⟩], publish.index = i →
      publish.event = record.event := by
    intro publish member same
    rcases List.mem_append.mp member with old | new
    · exact kept.event publish old same
    · rw [List.mem_singleton.mp new]
  have none_ := kept.delivered
  rw [pending.1] at none_
  cases result with
  | ok =>
    constructor
    · simpa [failures, RecordState.answered, Except.isOk, Except.toBool] using kept.attempts
    · exact kept.bounded
    · simpa [successes, RecordState.answered, Except.isOk, Except.toBool] using none_
    · exact event
  | error error =>
    constructor
    · simpa [failures, RecordState.answered, Except.isOk, Except.toBool] using kept.attempts
    · exact pending.2
    · simpa [successes, RecordState.answered, Except.isOk, Except.toBool, pending.1] using none_
    · exact event

theorem kept_empty : Kept maxAttempts ({} : Outbox E) := by
  constructor <;> simp

theorem bookkept_fresh {log : List (Publish E)} (event : E) (unknown : ∀ publish ∈ log, publish.index ≠ i) :
    Bookkept maxAttempts log i { event } := by
  constructor
  · exact (List.countP_eq_zero.mpr fun publish member => by simp [unknown publish member]).symm
  · exact Nat.zero_le _
  · exact List.countP_eq_zero.mpr fun publish member => by simp [unknown publish member]
  · exact fun publish member same => absurd same (unknown publish member)

theorem pending_enqueue (event : E) (listed : i ∈ outbox.pending maxAttempts) :
    i ∈ ({ outbox with records := outbox.records ++ [{ event }] } : Outbox E).pending maxAttempts := by
  obtain ⟨record, found, pending⟩ := mem_pending.mp listed
  have small := (List.getElem?_eq_some_iff.mp found).1
  exact mem_pending.mpr ⟨record, by rw [List.getElem?_append_left small]; exact found, pending⟩

theorem Kept.enqueue (kept : Kept maxAttempts outbox) (event : E) :
    Kept maxAttempts { outbox with records := outbox.records ++ [{ event }] } := by
  constructor
  · intro i record found
    rcases Nat.lt_trichotomy i outbox.records.length with old | new | beyond
    · rw [List.getElem?_append_left old] at found
      exact kept.records i record found
    · subst new
      rw [List.getElem?_concat_length] at found
      cases found
      exact bookkept_fresh event fun publish member => (kept.logged publish member).ne
    · rw [List.getElem?_eq_none (by simp; omega)] at found
      cases found
  · intro publish member
    have small := kept.logged publish member
    simp only [List.length_append, List.length_singleton]
    omega
  · exact fun todo now i member => pending_enqueue event (kept.pending todo now i member)
  · exact kept.ordered

theorem Kept.publish (kept : Kept maxAttempts outbox) {i : Nat} {rest : List Nat}
    {record : RecordState E} (result : Except String Unit) (todo : outbox.todo = some (i :: rest))
    (found : outbox.records[i]? = some record) :
    Kept maxAttempts
      { records := outbox.records.set i (record.answered result)
        todo := some rest
        log := outbox.log ++ [⟨i, record.event, result⟩] } := by
  obtain ⟨first, ordered⟩ := List.pairwise_cons.mp (kept.ordered _ todo)
  obtain ⟨own, same, pending⟩ := mem_pending.mp (kept.pending _ todo i (.head _))
  obtain rfl : record = own := Option.some.inj (found.symm.trans same)
  have inside : i < outbox.records.length := (List.getElem?_eq_some_iff.mp found).1
  constructor
  · intro j other there
    by_cases apart : i = j
    · subst apart
      rw [List.getElem?_set_self inside] at there
      cases there
      exact bookkept_answered (kept.records i record found) pending result
    · rw [List.getElem?_set_ne apart] at there
      exact bookkept_other apart (kept.records j other there)
  · intro publish member
    rw [List.length_set]
    rcases List.mem_append.mp member with old | new
    · exact kept.logged publish old
    · rw [List.mem_singleton.mp new]
      exact inside
  · rintro _ ⟨⟩ j member
    obtain ⟨other, there, waiting⟩ := mem_pending.mp (kept.pending _ todo j (.tail _ member))
    refine mem_pending.mpr ⟨other, ?_, waiting⟩
    rw [List.getElem?_set_ne (first j member).ne]
    exact there
  · rintro _ ⟨⟩
    exact ordered

theorem kept_steps {choice : Choice E} (kept : Kept maxAttempts outbox)
    (stepped : Steps maxAttempts outbox choice outbox') : Kept maxAttempts outbox' := by
  cases stepped with
  | enqueue event => exact kept.enqueue event
  | beginPass idle =>
    constructor
    · exact kept.records
    · exact kept.logged
    · rintro _ ⟨⟩ i member
      exact member
    · rintro _ ⟨⟩
      exact List.pairwise_lt_range.filter _
  | publish result todo found => exact kept.publish result todo found
  | endPass done =>
    constructor
    · exact kept.records
    · exact kept.logged
    · rintro _ ⟨⟩
    · rintro _ ⟨⟩

theorem kept_run {choices : List (Choice E)} (kept : Kept maxAttempts outbox)
    (ran : run (step maxAttempts) outbox choices = some outbox') : Kept maxAttempts outbox' :=
  run_invariant (Kept maxAttempts) (fun _ _ _ _ kept stepped => kept_steps kept (step_steps stepped)) kept ran

structure AtRest (maxAttempts : Nat) (log : List (Publish E)) (i : Nat) (outbox : Outbox E) : Prop where
  kept : Kept maxAttempts outbox
  rests : ∃ record, outbox.records[i]? = some record ∧ record.pending maxAttempts = false
  silent : ∃ added, outbox.log = log ++ added ∧ ∀ publish ∈ added, publish.index ≠ i

theorem atRest_steps {choice : Choice E} {log : List (Publish E)} (rest : AtRest maxAttempts log i outbox)
    (stepped : Steps maxAttempts outbox choice outbox') : AtRest maxAttempts log i outbox' := by
  have kept := kept_steps rest.kept stepped
  obtain ⟨record, found, rests⟩ := rest.rests
  cases stepped with
  | enqueue event =>
    refine ⟨kept, ⟨record, ?_, rests⟩, rest.silent⟩
    rw [List.getElem?_append_left (List.getElem?_eq_some_iff.mp found).1]
    exact found
  | beginPass idle => exact ⟨kept, ⟨record, found, rests⟩, rest.silent⟩
  | @publish j _ other result todo there =>
    -- The record that is published is pending.
    obtain ⟨own, same, pending⟩ := mem_pending.mp (rest.kept.pending _ todo j (.head _))
    have apart : j ≠ i := by
      rintro rfl
      rw [found] at same
      cases same
      rw [rests] at pending
      cases pending
    obtain ⟨added, log_, silent⟩ := rest.silent
    refine ⟨kept, ⟨record, ?_, rests⟩, added ++ [⟨j, other.event, result⟩], ?_, ?_⟩
    · rw [List.getElem?_set_ne apart]
      exact found
    · rw [log_, List.append_assoc]
    · intro publish member
      rcases List.mem_append.mp member with old | new
      · exact silent publish old
      · rw [List.mem_singleton.mp new]
        exact apart
  | endPass done => exact ⟨kept, ⟨record, found, rests⟩, rest.silent⟩

def Choice.within : Choice E → Bool
  | .enqueue _ | .publish _ => true
  | .beginPass | .endPass => false

-- What is left of a pass and what was published are what there was to publish.
theorem pass_run {choices : List (Choice E)} {todo : List Nat} (inside : ∀ choice ∈ choices, choice.within)
    (now : outbox.todo = some todo) (ran : run (step maxAttempts) outbox choices = some outbox') :
    ∃ left added, outbox'.todo = some left ∧ outbox'.log = outbox.log ++ added ∧
      todo = added.map (·.index) ++ left := by
  induction choices generalizing outbox todo with
  | nil =>
    obtain rfl : outbox = outbox' := by simpa using ran
    exact ⟨todo, [], now, by simp, rfl⟩
  | cons choice choices ih =>
    rw [run_cons] at ran
    obtain ⟨next, stepped, ran⟩ := Option.bind_eq_some_iff.mp ran
    have later := fun choice member => inside choice (List.mem_cons_of_mem _ member)
    have here := inside choice (.head _)
    cases step_steps stepped with
    | enqueue event =>
      exact @ih { outbox with records := outbox.records ++ [{ event }] } todo later now ran
    | @publish i rest record result todo' found =>
      obtain ⟨left, added, ends, log, split⟩ := ih later rfl ran
      refine ⟨left, ⟨i, record.event, result⟩ :: added, ends, ?_, ?_⟩
      · rw [log, List.append_assoc]
        rfl
      · rw [now] at todo'
        cases todo'
        rw [split]
        rfl
    | beginPass | endPass => cases here

theorem full_pass {choices : List (Choice E)} (inside : ∀ choice ∈ choices, choice.within)
    (ran : run (step maxAttempts) outbox (.beginPass :: choices ++ [.endPass]) = some outbox') :
    ∃ added, outbox'.log = outbox.log ++ added ∧ added.map (·.index) = outbox.pending maxAttempts := by
  rw [run_append, run_cons] at ran
  obtain ⟨before, ran, ended⟩ := Option.bind_eq_some_iff.mp ran
  obtain ⟨begun, stepped, ran⟩ := Option.bind_eq_some_iff.mp ran
  cases step_steps stepped with
  | beginPass idle =>
    obtain ⟨left, added, ends, log, split⟩ := pass_run inside rfl ran
    rw [run_cons] at ended
    obtain ⟨last, ended, same⟩ := Option.bind_eq_some_iff.mp ended
    rw [run_nil] at same
    cases same
    cases step_steps ended with
    | endPass done =>
      rw [done] at ends
      cases ends
      exact ⟨added, log, by simpa using split.symm⟩

theorem publish_enabled (kept : Kept maxAttempts outbox) {rest : List Nat}
    (todo : outbox.todo = some (i :: rest)) (result : Except String Unit) :
    (step maxAttempts outbox (.publish result)).isSome := by
  obtain ⟨record, found, -⟩ := mem_pending.mp (kept.pending _ todo i (.head _))
  simp [step, todo, found]

def OneOf (a b c : Bool) : Prop := a && !b && !c || !a && b && !c || !a && !b && c

theorem oneOf_state (record : RecordState E) :
    OneOf (record.pending maxAttempts) record.delivered (record.deadLetter maxAttempts) := by
  rw [OneOf, RecordState.pending, RecordState.deadLetter]
  by_cases left : record.attempts < maxAttempts
  · cases record.delivered <;> simp [left, not_le.mpr left]
  · cases record.delivered <;> simp [left, not_lt.mp left]

theorem delivery (maxAttempts : Nat) (choices : List (Choice E)) (outbox : Outbox E)
    (ran : run (step maxAttempts) {} choices = some outbox) :
    (∀ i record, outbox.records[i]? = some record →
      OneOf (record.pending maxAttempts) record.delivered (record.deadLetter maxAttempts) ∧
      record.attempts = failures i outbox.log ∧ record.attempts ≤ maxAttempts ∧
      successes i outbox.log = (if record.delivered then 1 else 0) ∧
      ∀ publish ∈ outbox.log, publish.index = i → publish.event = record.event) ∧
    (∀ i record, outbox.records[i]? = some record →
      record.delivered ∨ record.deadLetter maxAttempts →
      ∀ more later, run (step maxAttempts) outbox more = some later →
        ∃ added, later.log = outbox.log ++ added ∧ ∀ publish ∈ added, publish.index ≠ i) ∧
    (∀ pass later, (∀ choice ∈ pass, choice.within) →
      run (step maxAttempts) outbox (.beginPass :: pass ++ [.endPass]) = some later →
      ∃ added, later.log = outbox.log ++ added ∧
        added.map (·.index) = outbox.pending maxAttempts) ∧
    ∀ i rest, outbox.todo = some (i :: rest) → ∀ result,
      (step maxAttempts outbox (.publish result)).isSome := by
  have kept := kept_run kept_empty ran
  refine ⟨fun i record found => ?_, fun i record found done more later ran => ?_,
    fun pass later inside ran => full_pass inside ran, fun i rest todo => publish_enabled kept todo⟩
  · have book := kept.records i record found
    exact ⟨oneOf_state record, book.attempts, book.bounded, book.delivered, book.event⟩
  · have rests : record.pending maxAttempts = false := by
      have one : OneOf (record.pending maxAttempts) record.delivered
          (record.deadLetter maxAttempts) := oneOf_state record
      rw [OneOf] at one
      rcases done with done | done <;> simp [done] at one <;> simp [one]
    have rest : AtRest maxAttempts outbox.log i outbox :=
      ⟨kept, ⟨record, found, rests⟩, [], by simp, by simp⟩
    exact (run_invariant (AtRest maxAttempts outbox.log i)
      (fun _ _ _ _ rest stepped => atRest_steps rest (step_steps stepped)) rest ran).silent

def retried : Outbox String where
  records := [⟨"a", 0, true, none⟩, ⟨"b", 1, false, some "down"⟩]
  log := [⟨0, "a", .ok ()⟩, ⟨1, "b", .error "down"⟩]

-- Two attempts: the second record comes in the middle of the first pass, and its first attempt fails.
theorem second_record_retried : retried.pending 2 = [1] ∧ failures 1 retried.log = 1 ∧
    ∀ more later, run (step 2) retried more = some later →
      ∃ added, later.log = retried.log ++ added ∧ ∀ publish ∈ added, publish.index ≠ 0 := by
  have ran : run (step 2) {} [.enqueue "a", .beginPass, .enqueue "b", .publish (.ok ()), .endPass,
      .beginPass, .publish (.error "down"), .endPass] = some retried := rfl
  exact ⟨rfl, rfl, (delivery 2 _ retried ran).2.1 0 _ rfl (.inl rfl)⟩

end Firefly.Eventsourcing.OutboxDelivery
