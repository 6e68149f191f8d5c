import Firefly.Lifecycle.Application

set_option autoImplicit false

namespace Firefly.Lifecycle

open Runs

def startsInvoked (log : List Event) : List Nat :=
  log.filterMap fun
    | .startInvoked i => some i
    | _ => none

def stopsInvoked (log : List Event) : List Nat :=
  log.filterMap fun
    | .stopInvoked i => some i
    | _ => none

def endedIn (log : List Event) (index : Nat) : Bool :=
  log.any fun
    | .serverEnded i _ => i = index
    | _ => false

def returnedIn (log : List Event) (index : Nat) : Bool :=
  log.any fun
    | .serverEnded i (.returns _) => i = index
    | _ => false

def Calm (log : List Event) : Prop := ∀ i, .serverEnded i .panics ∉ log

def startErrors (log : List Event) : List LifecycleError :=
  log.filterMap fun
    | .startEnded i (.err source) => some (.startHook i source)
    | _ => none

def stopErrors (log : List Event) : List LifecycleError :=
  log.filterMap fun
    | .stopEnded i (.err source) => some (.stopHook i source)
    | .stopCancelled i => some (.stopHook i elapsedText)
    | _ => none

variable (app : Application)

def serversFailed (log : List Event) : List LifecycleError :=
  log.filterMap fun
    | .serverEnded i (.returns (.err source)) => app.servers[i]?.map fun server => .server server.name source
    | _ => none

def stillRunning (log : List Event) : List Nat :=
  (List.range app.servers.length).filter fun i => !endedIn log i

-- The servers that the drain waits for: a task that has panicked is among them.
def outstanding (log : List Event) : List Nat :=
  (List.range app.servers.length).filter fun i => !returnedIn log i

def untilDrained (log : List Event) : List Event := log.takeWhile (· ≠ .drainEnded)

def timedOut (left : List Event → List Nat) (log : List Event) : List LifecycleError :=
  if .drainEnded ∈ log ∧ left (untilDrained log) ≠ [] then
    [.drainTimedOut (left (untilDrained log)).length]
  else []

def failures (left : List Event → List Nat) (log : List Event) : List LifecycleError :=
  startErrors log ++ serversFailed app (untilDrained log) ++ timedOut left log ++ stopErrors log

def reported (left : List Event → List Nat) (log : List Event) : List LifecycleError :=
  (if .drainSent .handle ∈ log then [.cancelled] else []) ++ failures app left log

def besidesTimeout (errors : List LifecycleError) : List LifecycleError :=
  errors.filter fun
    | .drainTimedOut _ => false
    | _ => true

structure Started (s : State) (count : Nat) : Prop where
  invoked : startsInvoked s.log = List.range count
  succeeded : ∀ i, i + 1 < count → app.starts[i]? = some .ok
  ended : (∃ index rest, s.phase = .starting index rest) ∨
    (count = app.starts.length ∧ ∀ outcome ∈ app.starts, outcome = .ok) ∨
      ∃ source, 0 < count ∧ app.starts[count - 1]? = some (.err source)

structure Protocol (errors : List Event → List LifecycleError) (s : State) : Prop where
  starts : ∃ count, Started app s count
  exits : Calm s.log → s.phase = .blocked →
    (∃ i < app.servers.length, endedIn s.log i = true) →
      (∃ trigger, step app s (.select trigger) ≠ none) ∧
        ∀ trigger next, step app s (.select trigger) = some next →
          next.phase = .draining ∧ .drainSent trigger ∈ next.log
  signal : ∀ before i after, s.log = before ++ .stopInvoked i :: after →
    (∃ trigger, .drainSent trigger ∈ before) ∨ ∃ j source, .startEnded j (.err source) ∈ before
  stops : stopsInvoked s.log <+: (List.range app.stops.length).reverse
  returned : ∀ result, s.phase = .returned result →
    stopsInvoked s.log = (List.range app.stops.length).reverse ∧
      besidesTimeout (flattened result) = besidesTimeout (errors s.log) ∧
        (Calm (untilDrained s.log) → flattened result = errors s.log)

section Logs

variable {app : Application} {left : List Event → List Nat} {log more : List Event} {event : Event}

theorem untilDrained_absent (absent : .drainEnded ∉ log) : untilDrained log = log := by
  refine List.takeWhile_eq_self_iff.mpr fun event among => ?_
  simpa using fun same : event = .drainEnded => absent (same ▸ among)

theorem untilDrained_append (present : .drainEnded ∈ log) :
    untilDrained (log ++ more) = untilDrained log := by
  induction log with
  | nil => cases present
  | cons event log ih =>
    by_cases same : event = .drainEnded
    · simp [untilDrained, same]
    · have later := ih (by simpa [Ne.symm same] using present)
      simpa [untilDrained, same] using later

def Event.Opening : Event → Prop
  | .startInvoked _ | .startEnded _ .ok => True
  | _ => False

def Event.Closing : Event → Prop
  | .stopInvoked _ | .stopEnded _ _ | .stopCancelled _ => True
  | _ => False

variable (app) in
theorem silent_of_opening (opening : ∀ event ∈ log, event.Opening) : startErrors log = [] ∧
    stopsInvoked log = [] ∧ stopErrors log = [] ∧ serversFailed app log = [] ∧
      ∀ i, endedIn log i = false := by
  induction log with
  | nil => exact ⟨rfl, rfl, rfl, rfl, fun _ => rfl⟩
  | cons event log ih =>
    have later := ih fun event among => opening event (List.mem_cons_of_mem _ among)
    have kind := opening event List.mem_cons_self
    cases event with
    | startInvoked i => exact later
    | startEnded i outcome =>
      cases outcome with
      | ok => exact later
      | err source => cases kind
      | forever => cases kind
    | _ => cases kind

theorem foreign_of_closing (closing : ∀ event ∈ more, event.Closing) : startErrors more = [] ∧
    serversFailed app more = [] ∧ .drainEnded ∉ more ∧ .drainSent .handle ∉ more := by
  induction more with
  | nil => exact ⟨rfl, rfl, List.not_mem_nil, List.not_mem_nil⟩
  | cons event more ih =>
    obtain ⟨starts, servers, drained, sent⟩ := ih fun event among =>
      closing event (List.mem_cons_of_mem _ among)
    refine ⟨?_, ?_, fun among => closing _ among, fun among => closing _ among⟩
    · have kind := closing event List.mem_cons_self
      cases event with
      | startEnded i outcome => cases kind
      | _ => exact starts
    · have kind := closing event List.mem_cons_self
      cases event with
      | serverEnded i outcome => cases kind
      | _ => exact servers

theorem reported_closing (closing : ∀ event ∈ more, event.Closing) :
    reported app left (log ++ more) = reported app left log ++ stopErrors more := by
  obtain ⟨noStart, noServer, noDrain, noHandle⟩ := foreign_of_closing closing
  have starts : startErrors (log ++ more) = startErrors log := by
    rw [startErrors, List.filterMap_append]
    simpa [startErrors] using noStart
  have stops : stopErrors (log ++ more) = stopErrors log ++ stopErrors more := List.filterMap_append
  have handle : .drainSent .handle ∈ log ++ more ↔ .drainSent .handle ∈ log := by simp [noHandle]
  by_cases drained : .drainEnded ∈ log
  · have failed : timedOut left (log ++ more) = timedOut left log := by
      simp only [timedOut, untilDrained_append drained, List.mem_append, drained, true_or]
    simp only [reported, failures, starts, stops, failed, untilDrained_append drained, handle,
      List.append_assoc]
  · have undrained : .drainEnded ∉ log ++ more := by simp [drained, noDrain]
    have servers : serversFailed app (log ++ more) = serversFailed app log := by
      rw [serversFailed, List.filterMap_append]
      simpa [serversFailed] using noServer
    have failed : timedOut left (log ++ more) = timedOut left log := by
      simp only [timedOut, undrained, drained, false_and, if_false]
    simp only [reported, failures, starts, stops, failed, untilDrained_absent drained,
      untilDrained_absent undrained, servers, handle, List.append_assoc]

theorem reported_late (drained : .drainEnded ∈ log) (i : Nat) (outcome : ServerOutcome) :
    reported app left (log ++ [.serverEnded i outcome]) = reported app left log := by
  have starts : startErrors (log ++ [.serverEnded i outcome]) = startErrors log := by simp [startErrors]
  have stops : stopErrors (log ++ [.serverEnded i outcome]) = stopErrors log := by simp [stopErrors]
  have failed : timedOut left (log ++ [.serverEnded i outcome]) = timedOut left log := by
    simp only [timedOut, untilDrained_append drained, List.mem_append, drained, true_or]
  have handle : .drainSent .handle ∈ log ++ [.serverEnded i outcome] ↔ .drainSent .handle ∈ log := by simp
  simp only [reported, failures, starts, stops, failed, untilDrained_append drained, handle]

theorem besidesTimeout_reported (left other : List Event → List Nat) (log : List Event) :
    besidesTimeout (reported app left log) = besidesTimeout (reported app other log) := by
  have none (left : List Event → List Nat) : besidesTimeout (timedOut left log) = [] := by
    unfold timedOut
    split <;> rfl
  have apart (xs ys : List LifecycleError) :
      besidesTimeout (xs ++ ys) = besidesTimeout xs ++ besidesTimeout ys := List.filter_append ..
  simp only [reported, failures, apart, none]

theorem returnedIn_of_calm (calm : Calm log) (index : Nat) :
    returnedIn log index = endedIn log index := by
  rw [Bool.eq_iff_iff, returnedIn, endedIn, List.any_eq_true, List.any_eq_true]
  refine exists_congr fun event => and_congr_right fun among => ?_
  cases event with
  | serverEnded i outcome =>
    cases outcome with
    | returns outcome => exact Iff.rfl
    | panics => exact absurd among (calm i)
  | _ => exact Iff.rfl

variable (app) in
theorem outstanding_of_calm (calm : Calm log) : outstanding app log = stillRunning app log := by
  simp only [outstanding, stillRunning, returnedIn_of_calm calm]

theorem reported_of_calm (calm : Calm (untilDrained log)) :
    reported app (outstanding app) log = reported app (stillRunning app) log := by
  simp only [reported, failures, timedOut, outstanding_of_calm app calm]

theorem outstanding_returned (i : Nat) (outcome : Outcome) :
    outstanding app (log ++ [.serverEnded i (.returns outcome)]) =
      (outstanding app log).filter (· ≠ i) := by
  rw [outstanding, outstanding, List.filter_filter]
  refine List.filter_congr fun j _ => ?_
  by_cases same : j = i
  · simp [returnedIn, same]
  · simp [returnedIn, same, Ne.symm same]

theorem outstanding_panicked (i : Nat) :
    outstanding app (log ++ [.serverEnded i .panics]) = outstanding app log := by
  simp [outstanding, returnedIn]

theorem mem_outstanding_of_running {i : Nat} (running : i ∈ stillRunning app log) :
    i ∈ outstanding app log := by
  obtain ⟨known, going⟩ := List.mem_filter.mp running
  refine List.mem_filter.mpr ⟨known, ?_⟩
  simp only [endedIn, returnedIn, Bool.not_eq_true', List.any_eq_false] at going ⊢
  intro event among
  have own := going event among
  cases event with
  | serverEnded j outcome =>
    cases outcome with
    | returns outcome => exact own
    | panics => simp
  | _ => simp

theorem stillRunning_ended (i : Nat) (outcome : ServerOutcome) :
    stillRunning app (log ++ [.serverEnded i outcome]) =
      (stillRunning app log).filter (· ≠ i) := by
  rw [stillRunning, stillRunning, List.filter_filter]
  refine List.filter_congr fun j _ => ?_
  by_cases same : j = i
  · simp [endedIn, same]
  · simp [endedIn, same, Ne.symm same]

end Logs

section Phases

variable (app : Application)

structure Launched (log : List Event) : Prop where
  invoked : startsInvoked log = List.range app.starts.length
  succeeded : ∀ outcome ∈ app.starts, outcome = .ok

structure Failed (log : List Event) (index : Nat) (source : String) : Prop where
  invoked : startsInvoked log = List.range (index + 1)
  succeeded : ∀ i < index, app.starts[i]? = some .ok
  failed : app.starts[index]? = some (.err source)
  told : .startEnded index (.err source) ∈ log

structure Begun (s : State) (index : Nat) (rest : List Outcome) (count : Nat) : Prop where
  succeeded : ∀ i < index, app.starts[i]? = some .ok
  rest : app.starts.drop index = rest
  invoked : startsInvoked s.log = List.range count
  opening : ∀ event ∈ s.log, event.Opening
  running : s.running = []
  results : s.results = []
  finished : s.finishedServers = 0
  errs : s.errs = []

structure Serving (s : State) : Prop where
  launched : Launched app s.log
  running : s.running = stillRunning app s.log
  counted : s.finishedServers + s.results.length + (outstanding app s.log).length = app.servers.length
  errors : s.errs ++ s.results.flatMap State.serverErrors =
    (if .drainSent .handle ∈ s.log then [.cancelled] else []) ++ serversFailed app s.log
  unfailed : startErrors s.log = []
  unstopped : stopsInvoked s.log = []
  silent : stopErrors s.log = []
  undrained : .drainEnded ∉ s.log

structure Stopping (s : State) (bounded : Bool) (left : Nat) : Prop where
  origin : (bounded = true ∧ Launched app s.log ∧ .drainEnded ∈ s.log ∧ ∃ trigger, .drainSent trigger ∈ s.log) ∨
    (bounded = false ∧ s.running = [] ∧ ∃ index source, Failed app s.log index source)
  stops : stopsInvoked s.log ++ (List.range left).reverse = (List.range app.stops.length).reverse
  errors : s.errs = reported app (outstanding app) s.log

def Signalled (before : List Event) : Event → Prop
  | .stopInvoked _ => (∃ trigger, .drainSent trigger ∈ before) ∨
      ∃ i source, .startEnded i (.err source) ∈ before
  | _ => True

def Kept (s : State) : Prop :=
  Guarded Signalled s.log ∧
    match s.phase with
    | .starting index rest => rest ≠ [] ∧ Begun app s index rest (index + 1)
    | .blocked => Serving app s ∧ s.finishedServers = 0 ∧ s.errs = [] ∧ ∀ trigger, .drainSent trigger ∉ s.log
    | .draining => Serving app s ∧ ∃ trigger, .drainSent trigger ∈ s.log
    | .stopping bounded left => ∃ i, left = i + 1 ∧ Stopping app s bounded i
    | .returned result => ∃ bounded, Stopping app s bounded 0 ∧ result = join s.errs

end Phases

section Steps

variable {app : Application} {s s' : State} {index left : Nat} {rest : List Outcome} {bounded : Bool}

theorem Launched.congr {log more : List Event} (launched : Launched app log)
    (same : startsInvoked more = startsInvoked log) : Launched app more :=
  ⟨same.trans launched.invoked, launched.succeeded⟩

theorem Failed.append {log more : List Event} {source : String} (failed : Failed app log index source)
    (same : startsInvoked (log ++ more) = startsInvoked log) : Failed app (log ++ more) index source :=
  ⟨same.trans failed.invoked, failed.succeeded, failed.failed, List.mem_append_left _ failed.told⟩

theorem Stopping.record (stopping : Stopping app s bounded left) (event : Event) (closing : event.Closing)
    (next : Nat) (stops : stopsInvoked [event] ++ (List.range next).reverse = (List.range left).reverse)
    (errs : s'.errs = s.errs ++ stopErrors [event]) (log : s'.log = s.log ++ [event])
    (running : s'.running = s.running) : Stopping app s' bounded next where
  origin := by
    have same : startsInvoked (s.log ++ [event]) = startsInvoked s.log := by
      cases event with
      | startInvoked i => cases closing
      | _ => simp [startsInvoked]
    rw [log, running]
    refine stopping.origin.imp ?_ ?_
    · rintro ⟨limit, launched, drained, trigger, sent⟩
      exact ⟨limit, launched.congr same, List.mem_append_left _ drained, trigger,
        List.mem_append_left _ sent⟩
    · rintro ⟨limit, none, i, source, failed⟩
      exact ⟨limit, none, i, source, failed.append same⟩
  stops := by
    have split : stopsInvoked (s.log ++ [event]) = stopsInvoked s.log ++ stopsInvoked [event] :=
      List.filterMap_append
    rw [log, split, List.append_assoc, stops, stopping.stops]
  errors := by
    have only : ∀ e ∈ [event], e.Closing := by simpa using closing
    rw [log, errs, reported_closing only, stopping.errors]

theorem Stopping.signalled (stopping : Stopping app s bounded left) (i : Nat) :
    Signalled s.log (.stopInvoked i) := by
  rcases stopping.origin with ⟨-, -, -, sent⟩ | ⟨-, -, j, source, failed⟩
  · exact .inl sent
  · exact .inr ⟨j, source, failed.told⟩

theorem enterStops_kept (guarded : Guarded Signalled s.log) (stopping : Stopping app s bounded left) :
    Kept app (s.enterStops bounded left) := by
  cases left with
  | zero => exact ⟨guarded, bounded, ⟨stopping.origin, stopping.stops, stopping.errors⟩, rfl⟩
  | succ i =>
    refine ⟨guarded_concat guarded (stopping.signalled i), i, rfl, ?_⟩
    refine stopping.record (.stopInvoked i) trivial i ?_ (List.append_nil _).symm rfl rfl
    rw [List.range_succ, List.reverse_append]
    rfl

theorem enterStarts_kept (guarded : Guarded Signalled s.log) (begun : Begun app s index rest index) :
    Kept app (s.enterStarts app index rest) := by
  obtain ⟨starts, stops, errors, servers, ended⟩ := silent_of_opening app begun.opening
  cases rest with
  | nil =>
    have all : app.starts.length ≤ index := List.drop_eq_nil_iff.mp begun.rest
    have within : index ≤ app.starts.length := by
      by_contra beyond
      have ok := begun.succeeded app.starts.length (by omega)
      simp at ok
    have whole : index = app.starts.length := Nat.le_antisymm within all
    have succeeded : ∀ outcome ∈ app.starts, outcome = .ok := by
      intro outcome among
      obtain ⟨i, inside, rfl⟩ := List.getElem_of_mem among
      have ok := begun.succeeded i (by omega)
      rw [List.getElem?_eq_getElem inside] at ok
      exact Option.some.inj ok
    have unsent : ∀ trigger, .drainSent trigger ∉ s.log := fun _ among => begun.opening _ among
    refine ⟨guarded, ⟨⟨whole ▸ begun.invoked, succeeded⟩, ?_, ?_, ?_, starts, stops, errors,
      fun among => begun.opening _ among⟩, begun.finished, begun.errs, unsent⟩
    · simp [State.enterStarts, stillRunning, ended]
    · have calm : Calm s.log := fun _ among => begun.opening _ among
      simp [State.enterStarts, begun.finished, begun.results, outstanding_of_calm app calm,
        stillRunning, ended]
    · simp [State.enterStarts, begun.errs, begun.results, unsent, servers]
  | cons outcome rest =>
    refine ⟨guarded_concat guarded trivial, List.cons_ne_nil _ _, begun.succeeded, begun.rest, ?_, ?_,
      begun.running, begun.results, begun.finished, begun.errs⟩
    · have split : startsInvoked (s.log ++ [.startInvoked index]) = startsInvoked s.log ++ [index] :=
        List.filterMap_append
      exact split.trans (by rw [begun.invoked, List.range_succ])
    · intro event among
      rcases List.mem_append.mp among with before | own
      · exact begun.opening event before
      · rw [List.mem_singleton.mp own]
        trivial

theorem startEnds_kept (kept : Kept app s) (stepped : startEnds app s = some s') : Kept app s' := by
  obtain ⟨guarded, at_phase⟩ := kept
  unfold startEnds at stepped
  split at stepped
  · rename_i index rest here
    obtain rfl := Option.some.inj stepped
    rw [here] at at_phase
    obtain ⟨-, begun⟩ := at_phase
    have own : app.starts[index]? = some .ok := by
      rw [← List.head?_drop, begun.rest]
      rfl
    refine enterStarts_kept (guarded_concat guarded trivial) ⟨fun i before => ?_, ?_, ?_, ?_,
      begun.running, begun.results, begun.finished, begun.errs⟩
    · rcases Nat.lt_succ_iff_lt_or_eq.mp before with earlier | rfl
      · exact begun.succeeded i earlier
      · exact own
    · rw [← List.drop_drop, begun.rest]
      rfl
    · have silent : startsInvoked (s.log ++ [.startEnded index .ok]) = startsInvoked s.log := by
        simp [startsInvoked]
      exact silent.trans begun.invoked
    · intro event among
      rcases List.mem_append.mp among with before | last
      · exact begun.opening event before
      · rw [List.mem_singleton.mp last]
        trivial
  · rename_i index source rest here
    obtain rfl := Option.some.inj stepped
    rw [here] at at_phase
    obtain ⟨-, begun⟩ := at_phase
    obtain ⟨starts, stops, errors, servers, -⟩ := silent_of_opening app begun.opening
    have own : app.starts[index]? = some (.err source) := by
      rw [← List.head?_drop, begun.rest]
      rfl
    have invoked : startsInvoked (s.log ++ [.startEnded index (.err source)]) = startsInvoked s.log := by
      simp [startsInvoked]
    have unstopped : stopsInvoked (s.log ++ [.startEnded index (.err source)]) = [] := by
      simpa [stopsInvoked] using stops
    have undrained : .drainEnded ∉ s.log ++ [.startEnded index (.err source)] := by
      intro among
      rcases List.mem_append.mp among with before | last
      · exact begun.opening _ before
      · simp at last
    refine enterStops_kept (guarded_concat guarded trivial) ⟨.inr ⟨rfl, begun.running, index, source, ?_⟩, ?_,
      ?_⟩
    · exact ⟨invoked.trans begun.invoked, begun.succeeded, own, List.mem_append_right _ (by simp)⟩
    · show stopsInvoked (s.log ++ [.startEnded index (.err source)]) ++ _ = _
      rw [unstopped, List.nil_append]
    · have unsent : .drainSent .handle ∉ s.log := fun among => begun.opening _ among
      show s.errs ++ _ = reported app (outstanding app) (s.log ++ [.startEnded index (.err source)])
      have told : startErrors (s.log ++ [.startEnded index (.err source)]) = [.startHook index source] := by
        rw [startErrors, List.filterMap_append]
        simpa [startErrors] using starts
      have quiet : serversFailed app (s.log ++ [.startEnded index (.err source)]) = [] := by
        simpa [serversFailed] using servers
      have still : stopErrors (s.log ++ [.startEnded index (.err source)]) = [] := by
        simpa [stopErrors] using errors
      simp [begun.errs, reported, failures, untilDrained_absent undrained, told, quiet, still, timedOut, undrained,
        unsent]
  · cases stepped

theorem stopEnds_kept (kept : Kept app s) (stepped : stopEnds app s = some s') : Kept app s' := by
  obtain ⟨guarded, at_phase⟩ := kept
  unfold stopEnds at stepped
  split at stepped
  · rename_i bounded i here
    rw [here] at at_phase
    obtain ⟨_, ⟨rfl⟩, stopping⟩ := at_phase
    split at stepped
    · obtain rfl := Option.some.inj stepped
      exact enterStops_kept (guarded_concat guarded trivial)
        (stopping.record (.stopEnded i .ok) trivial i rfl (List.append_nil _).symm rfl rfl)
    · rename_i source _
      obtain rfl := Option.some.inj stepped
      exact enterStops_kept (guarded_concat guarded trivial)
        (stopping.record (.stopEnded i (.err source)) trivial i rfl rfl rfl rfl)
    · cases stepped
  · cases stepped

theorem stopElapsed_kept (kept : Kept app s) (stepped : stopElapsed s = some s') : Kept app s' := by
  obtain ⟨guarded, at_phase⟩ := kept
  unfold stopElapsed at stepped
  split at stepped
  · rename_i i here
    rw [here] at at_phase
    obtain ⟨_, ⟨rfl⟩, stopping⟩ := at_phase
    split at stepped
    · obtain rfl := Option.some.inj stepped
      exact enterStops_kept (guarded_concat guarded trivial)
        (stopping.record (.stopCancelled i) trivial i rfl rfl rfl rfl)
    · cases stepped
  · cases stepped

structure Alike (s s' : State) : Prop where
  phase : s'.phase = s.phase
  running : s'.running = s.running
  results : s'.results = s.results
  finished : s'.finishedServers = s.finishedServers
  errs : s'.errs = s.errs
  log : s'.log = s.log

theorem Serving.congr (serving : Serving app s) (alike : Alike s s') : Serving app s' where
  launched := alike.log ▸ serving.launched
  running := by rw [alike.running, alike.log, serving.running]
  counted := by rw [alike.finished, alike.results, alike.log, serving.counted]
  errors := by rw [alike.errs, alike.results, alike.log, serving.errors]
  unfailed := by rw [alike.log, serving.unfailed]
  unstopped := by rw [alike.log, serving.unstopped]
  silent := by rw [alike.log, serving.silent]
  undrained := by
    rw [alike.log]
    exact serving.undrained

theorem Stopping.congr (stopping : Stopping app s bounded left) (alike : Alike s s') :
    Stopping app s' bounded left where
  origin := by
    rw [alike.log, alike.running]
    exact stopping.origin
  stops := by rw [alike.log, stopping.stops]
  errors := by rw [alike.errs, alike.log, stopping.errors]

theorem Kept.congr (kept : Kept app s) (alike : Alike s s') : Kept app s' := by
  obtain ⟨guarded, at_phase⟩ := kept
  refine ⟨alike.log ▸ guarded, ?_⟩
  rw [alike.phase]
  cases here : s.phase with
  | starting index rest =>
    rw [here] at at_phase
    obtain ⟨present, succeeded, rest, invoked, opening, running, results, finished, errs⟩ := at_phase
    rw [← alike.log] at invoked opening
    exact ⟨present, succeeded, rest, invoked, opening, alike.running.trans running, alike.results.trans results,
      alike.finished.trans finished, alike.errs.trans errs⟩
  | blocked =>
    rw [here] at at_phase
    obtain ⟨serving, finished, errs, unsent⟩ := at_phase
    exact ⟨serving.congr alike, alike.finished.trans finished, alike.errs.trans errs, alike.log ▸ unsent⟩
  | draining =>
    rw [here] at at_phase
    obtain ⟨serving, sent⟩ := at_phase
    exact ⟨serving.congr alike, alike.log ▸ sent⟩
  | stopping bounded left =>
    rw [here] at at_phase
    obtain ⟨i, more, stopping⟩ := at_phase
    exact ⟨i, more, stopping.congr alike⟩
  | returned result =>
    rw [here] at at_phase
    obtain ⟨bounded, stopping, given⟩ := at_phase
    exact ⟨bounded, stopping.congr alike, by rw [alike.errs, given]⟩

theorem Serving.fewer (serving : Serving app s) {i : Nat} (among : i ∈ s.running) (outcome : Outcome) :
    (outstanding app (s.log ++ [.serverEnded i (.returns outcome)])).length + 1 =
      (outstanding app s.log).length := by
  have held : i ∈ outstanding app s.log := by
    rw [serving.running] at among
    exact mem_outstanding_of_running among
  have distinct : (outstanding app s.log).Nodup := List.nodup_range.filter _
  have erased : (outstanding app s.log).filter (· ≠ i) = (outstanding app s.log).erase i := by
    rw [distinct.erase_eq_filter]
    exact List.filter_congr fun j _ => by by_cases same : j = i <;> simp [same]
  rw [outstanding_returned, erased, List.length_erase_of_mem held]
  have := List.length_pos_of_mem held
  omega

theorem Serving.ended (serving : Serving app s) {i : Nat} {outcome : ServerOutcome}
    {results : List (String × Outcome)}
    (counted : results.length + (outstanding app (s.log ++ [.serverEnded i outcome])).length =
      (outstanding app s.log).length)
    (errors : results.flatMap State.serverErrors = serversFailed app [.serverEnded i outcome])
    (running : s'.running = s.running.filter (· ≠ i)) (sent : s'.results = s.results ++ results)
    (finished : s'.finishedServers = s.finishedServers) (errs : s'.errs = s.errs)
    (log : s'.log = s.log ++ [.serverEnded i outcome]) : Serving app s' where
  launched := by
    rw [log]
    exact serving.launched.congr (by simp [startsInvoked])
  running := by rw [running, log, stillRunning_ended, serving.running]
  counted := by
    have before := serving.counted
    rw [finished, sent, log, List.length_append]
    omega
  errors := by
    have split : serversFailed app (s.log ++ [.serverEnded i outcome]) =
        serversFailed app s.log ++ serversFailed app [.serverEnded i outcome] := List.filterMap_append
    have handle : .drainSent .handle ∈ s.log ++ [.serverEnded i outcome] ↔ .drainSent .handle ∈ s.log := by
      simp
    simp only [errs, sent, log, split, handle, List.flatMap_append, errors, ← List.append_assoc,
      serving.errors]
  unfailed := by
    rw [log]
    simpa [startErrors] using serving.unfailed
  unstopped := by
    rw [log]
    simpa [stopsInvoked] using serving.unstopped
  silent := by
    rw [log]
    simpa [stopErrors] using serving.silent
  undrained := by
    rw [log]
    simpa using serving.undrained

theorem Stopping.ended (stopping : Stopping app s bounded left) {i : Nat} {outcome : ServerOutcome}
    (among : i ∈ s.running) (errs : s'.errs = s.errs) (log : s'.log = s.log ++ [.serverEnded i outcome]) :
    Stopping app s' bounded left := by
  rcases stopping.origin with ⟨limit, launched, drained, trigger, sent⟩ | ⟨-, none, -⟩
  · refine ⟨.inl ⟨limit, ?_, ?_, trigger, ?_⟩, ?_, ?_⟩
    · rw [log]
      exact launched.congr (by simp [startsInvoked])
    · rw [log]
      exact List.mem_append_left _ drained
    · rw [log]
      exact List.mem_append_left _ sent
    · rw [log]
      simpa [stopsInvoked] using stopping.stops
    · rw [log, errs, reported_late drained, stopping.errors]
  · rw [none] at among
    cases among

theorem Kept.serverEnded (kept : Kept app s) {i : Nat} (outcome : ServerOutcome)
    (results : List (String × Outcome)) (among : i ∈ s.running)
    (counted : Serving app s → results.length +
      (outstanding app (s.log ++ [.serverEnded i outcome])).length = (outstanding app s.log).length)
    (errors : results.flatMap State.serverErrors = serversFailed app [.serverEnded i outcome]) :
    Kept app { s with
      running := s.running.filter (· ≠ i)
      results := s.results ++ results
      log := s.log ++ [.serverEnded i outcome] } := by
  obtain ⟨guarded, at_phase⟩ := kept
  refine ⟨guarded_concat guarded trivial, ?_⟩
  simp only
  cases here : s.phase with
  | starting index rest =>
    rw [here] at at_phase
    rw [at_phase.2.running] at among
    cases among
  | blocked =>
    rw [here] at at_phase
    obtain ⟨serving, finished, errs, unsent⟩ := at_phase
    refine ⟨serving.ended (counted serving) errors rfl rfl rfl rfl rfl, finished, errs,
      fun trigger sent => ?_⟩
    rcases List.mem_append.mp sent with before | own
    · exact unsent trigger before
    · simp at own
  | draining =>
    rw [here] at at_phase
    obtain ⟨serving, trigger, sent⟩ := at_phase
    exact ⟨serving.ended (counted serving) errors rfl rfl rfl rfl rfl, trigger,
      List.mem_append_left _ sent⟩
  | stopping bounded left =>
    rw [here] at at_phase
    obtain ⟨j, more, stopping⟩ := at_phase
    exact ⟨j, more, stopping.ended among rfl rfl⟩
  | returned result =>
    rw [here] at at_phase
    obtain ⟨bounded, stopping, given⟩ := at_phase
    exact ⟨bounded, stopping.ended among rfl rfl, given⟩

theorem serverEnds_kept (kept : Kept app s) {i : Nat} (stepped : serverEnds app i s = some s') :
    Kept app s' := by
  unfold serverEnds at stepped
  split at stepped
  · rename_i among
    split at stepped
    · cases stepped
    · rename_i server known
      split at stepped
      · cases stepped
      · rename_i outcome _ ends
        obtain rfl := Option.some.inj stepped
        refine kept.serverEnded server.outcome [(server.name, outcome)] among (fun serving => ?_) ?_
        · have fewer := serving.fewer among outcome
          rw [ends, List.length_singleton]
          omega
        · rw [ends]
          cases outcome <;> simp [serversFailed, State.serverErrors, known]
      · rename_i ends
        obtain rfl := Option.some.inj stepped
        have same := kept.serverEnded server.outcome [] among
          (fun _ => by rw [ends, outstanding_panicked, List.length_nil, Nat.zero_add])
          (by simp [ends, serversFailed])
        simpa [State.record] using same
  · cases stepped

theorem Serving.received (serving : Serving app s) {result : String × Outcome}
    {rest : List (String × Outcome)} (waiting : s.results = result :: rest) :
    Serving app (s.receive result rest) where
  launched := serving.launched
  running := serving.running
  counted := by
    have counted := serving.counted
    rw [waiting, List.length_cons] at counted
    simp only [State.receive, State.fail]
    omega
  errors := by
    have errors := serving.errors
    rw [waiting, List.flatMap_cons, ← List.append_assoc] at errors
    exact errors
  unfailed := serving.unfailed
  unstopped := serving.unstopped
  silent := serving.silent
  undrained := serving.undrained

theorem Serving.drain (serving : Serving app s) (trigger : Trigger)
    (unsent : .drainSent .handle ∉ s.log) (errs : List LifecycleError)
    (cancelled : errs = (if trigger = .handle then [.cancelled] else []) ++ s.errs) :
    Serving app ({ s with errs }.drain trigger) where
  launched := serving.launched.congr (by simp [State.drain, State.record, startsInvoked])
  running := by
    rw [State.drain, State.record]
    simpa [stillRunning, endedIn] using serving.running
  counted := by
    have same : outstanding app (s.log ++ [.drainSent trigger]) = outstanding app s.log := by
      simp [outstanding, returnedIn]
    simpa [State.drain, State.record, same] using serving.counted
  errors := by
    have errors := serving.errors
    rw [if_neg unsent, List.nil_append] at errors
    have same : serversFailed app (s.log ++ [.drainSent trigger]) = serversFailed app s.log := by
      simp [serversFailed]
    have handle : .drainSent .handle ∈ s.log ++ [.drainSent trigger] ↔ trigger = .handle := by
      simp [unsent, eq_comm]
    simp only [State.drain, State.record, same, handle, cancelled, List.append_assoc, errors]
  unfailed := by simpa [State.drain, State.record, startErrors] using serving.unfailed
  unstopped := by simpa [State.drain, State.record, stopsInvoked] using serving.unstopped
  silent := by simpa [State.drain, State.record, stopErrors] using serving.silent
  undrained := by simpa [State.drain, State.record] using serving.undrained

theorem selectBranch_kept (kept : Kept app s) {trigger : Trigger}
    (stepped : selectBranch app s trigger = some s') : Kept app s' := by
  obtain ⟨guarded, at_phase⟩ := kept
  unfold selectBranch at stepped
  split at stepped
  · rename_i here
    rw [here] at at_phase
    obtain ⟨serving, finished, errs, unsent⟩ := at_phase
    split at stepped
    · obtain rfl := Option.some.inj stepped
      refine ⟨guarded_concat guarded trivial, ?_, .handle, List.mem_append_right _ (by simp)⟩
      exact serving.drain .handle (unsent _) (s.errs ++ [.cancelled]) (by simp [errs])
    · cases stepped
  · rename_i here
    rw [here] at at_phase
    obtain ⟨serving, finished, errs, unsent⟩ := at_phase
    split at stepped
    · obtain rfl := Option.some.inj stepped
      refine ⟨guarded_concat guarded trivial, ?_, .signal, List.mem_append_right _ (by simp)⟩
      exact serving.drain .signal (unsent _) s.errs (by simp)
    · cases stepped
  · rename_i here
    rw [here] at at_phase
    obtain ⟨serving, finished, errs, unsent⟩ := at_phase
    split at stepped
    · cases stepped
    · rename_i result rest waiting
      obtain rfl := Option.some.inj stepped
      refine ⟨guarded_concat guarded trivial, ?_, .exit, List.mem_append_right _ (by simp)⟩
      exact (serving.received waiting).drain .exit (unsent _) _ (by simp [State.receive, State.fail])
  · cases stepped

theorem Serving.drained (serving : Serving app s) {trigger : Trigger} (sent : .drainSent trigger ∈ s.log)
    (received : s.results = []) (errs : s'.errs = s.errs ++
      if outstanding app s.log = [] then [] else [.drainTimedOut (outstanding app s.log).length])
    (log : s'.log = s.log ++ [.drainEnded]) : Stopping app s' true app.stops.length where
  origin := by
    rw [log]
    exact .inl ⟨rfl, serving.launched.congr (by simp [startsInvoked]), List.mem_append_right _ (by simp),
      trigger, List.mem_append_left _ sent⟩
  stops := by
    have none : stopsInvoked (s.log ++ [.drainEnded]) = [] := by
      simpa [stopsInvoked] using serving.unstopped
    rw [log, none, List.nil_append]
  errors := by
    have until_here : untilDrained (s.log ++ [.drainEnded]) = s.log := by
      have before : ∀ event ∈ s.log, decide (event ≠ .drainEnded) = true := fun event among =>
        decide_eq_true fun same => serving.undrained (same ▸ among)
      rw [untilDrained, List.takeWhile_append_of_pos before]
      simp
    have errors := serving.errors
    rw [received, List.flatMap_nil, List.append_nil] at errors
    have noStart : startErrors (s.log ++ [.drainEnded]) = [] := by
      simpa [startErrors] using serving.unfailed
    have noStop : stopErrors (s.log ++ [.drainEnded]) = [] := by
      simpa [stopErrors] using serving.silent
    have handle : .drainSent .handle ∈ s.log ++ [.drainEnded] ↔ .drainSent .handle ∈ s.log := by simp
    rw [errs, log, reported, failures, timedOut, until_here, noStart, noStop, errors]
    by_cases none : outstanding app s.log = []
    · simp [none]
    · simp [none]

theorem drainTurn_kept (kept : Kept app s) (stepped : drainTurn app s = some s') : Kept app s' := by
  obtain ⟨guarded, at_phase⟩ := kept
  unfold drainTurn at stepped
  split at stepped
  · rename_i here
    rw [here] at at_phase
    obtain ⟨serving, trigger, sent⟩ := at_phase
    have counted := serving.counted
    split at stepped
    · rename_i unfinished
      split at stepped
      · rename_i result rest waiting
        obtain rfl := Option.some.inj stepped
        refine ⟨guarded, ?_⟩
        have still : (s.receive result rest).phase = .draining := here
        rw [still]
        exact ⟨serving.received waiting, trigger, sent⟩
      · rename_i received
        split at stepped
        · obtain rfl := Option.some.inj stepped
          refine enterStops_kept (guarded_concat guarded trivial) (serving.drained sent received ?_ rfl)
          rw [received, List.length_nil] at counted
          have some_left : outstanding app s.log ≠ [] := fun none => by
            rw [none, List.length_nil] at counted
            omega
          have left : app.servers.length - s.finishedServers = (outstanding app s.log).length := by omega
          simp [State.fail, State.record, some_left, left]
        · cases stepped
    · obtain rfl := Option.some.inj stepped
      have received : s.results = [] := List.length_eq_zero_iff.mp (by omega)
      have none : outstanding app s.log = [] := List.length_eq_zero_iff.mp (by omega)
      refine enterStops_kept (guarded_concat guarded trivial) (serving.drained sent received ?_ rfl)
      simp [State.record, none]
  · cases stepped

theorem step_kept (kept : Kept app s) {choice : Choice} (stepped : step app s choice = some s') : Kept app s' := by
  cases choice with
  | startEnds => exact startEnds_kept kept stepped
  | serverEnds i => exact serverEnds_kept kept stepped
  | stopEnds => exact stopEnds_kept kept stepped
  | select trigger => exact selectBranch_kept kept stepped
  | drain => exact drainTurn_kept kept stepped
  | stopElapsed => exact stopElapsed_kept kept stepped
  | shutdown =>
    obtain rfl := Option.some.inj stepped
    exact kept.congr ⟨rfl, rfl, rfl, rfl, rfl, rfl⟩
  | signal =>
    have stepped : signal s = some s' := stepped
    unfold signal at stepped
    split at stepped
    · obtain rfl := Option.some.inj stepped
      exact kept.congr ⟨rfl, rfl, rfl, rfl, rfl, rfl⟩
    · cases stepped
  | deadline =>
    have stepped : deadline s = some s' := stepped
    unfold deadline at stepped
    split at stepped
    · obtain rfl := Option.some.inj stepped
      exact kept.congr ⟨rfl, rfl, rfl, rfl, rfl, rfl⟩
    · obtain rfl := Option.some.inj stepped
      exact kept.congr ⟨rfl, rfl, rfl, rfl, rfl, rfl⟩
    · cases stepped

theorem start_kept (app : Application) : Kept app (start app) :=
  enterStarts_kept (guarded_nil Signalled)
    ⟨fun _ before => absurd before (Nat.not_lt_zero _), rfl, rfl, fun _ among => (by cases among), rfl, rfl, rfl,
      rfl⟩

theorem Launched.started (launched : Launched app s.log) : Started app s app.starts.length where
  invoked := launched.invoked
  succeeded := by
    intro i within
    have inside : i < app.starts.length := by omega
    rw [List.getElem?_eq_getElem inside, launched.succeeded _ (List.getElem_mem inside)]
  ended := .inr (.inl ⟨rfl, launched.succeeded⟩)

theorem Stopping.started (stopping : Stopping app s bounded left) : ∃ count, Started app s count := by
  rcases stopping.origin with ⟨-, launched, -⟩ | ⟨-, -, i, source, failed⟩
  · exact ⟨_, launched.started⟩
  · exact ⟨i + 1, failed.invoked, fun j within => failed.succeeded j (by omega),
      .inr (.inr ⟨source, Nat.succ_pos i, failed.failed⟩)⟩

theorem Kept.started (kept : Kept app s) : ∃ count, Started app s count := by
  obtain ⟨-, at_phase⟩ := kept
  cases here : s.phase with
  | starting index rest =>
    rw [here] at at_phase
    exact ⟨index + 1, at_phase.2.invoked, fun i within => at_phase.2.succeeded i (by omega),
      .inl ⟨index, rest, here⟩⟩
  | blocked =>
    rw [here] at at_phase
    exact ⟨_, at_phase.1.launched.started⟩
  | draining =>
    rw [here] at at_phase
    exact ⟨_, at_phase.1.launched.started⟩
  | stopping bounded left =>
    rw [here] at at_phase
    obtain ⟨i, -, stopping⟩ := at_phase
    exact stopping.started
  | returned result =>
    rw [here] at at_phase
    obtain ⟨bounded, stopping, -⟩ := at_phase
    exact stopping.started

theorem Kept.stops (kept : Kept app s) : stopsInvoked s.log <+: (List.range app.stops.length).reverse := by
  obtain ⟨-, at_phase⟩ := kept
  cases here : s.phase with
  | starting index rest =>
    rw [here] at at_phase
    rw [(silent_of_opening app at_phase.2.opening).2.1]
    exact List.nil_prefix
  | blocked =>
    rw [here] at at_phase
    rw [at_phase.1.unstopped]
    exact List.nil_prefix
  | draining =>
    rw [here] at at_phase
    rw [at_phase.1.unstopped]
    exact List.nil_prefix
  | stopping bounded left =>
    rw [here] at at_phase
    obtain ⟨i, -, stopping⟩ := at_phase
    exact ⟨_, stopping.stops⟩
  | returned result =>
    rw [here] at at_phase
    obtain ⟨bounded, stopping, -⟩ := at_phase
    exact ⟨_, stopping.stops⟩

theorem Serving.waiting (serving : Serving app s) (calm : Calm s.log) (finished : s.finishedServers = 0)
    {i : Nat} (known : i < app.servers.length) (ended : endedIn s.log i = true) : s.results ≠ [] := by
  intro none
  have counted := serving.counted
  rw [none, finished, outstanding_of_calm app calm] at counted
  have fewer : (stillRunning app s.log).length < (List.range app.servers.length).length :=
    List.length_filter_lt_length_iff_exists.mpr ⟨i, List.mem_range.mpr known, by simp [ended]⟩
  rw [List.length_range] at fewer
  simp only [List.length_nil] at counted
  omega

theorem selectBranch_drains {trigger : Trigger} (stepped : selectBranch app s trigger = some s') :
    s'.phase = .draining ∧ .drainSent trigger ∈ s'.log := by
  unfold selectBranch at stepped
  split at stepped
  · split at stepped
    · obtain rfl := Option.some.inj stepped
      exact ⟨rfl, List.mem_append_right _ (by simp)⟩
    · cases stepped
  · split at stepped
    · obtain rfl := Option.some.inj stepped
      exact ⟨rfl, List.mem_append_right _ (by simp)⟩
    · cases stepped
  · split at stepped
    · cases stepped
    · obtain rfl := Option.some.inj stepped
      exact ⟨rfl, List.mem_append_right _ (by simp)⟩
  · cases stepped

theorem flattened_join (errors : List LifecycleError) : flattened (join errors) = errors := by
  unfold join
  split <;> rfl

theorem Kept.protocol (kept : Kept app s) : Protocol app (reported app (stillRunning app)) s where
  starts := kept.started
  exits := by
    rintro calm here ⟨i, known, ended⟩
    obtain ⟨-, at_phase⟩ := kept
    rw [here] at at_phase
    obtain ⟨result, rest, waiting⟩ :=
      List.exists_cons_of_ne_nil (at_phase.1.waiting calm at_phase.2.1 known ended)
    exact ⟨⟨.exit, by simp [step, selectBranch, here, waiting]⟩, fun _ _ => selectBranch_drains⟩
  signal := fun before i after split => kept.1 before (.stopInvoked i) after split
  stops := kept.stops
  returned := by
    rintro result here
    obtain ⟨-, at_phase⟩ := kept
    rw [here] at at_phase
    obtain ⟨bounded, stopping, rfl⟩ := at_phase
    have stops := stopping.stops
    rw [List.range_zero, List.reverse_nil, List.append_nil] at stops
    rw [flattened_join, stopping.errors]
    exact ⟨stops, besidesTimeout_reported _ _ _, reported_of_calm⟩

end Steps

def orders : Application where
  starts := [.ok]
  servers := [{ name := "api", outcome := .returns (.err "reset") }]
  stops := [.err "flush", .ok]
  trapSignals := true

def idle : Application where
  starts := []
  servers := []
  stops := []
  trapSignals := false

end Firefly.Lifecycle
