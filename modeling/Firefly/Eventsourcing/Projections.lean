import Firefly.Eventsourcing.StoreAgreement
import Firefly.Shared.Runs

set_option autoImplicit false

-- A projection is any function on a state, and may fail as it likes. The trace lists the calls of
-- projections.

namespace Firefly.Eventsourcing.Projections

open Runs

variable {σ : Type}

abbrev Projection (σ : Type) := DomainEvent → σ → Except EventSourcingError Unit × σ

structure Application where
  projection : Nat
  streamed : StreamedEvent
  ok : Bool
deriving DecidableEq

structure World (σ : Type) where
  state : σ
  trace : List Application := []

def call (place : Nat) (projection : Projection σ) (streamed : StreamedEvent) (w : World σ) :
    Except EventSourcingError Unit × World σ :=
  let (result, state) := projection streamed.event w.state
  (result, ⟨state, w.trace ++ [⟨place, streamed, result.isOk⟩]⟩)

def applyFrom (place : Nat) : List (Projection σ) → StreamedEvent → World σ →
    Except EventSourcingError Unit × World σ
  | [], _, w => (.ok (), w)
  | projection :: projections, streamed, w =>
    match call place projection streamed w with
    | (.ok (), w) => applyFrom (place + 1) projections streamed w
    | (.error error, w) => (.error error, w)

def driveBatch (projections : List (Projection σ)) : List StreamedEvent → Option String → World σ →
    (Option String × Option EventSourcingError) × World σ
  | [], cursor, w => ((cursor, none), w)
  | streamed :: batch, cursor, w =>
    match applyFrom 0 projections streamed w with
    | (.ok (), w) => driveBatch projections batch (some streamed.eventId) w
    | (.error error, w) => ((cursor, some error), w)

def driveOnce (projections : List (Projection σ)) (store : MemoryEventStore)
    (afterEventId : Option String) (batchSize : Nat) (tenant : Option String) (w : World σ) :
    Except EventSourcingError (Option String × Option EventSourcingError) × World σ :=
  match store.streamAll afterEventId batchSize tenant with
  | .error error => (.error error, w)
  | .ok batch =>
    let (result, w) := driveBatch projections batch afterEventId w
    (.ok result, w)

def replayAll (projections : List (Projection σ)) (store : MemoryEventStore) (batchSize : Nat)
    (tenant : Option String) : Nat → Option String → World σ →
      Option (Except EventSourcingError (Option String) × World σ)
  | 0, _, _ => none
  | turns + 1, cursor, w =>
    match driveOnce projections store cursor (max batchSize 1) tenant w with
    | (.error error, w) => some (.error error, w)
    | (.ok (_, some error), w) => some (.error error, w)
    | (.ok (next, none), w) =>
      -- A cursor that did not move means the stream is drained.
      if next = cursor then some (.ok cursor, w)
      else replayAll projections store batchSize tenant turns next w

def behind {α : Type} (key : String) : List (String × α) → List (String × α)
  | [] => []
  | entry :: entries => if entry.1 = key then entries else behind key entries

def behindCursor {α : Type} : Option String → List (String × α) → List (String × α)
  | none, entries => entries
  | some key, entries => behind key entries

def visible (store : MemoryEventStore) (tenant : Option String) (cursor : Option String) :
    List StreamedEvent :=
  ((behindCursor cursor store.inner.all).filter fun entry =>
    MemoryEventStore.tenantMatches tenant entry.2).map fun entry =>
      ⟨entry.1, applyUpcasters entry.2 store.upcasters⟩

section Entries

variable {α : Type} {key : String} {entries more : List (String × α)}

theorem behind_append (listed : key ∈ entries.map Prod.fst) :
    behind key (entries ++ more) = behind key entries ++ more := by
  induction entries with
  | nil => cases listed
  | cons entry entries ih =>
    rw [List.cons_append, behind, behind]
    split
    · rfl
    · rename_i other
      refine ih ?_
      rcases List.mem_cons.mp listed with here | later
      · exact absurd here.symm other
      · exact later

theorem behind_fresh (fresh : key ∉ entries.map Prod.fst) (value : α) :
    behind key (entries ++ (key, value) :: more) = more := by
  induction entries with
  | nil => exact if_pos rfl
  | cons entry entries ih =>
    simp only [List.map_cons, List.mem_cons, not_or] at fresh
    rw [List.cons_append, behind, if_neg (Ne.symm fresh.1)]
    exact ih fresh.2

theorem behind_drop (key : String) (entries : List (String × α)) :
    (match entries.findIdx? fun entry => entry.1 = key with
      | none => []
      | some idx => entries.drop (idx + 1)) = behind key entries := by
  induction entries with
  | nil => rfl
  | cons entry entries ih =>
    rw [List.findIdx?_cons, behind]
    by_cases here : entry.1 = key
    · simp [here]
    · rw [← ih]
      simp only [here, decide_false, Bool.false_eq_true, if_false]
      cases entries.findIdx? fun entry => entry.1 = key <;> rfl

theorem behindCursor_suffix (cursor : Option String) (entries : List (String × α)) :
    behindCursor cursor entries <:+ entries := by
  cases cursor with
  | none => exact List.suffix_rfl
  | some key =>
    induction entries with
    | nil => exact List.suffix_rfl
    | cons entry entries ih =>
      rw [behindCursor, behind]
      split
      · exact List.suffix_cons ..
      · exact ih.trans (List.suffix_cons ..)

end Entries

theorem page_positive (upcasters : List EventUpcaster) (limit : Nat) (tenant : Option String)
    (entries : List (String × DomainEvent)) :
    MemoryEventStore.page upcasters limit tenant entries [] =
      MemoryEventStore.page upcasters (max limit 1) tenant entries [] := by
  induction entries with
  | nil => rfl
  | cons entry entries ih =>
    cases limit with
    | zero => simp [MemoryEventStore.page, ih]
    | succ limit => rw [max_eq_left (Nat.le_add_left 1 limit)]

theorem streamAll_visible (store : MemoryEventStore) (cursor : Option String) (limit : Nat)
    (tenant : Option String) :
    store.streamAll cursor limit tenant = .ok ((visible store tenant cursor).take (max limit 1)) := by
  have page (entries : List (String × DomainEvent)) :
      MemoryEventStore.page store.upcasters limit tenant entries [] =
        ((entries.filter fun entry => MemoryEventStore.tenantMatches tenant entry.2).take
          (max limit 1)).map fun entry => ⟨entry.1, applyUpcasters entry.2 store.upcasters⟩ := by
    rw [page_positive, StoreAgreement.memoryPage_eq _ _ _ (by simp)]
    rfl
  cases cursor with
  | none => rw [MemoryEventStore.streamAll, page, visible, List.map_take, behindCursor]
  | some key =>
    have drop := behind_drop key store.inner.all
    rw [MemoryEventStore.streamAll, visible]
    split
    · rename_i none_
      rw [none_] at drop
      rw [behindCursor, ← drop]
      simp
    · rename_i idx found
      rw [found] at drop
      rw [page, behindCursor, ← drop, List.map_take]

def Numbered (inner : MemoryState) : Prop :=
  (inner.all.map Prod.fst).Nodup ∧
    ∀ id ∈ inner.all.map Prod.fst, ∃ seq, seq < inner.nextSeq ∧ id = MemoryEventStore.eventId seq

def Known (store : MemoryEventStore) (cursor : Option String) : Prop :=
  ∀ id ∈ cursor, id ∈ store.inner.all.map Prod.fst

theorem numbered_push {inner : MemoryState} (numbered : Numbered inner) (id : String) (event : DomainEvent) :
    Numbered (MemoryEventStore.push id inner event) := by
  have fresh : MemoryEventStore.eventId inner.nextSeq ∉ inner.all.map Prod.fst := by
    intro listed
    obtain ⟨seq, before, same⟩ := numbered.2 _ listed
    have equal := Decimal.paddedString_injective 20 same
    omega
  constructor
  · rw [MemoryEventStore.push, List.map_append]
    exact numbered.1.append (List.nodup_singleton _) (by simpa using fresh)
  · intro other listed
    rw [MemoryEventStore.push, List.map_append, List.mem_append] at listed
    rcases listed with old | new
    · obtain ⟨seq, before, same⟩ := numbered.2 other old
      exact ⟨seq, Nat.lt_succ_of_lt before, same⟩
    · exact ⟨inner.nextSeq, Nat.lt_succ_self _, by simpa using new⟩

theorem numbered_pushAll {inner : MemoryState} (numbered : Numbered inner) (id : String)
    (events : List DomainEvent) : Numbered (events.foldl (MemoryEventStore.push id) inner) := by
  induction events generalizing inner with
  | nil => exact numbered
  | cons event events ih => exact ih (numbered_push numbered id event)

theorem pushAll_all (id : String) (events : List DomainEvent) (inner : MemoryState) :
    inner.all <+: (events.foldl (MemoryEventStore.push id) inner).all := by
  induction events generalizing inner with
  | nil => exact List.prefix_rfl
  | cons event events ih =>
    exact (List.prefix_append inner.all _).trans (ih (MemoryEventStore.push id inner event))

theorem append_log (store : MemoryEventStore) (id : String) (expected : Int) (events : List DomainEvent) :
    (store.append id expected events).2.upcasters = store.upcasters ∧
      store.inner.all <+: (store.append id expected events).2.inner.all ∧
      (Numbered store.inner → Numbered (store.append id expected events).2.inner) := by
  rw [MemoryEventStore.append]
  split_ifs
  · exact ⟨rfl, List.prefix_rfl, fun numbered => numbered⟩
  · exact ⟨rfl, List.prefix_rfl, fun numbered => numbered⟩
  · exact ⟨rfl, pushAll_all .., fun numbered => numbered_pushAll numbered ..⟩

theorem numbered_empty : Numbered {} := ⟨.nil, fun _ listed => nomatch listed⟩

variable {store : MemoryEventStore} {tenant start cursor : Option String} {k : Nat} {streamed : StreamedEvent}

def cursorAt (start : Option String) (events : List StreamedEvent) (k : Nat) : Option String :=
  match (events.take k).getLast? with
  | some last => some last.eventId
  | none => start

theorem visible_ids (store : MemoryEventStore) (tenant cursor : Option String) :
    ((visible store tenant cursor).map StreamedEvent.eventId).Sublist (store.inner.all.map Prod.fst) := by
  rw [visible, List.map_map]
  exact (List.filter_sublist.trans (behindCursor_suffix cursor _).sublist).map Prod.fst

theorem visible_nodup (numbered : Numbered store.inner) : (visible store tenant cursor).Nodup :=
  .of_map _ (numbered.1.sublist (visible_ids store tenant cursor))

theorem visible_grows {grown : MemoryEventStore} (upcasters : grown.upcasters = store.upcasters)
    (log : store.inner.all <+: grown.inner.all) (known : Known store cursor) :
    visible store tenant cursor <+: visible grown tenant cursor := by
  obtain ⟨more, log⟩ := log
  have behind_more : behindCursor cursor grown.inner.all = behindCursor cursor store.inner.all ++ more := by
    rw [← log]
    cases cursor with
    | none => rfl
    | some key => exact behind_append (known key rfl)
  rw [visible, visible, behind_more, List.filter_append, List.map_append, upcasters]
  exact List.prefix_append ..

theorem filter_split {α : Type} {p : α → Bool} {xs : List α} {x : α} (found : (xs.filter p)[k]? = some x) :
    ∃ before later, xs = before ++ x :: later ∧ later.filter p = (xs.filter p).drop (k + 1) := by
  obtain ⟨inside, same⟩ := List.getElem?_eq_some_iff.mp found
  have parts : xs.filter p = (xs.filter p).take k ++ x :: (xs.filter p).drop (k + 1) := by
    rw [← same, List.getElem_cons_drop, List.take_append_drop]
  obtain ⟨first, second, whole, -, rest⟩ := List.filter_eq_append_iff.mp parts
  obtain ⟨skipped, later, rfl, -, -, kept⟩ := List.filter_eq_cons_iff.mp rest
  exact ⟨first ++ skipped, later, by rw [whole, List.append_assoc], kept⟩

theorem visible_drop (numbered : Numbered store.inner) (found : (visible store tenant cursor)[k]? = some streamed) :
    visible store tenant (some streamed.eventId) = (visible store tenant cursor).drop (k + 1) := by
  obtain ⟨front, whole⟩ := behindCursor_suffix cursor store.inner.all
  rw [visible, List.getElem?_map] at found
  obtain ⟨⟨id, event⟩, listed, rfl⟩ := Option.map_eq_some_iff.mp found
  obtain ⟨before, later, split, rest⟩ := filter_split listed
  have entries : store.inner.all = (front ++ before) ++ (id, event) :: later := by
    rw [← whole, split, List.append_assoc]
  have fresh : id ∉ (front ++ before).map Prod.fst := by
    intro listed
    have apart := numbered.1
    rw [entries, List.map_append, List.map_cons] at apart
    exact (List.nodup_append.mp apart).2.2 id listed id (.head _) rfl
  have tail : behindCursor (some id) store.inner.all = later := by
    rw [entries]
    exact behind_fresh fresh event
  rw [visible, tail, rest, List.map_drop]
  rfl

def accepting (count : Nat) (streamed : StreamedEvent) : List Application :=
  (List.range count).map fun place => ⟨place, streamed, true⟩

theorem applyFrom_trace (projections : List (Projection σ)) (place : Nat) (streamed : StreamedEvent)
    (w : World σ) :
    (applyFrom place projections streamed w).1 = .ok () ∧
      (applyFrom place projections streamed w).2.trace = w.trace ++
        (List.range' place projections.length).map (fun place => ⟨place, streamed, true⟩) ∨
    ∃ error failed, failed < projections.length ∧
      (applyFrom place projections streamed w).1 = .error error ∧
      (applyFrom place projections streamed w).2.trace = w.trace ++
        (List.range' place failed).map (fun place => ⟨place, streamed, true⟩) ++
          [⟨place + failed, streamed, false⟩] := by
  induction projections generalizing place w with
  | nil => exact .inl ⟨rfl, by simp [applyFrom]⟩
  | cons projection projections ih =>
    rw [applyFrom, call]
    rcases answered : projection streamed.event w.state with ⟨error | done, state⟩
    · exact .inr ⟨error, 0, by simp, rfl, by simp [Except.isOk, Except.toBool]⟩
    · have later := ih (place + 1) ⟨state, w.trace ++ [⟨place, streamed, true⟩]⟩
      rcases later with ⟨accepted, trace⟩ | ⟨error, failed, inside, refused, trace⟩
      · refine .inl ⟨accepted, trace.trans ?_⟩
        rw [List.length_cons, List.range'_succ, List.map_cons, List.append_assoc]
        rfl
      · refine .inr ⟨error, failed + 1, Nat.succ_lt_succ inside, refused, trace.trans ?_⟩
        rw [List.range'_succ, List.map_cons, Nat.add_right_comm, Nat.add_assoc place]
        simp

theorem apply_trace (projections : List (Projection σ)) (streamed : StreamedEvent) (w : World σ) :
    (applyFrom 0 projections streamed w).1 = .ok () ∧
      (applyFrom 0 projections streamed w).2.trace = w.trace ++ accepting projections.length streamed ∨
    ∃ error failed, failed < projections.length ∧
      (applyFrom 0 projections streamed w).1 = .error error ∧
      (applyFrom 0 projections streamed w).2.trace =
        w.trace ++ (accepting failed streamed ++ [⟨failed, streamed, false⟩]) := by
  have all := applyFrom_trace projections 0 streamed w
  simpa only [accepting, List.range_eq_range', Nat.zero_add, List.append_assoc] using all

variable {n : Nat} {events : List StreamedEvent} {trace : List Application}

def Accepted (n : Nat) (trace : List Application) (streamed : StreamedEvent) : Prop :=
  ∀ place < n, ⟨place, streamed, true⟩ ∈ trace

def InOrder (n : Nat) (events : List StreamedEvent) (before : List Application) (entry : Application) : Prop :=
  ∃ k, events[k]? = some entry.streamed ∧ (∀ streamed ∈ events.take k, Accepted n before streamed) ∧
    entry.projection < n ∧ ∀ place < entry.projection, ⟨place, entry.streamed, true⟩ ∈ before

structure Progress (n : Nat) (start : Option String) (events : List StreamedEvent) (k : Nat)
    (cursor : Option String) (trace : List Application) : Prop where
  bound : k ≤ events.length
  cursor : cursor = cursorAt start events k
  accepted : ∀ streamed ∈ events.take k, Accepted n trace streamed
  beyond : ∀ streamed ∈ events.drop k, ∀ entry ∈ trace, entry.streamed = streamed → entry.ok →
    entry.projection + 1 < n
  ordered : Guarded (InOrder n events) trace

theorem progress_start (n : Nat) (start : Option String) (events : List StreamedEvent) :
    Progress n start events 0 start [] where
  bound := Nat.zero_le _
  cursor := rfl
  accepted _ member := nomatch member
  beyond _ _ _ member := nomatch member
  ordered := guarded_nil _

theorem mem_accepting {count : Nat} {entry : Application} : entry ∈ accepting count streamed ↔
    entry.projection < count ∧ entry.streamed = streamed ∧ entry.ok = true := by
  simp only [accepting, List.mem_map, List.mem_range]
  constructor
  · rintro ⟨place, small, rfl⟩
    exact ⟨small, rfl, rfl⟩
  · rintro ⟨small, rfl, ok⟩
    exact ⟨entry.projection, small, by rw [← ok]⟩

theorem guarded_accepting (found : events[k]? = some streamed)
    (before : ∀ earlier ∈ events.take k, Accepted n trace earlier)
    (ordered : Guarded (InOrder n events) trace) {count : Nat} (small : count ≤ n) :
    Guarded (InOrder n events) (trace ++ accepting count streamed) := by
  induction count with
  | zero => simpa [accepting] using ordered
  | succ count ih =>
    have longer : accepting (count + 1) streamed = accepting count streamed ++ [⟨count, streamed, true⟩] := by
      simp [accepting, List.range_succ]
    rw [longer, ← List.append_assoc]
    refine guarded_concat (ih (by omega)) ⟨k, found, fun earlier member place inside => ?_, small,
      fun place inside => ?_⟩
    · exact List.mem_append_left _ (before earlier member place inside)
    · exact List.mem_append_right _ (mem_accepting.mpr ⟨inside, rfl, rfl⟩)

theorem cursorAt_succ (start : Option String) (found : events[k]? = some streamed) :
    cursorAt start events (k + 1) = some streamed.eventId := by
  rw [cursorAt, List.take_add_one, found, Option.toList_some, List.getLast?_concat]

theorem mem_drop_succ (member : streamed ∈ events.drop (k + 1)) : streamed ∈ events.drop k := by
  rw [← List.tail_drop] at member
  exact List.mem_of_mem_tail member

variable (progress : Progress n start events k cursor trace) (found : events[k]? = some streamed)

include progress found

theorem Progress.accept (nodup : events.Nodup) : Progress n start events (k + 1) (some streamed.eventId)
    (trace ++ accepting n streamed) := by
  obtain ⟨inside, same⟩ := List.getElem?_eq_some_iff.mp found
  constructor
  · exact inside
  · exact (cursorAt_succ start found).symm
  · intro other member place small
    rw [List.take_add_one, found, Option.toList_some, List.mem_append, List.mem_singleton] at member
    rcases member with before | rfl
    · exact List.mem_append_left _ (progress.accepted other before place small)
    · exact List.mem_append_right _ (mem_accepting.mpr ⟨small, rfl, rfl⟩)
  · intro other member entry listed own ok
    rcases List.mem_append.mp listed with old | new
    · exact progress.beyond other (mem_drop_succ member) entry old own ok
    · -- The event is not among those that follow it.
      obtain ⟨-, here, -⟩ := mem_accepting.mp new
      have apart := nodup.sublist (List.drop_sublist k events)
      rw [← List.getElem_cons_drop inside, same, List.nodup_cons] at apart
      exact absurd (own.symm.trans here ▸ member) apart.1
  · exact guarded_accepting found progress.accepted progress.ordered le_rfl

theorem Progress.refuse {failed : Nat} (small : failed < n) : Progress n start events k cursor
    (trace ++ (accepting failed streamed ++ [⟨failed, streamed, false⟩])) := by
  constructor
  · exact progress.bound
  · exact progress.cursor
  · exact fun other member place inside => List.mem_append_left _ (progress.accepted other member place inside)
  · intro other member entry listed own ok
    rcases List.mem_append.mp listed with old | new
    · exact progress.beyond other member entry old own ok
    · rcases List.mem_append.mp new with accepted | refused
      · have before := (mem_accepting.mp accepted).1
        omega
      · rw [List.mem_singleton.mp refused] at ok
        cases ok
  · rw [← List.append_assoc]
    refine guarded_concat (guarded_accepting found progress.accepted progress.ordered small.le)
      ⟨k, found, fun earlier member place inside => ?_, small, fun place inside => ?_⟩
    · exact List.mem_append_left _ (progress.accepted earlier member place inside)
    · exact List.mem_append_right _ (mem_accepting.mpr ⟨inside, rfl, rfl⟩)

omit progress found in
theorem Progress.grow {grown : List StreamedEvent} (progress : Progress n start events k cursor trace)
    (longer : events <+: grown) (nodup : grown.Nodup) : Progress n start grown k cursor trace := by
  obtain ⟨more, rfl⟩ := longer
  have inside (i : Nat) {streamed : StreamedEvent} (found : events[i]? = some streamed) :
      (events ++ more)[i]? = some streamed ∧ (events ++ more).take i = events.take i := by
    have small := (List.getElem?_eq_some_iff.mp found).1
    exact ⟨by rwa [List.getElem?_append_left small], List.take_append_of_le_length small.le⟩
  have taken : (events ++ more).take k = events.take k := List.take_append_of_le_length progress.bound
  constructor
  · rw [List.length_append]
    have bound := progress.bound
    omega
  · rw [cursorAt, taken]
    exact progress.cursor
  · rw [taken]
    exact progress.accepted
  · intro other member entry listed own ok
    rw [List.drop_append_of_le_length progress.bound, List.mem_append] at member
    rcases member with old | new
    · exact progress.beyond other old entry listed own ok
    · -- No projection has been called for an event that was not there.
      obtain ⟨before, behind, split⟩ := List.append_of_mem listed
      obtain ⟨i, found, -⟩ := progress.ordered before entry behind split
      have there := List.mem_of_getElem? found
      exact absurd rfl ((List.nodup_append.mp nodup).2.2 _ there _ (own ▸ new))
  · intro before entry behind split
    obtain ⟨i, found, earlier, small, places⟩ := progress.ordered before entry behind split
    refine ⟨i, (inside i found).1, ?_, small, places⟩
    rw [(inside i found).2]
    exact earlier

omit progress found

variable {projections : List (Projection σ)} {batch : List StreamedEvent} {w : World σ}

theorem driveBatch_progress (nodup : events.Nodup) (inside : batch <+: events.drop k)
    (progress : Progress projections.length start events k cursor w.trace) :
    ∃ count, Progress projections.length start events (k + count)
        (driveBatch projections batch cursor w).1.1 (driveBatch projections batch cursor w).2.trace ∧
      ((driveBatch projections batch cursor w).1.2 = none → count = batch.length) := by
  induction batch generalizing k cursor w with
  | nil => exact ⟨0, progress, fun _ => rfl⟩
  | cons streamed batch ih =>
    obtain ⟨more, whole⟩ := inside
    have found : events[k]? = some streamed := by
      have head := congrArg List.head? whole
      simpa [List.head?_drop] using head.symm
    have rest : batch <+: events.drop (k + 1) := by
      refine ⟨more, ?_⟩
      rw [← List.tail_drop, ← whole]
      rfl
    rw [driveBatch]
    rcases apply_trace projections streamed w with ⟨accepted, trace⟩ | ⟨error, failed, small, refused, trace⟩
    · rcases ran : applyFrom 0 projections streamed w with ⟨_, w'⟩
      rw [ran] at accepted trace
      obtain rfl : _ = Except.ok () := accepted
      have next := progress.accept found nodup
      rw [← trace] at next
      obtain ⟨count, later, all⟩ := ih rest next
      refine ⟨count + 1, ?_, fun fine => congrArg (· + 1) (all fine)⟩
      rw [← Nat.add_assoc, Nat.add_right_comm]
      exact later
    · rcases ran : applyFrom 0 projections streamed w with ⟨_, w'⟩
      rw [ran] at refused trace
      obtain rfl : _ = Except.error error := refused
      have same := progress.refuse found small
      rw [← trace] at same
      exact ⟨0, same, fun fine => nomatch fine⟩

theorem driveBatch_append (first second : List StreamedEvent) (cursor : Option String) (w : World σ) :
    driveBatch projections (first ++ second) cursor w =
      match driveBatch projections first cursor w with
      | ((next, none), w) => driveBatch projections second next w
      | ((next, some error), w) => ((next, some error), w) := by
  induction first generalizing cursor w with
  | nil => rfl
  | cons streamed first ih =>
    rw [List.cons_append, driveBatch, driveBatch]
    rcases applyFrom 0 projections streamed w with ⟨_ | _, w'⟩
    · rfl
    · exact ih _ _

theorem driveBatch_all (fine : (driveBatch projections batch cursor w).1.2 = none) :
    (driveBatch projections batch cursor w).1.1 = cursorAt cursor batch batch.length ∧
    (driveBatch projections batch cursor w).2.trace =
      w.trace ++ batch.flatMap (accepting projections.length) := by
  induction batch using List.reverseRecOn with
  | nil => exact ⟨rfl, (List.append_nil _).symm⟩
  | append_singleton batch streamed ih =>
    rw [driveBatch_append] at fine ⊢
    rcases ran : driveBatch projections batch cursor w with ⟨⟨next, _ | error⟩, w'⟩
    · rw [ran] at ih fine
      have before := (ih rfl).2
      simp only [driveBatch] at fine ⊢
      rcases apply_trace projections streamed w' with ⟨accepted, trace⟩ | ⟨error, failed, -, refused, -⟩
      · rcases called : applyFrom 0 projections streamed w' with ⟨_, last⟩
        rw [called] at accepted trace
        obtain rfl : _ = Except.ok () := accepted
        refine ⟨?_, ?_⟩
        · rw [cursorAt, List.take_length, List.getLast?_concat]
        · rw [trace, before, List.flatMap_append, List.append_assoc]
          simp
      · rcases called : applyFrom 0 projections streamed w' with ⟨_, last⟩
        rw [called] at fine refused
        obtain rfl : _ = Except.error error := refused
        cases fine
    · rw [ran] at fine
      cases fine

structure Session (σ : Type) where
  store : MemoryEventStore
  cursor : Option String
  world : World σ

inductive Choice where
  | append (aggregateId : String) (expectedVersion : Int) (events : List DomainEvent)
  | drive (batchSize : Nat)

def step (projections : List (Projection σ)) (tenant : Option String) (s : Session σ) : Choice → Session σ
  | .append aggregateId expectedVersion events =>
    { s with store := (s.store.append aggregateId expectedVersion events).2 }
  | .drive batchSize =>
    match driveOnce projections s.store s.cursor batchSize tenant s.world with
    | (.ok (next, _), world) => { s with cursor := next, world }
    | (.error _, world) => { s with world }

structure Driven (n : Nat) (start tenant : Option String) (s : Session σ) : Prop where
  numbered : Numbered s.store.inner
  known : Known s.store start
  progress : ∃ k, Progress n start (visible s.store tenant start) k s.cursor s.world.trace

-- What is behind the cursor is what the projections have not all accepted.
theorem visible_cursor (numbered : Numbered store.inner)
    (progress : Progress n start (visible store tenant start) k cursor trace) :
    visible store tenant cursor = (visible store tenant start).drop k := by
  rw [progress.cursor]
  cases k with
  | zero => rfl
  | succ k =>
    have found := List.getElem?_eq_getElem progress.bound
    rw [cursorAt_succ start found]
    exact visible_drop numbered found

theorem driveOnce_visible (store : MemoryEventStore) (cursor : Option String) (batchSize : Nat)
    (tenant : Option String) (w : World σ) :
    driveOnce projections store cursor batchSize tenant w =
      (.ok (driveBatch projections ((visible store tenant cursor).take (max batchSize 1)) cursor w).1,
        (driveBatch projections ((visible store tenant cursor).take (max batchSize 1)) cursor w).2) := by
  rw [driveOnce, streamAll_visible]

def Advances (projections : List (Projection σ)) (start tenant : Option String) (s : Session σ) (k : Nat) : Prop :=
  ∀ batchSize, ∃ next error w count,
    driveOnce projections s.store s.cursor batchSize tenant s.world = (.ok (next, error), w) ∧
    Progress projections.length start (visible s.store tenant start) (k + count) next w.trace ∧
    (error = none → k + count = min (k + max batchSize 1) (visible s.store tenant start).length)

theorem drive_advances {s : Session σ} (numbered : Numbered s.store.inner)
    (progress : Progress projections.length start (visible s.store tenant start) k s.cursor s.world.trace) :
    Advances projections start tenant s k := by
  intro batchSize
  have nodup : (visible s.store tenant start).Nodup := visible_nodup numbered
  rw [driveOnce_visible, visible_cursor numbered progress]
  obtain ⟨count, later, all⟩ := driveBatch_progress nodup (List.take_prefix (max batchSize 1) _) progress
  refine ⟨_, _, _, count, rfl, later, fun fine => ?_⟩
  have bound := progress.bound
  rw [all fine, List.length_take, List.length_drop]
  omega

theorem driven_step {s : Session σ} (driven : Driven projections.length start tenant s) (choice : Choice) :
    Driven projections.length start tenant (step projections tenant s choice) := by
  obtain ⟨k, progress⟩ := driven.progress
  cases choice with
  | append id expected events =>
    obtain ⟨upcasters, log, numbered⟩ := append_log s.store id expected events
    have fresh := numbered driven.numbered
    refine ⟨fresh, fun own listed => ?_, k, ?_⟩
    · exact (log.map Prod.fst).subset (driven.known own listed)
    · exact progress.grow (visible_grows upcasters log driven.known) (visible_nodup fresh)
  | drive batchSize =>
    obtain ⟨next, error, w, count, ran, later, -⟩ := drive_advances driven.numbered progress batchSize
    rw [step, ran]
    exact ⟨driven.numbered, driven.known, k + count, later⟩

theorem driven_run {s : Session σ} (driven : Driven projections.length start tenant s) (choices : List Choice) :
    Driven projections.length start tenant (choices.foldl (step projections tenant) s) := by
  induction choices generalizing s with
  | nil => exact driven
  | cons choice choices ih => exact ih (driven_step driven choice)

theorem visible_behind (numbered : Numbered store.inner) {key : String} :
    key ∉ (visible store tenant (some key)).map StreamedEvent.eventId := by
  intro listed
  have ids : ((visible store tenant (some key)).map StreamedEvent.eventId).Sublist
      ((behind key store.inner.all).map Prod.fst) := by
    rw [visible, List.map_map]
    exact List.filter_sublist.map Prod.fst
  have later := ids.subset listed
  have apart := numbered.1
  -- The first entry with the key is not among those behind it.
  generalize store.inner.all = entries at later apart
  induction entries with
  | nil => cases later
  | cons entry entries ih =>
    obtain ⟨fresh, apart⟩ := List.nodup_cons.mp apart
    rw [behind] at later
    split at later
    · rename_i same
      exact fresh (same ▸ later)
    · exact ih later apart

theorem page_last (numbered : Numbered store.inner) {size : Nat} (positive : 0 < size)
    (left : visible store tenant cursor ≠ []) : ∃ last : StreamedEvent,
      cursorAt cursor ((visible store tenant cursor).take size)
        ((visible store tenant cursor).take size).length = some last.eventId ∧
      some last.eventId ≠ cursor ∧
      visible store tenant (some last.eventId) = (visible store tenant cursor).drop size := by
  have some_ : 0 < (visible store tenant cursor).length := List.length_pos_iff.mpr left
  obtain ⟨k, end_⟩ : ∃ k, min size (visible store tenant cursor).length = k + 1 :=
    ⟨min size (visible store tenant cursor).length - 1, by omega⟩
  have inside : k < (visible store tenant cursor).length := by omega
  have found := List.getElem?_eq_getElem inside
  have page : (visible store tenant cursor).take size = (visible store tenant cursor).take (k + 1) := by
    rw [← end_, ← List.take_eq_take_min]
  refine ⟨(visible store tenant cursor)[k], ?_, ?_, ?_⟩
  · rw [cursorAt, List.take_length, page]
    exact cursorAt_succ cursor found
  · intro same
    refine @visible_behind store tenant numbered (visible store tenant cursor)[k].eventId ?_
    rw [same]
    exact List.mem_map_of_mem (List.getElem_mem inside)
  · rw [visible_drop numbered found, ← end_]
    rcases le_total size (visible store tenant cursor).length with short | long
    · rw [min_eq_left short]
    · rw [min_eq_right long, List.drop_length, List.drop_eq_nil_of_le long]

theorem replayAll_eq (numbered : Numbered store.inner) (batchSize : Nat) {turns : Nat}
    (enough : (visible store tenant cursor).length < turns) (w : World σ) :
    replayAll projections store batchSize tenant turns cursor w =
      match driveBatch projections (visible store tenant cursor) cursor w with
      | ((last, none), w) => some (.ok last, w)
      | ((_, some error), w) => some (.error error, w) := by
  induction turns generalizing cursor w with
  | zero => omega
  | succ turns ih =>
    have positive : 0 < max batchSize 1 := by omega
    have nonzero : max (max batchSize 1) 1 = max batchSize 1 := by omega
    rw [replayAll, driveOnce_visible, nonzero]
    have whole := @driveBatch_append σ projections
      ((visible store tenant cursor).take (max batchSize 1))
      ((visible store tenant cursor).drop (max batchSize 1)) cursor w
    rw [List.take_append_drop] at whole
    rw [whole]
    have all := @driveBatch_all σ cursor projections ((visible store tenant cursor).take (max batchSize 1)) w
    by_cases drained : visible store tenant cursor = []
    · rw [drained, List.take_nil, List.drop_nil, driveBatch]
      simp [driveBatch]
    · obtain ⟨last, moved, changed, rest⟩ := page_last numbered positive drained
      rcases ran : driveBatch projections ((visible store tenant cursor).take (max batchSize 1)) cursor w with
        ⟨⟨next, _ | error⟩, w'⟩
      · rw [ran, moved] at all
        obtain rfl : next = some last.eventId := (all rfl).1
        have shorter : (visible store tenant (some last.eventId)).length < turns := by
          have some_ := List.length_pos_iff.mpr drained
          rw [rest, List.length_drop]
          omega
        simp only
        rw [if_neg changed, ih shorter, rest]
      · rfl

def stored (upcasters : List EventUpcaster) (history : List (String × Int × List DomainEvent)) :
    MemoryEventStore :=
  history.foldl (fun store append => (store.append append.1 append.2.1 append.2.2).2) { upcasters }

theorem stored_numbered (upcasters : List EventUpcaster) (history : List (String × Int × List DomainEvent)) :
    Numbered (stored upcasters history).inner := by
  have grown (store : MemoryEventStore) (numbered : Numbered store.inner) : Numbered (history.foldl
      (fun store append => (store.append append.1 append.2.1 append.2.2).2) store).inner := by
    induction history generalizing store with
    | nil => exact numbered
    | cons append history ih => exact ih _ ((append_log store append.1 append.2.1 append.2.2).2.2 numbered)
  exact grown _ numbered_empty

theorem Progress.known (known : Known store start)
    (progress : Progress n start (visible store tenant start) k cursor trace) : Known store cursor := by
  rw [progress.cursor, cursorAt]
  split
  · rename_i last found
    rintro _ ⟨⟩
    have member := List.mem_of_mem_take (List.mem_of_getLast? found)
    exact (visible_ids store tenant start).subset (List.mem_map_of_mem member)
  · exact known

theorem projections_driven (projections : List (Projection σ)) (upcasters : List EventUpcaster)
    (history : List (String × Int × List DomainEvent)) (tenant start : Option String) (state : σ)
    (known : Known (stored upcasters history) start) (choices : List Choice) (s : Session σ)
    (ran : choices.foldl (step projections tenant) ⟨stored upcasters history, start, ⟨state, []⟩⟩ = s) :
    Known s.store s.cursor ∧
    (∃ k, Progress projections.length start (visible s.store tenant start) k s.cursor s.world.trace ∧
      Advances projections start tenant s k) ∧
    ∀ cursor w,
      (∀ batchSize turns, (visible s.store tenant cursor).length < turns →
        replayAll projections s.store batchSize tenant turns cursor w =
          match driveBatch projections (visible s.store tenant cursor) cursor w with
          | ((last, none), w) => some (.ok last, w)
          | ((_, some error), w) => some (.error error, w)) ∧
      ((driveBatch projections (visible s.store tenant cursor) cursor w).1.2 = none →
        (driveBatch projections (visible s.store tenant cursor) cursor w).1.1 =
          cursorAt cursor (visible s.store tenant cursor) (visible s.store tenant cursor).length ∧
        (driveBatch projections (visible s.store tenant cursor) cursor w).2.trace =
          w.trace ++ (visible s.store tenant cursor).flatMap (accepting projections.length)) := by
  have begun : Driven projections.length start tenant
      (⟨stored upcasters history, start, ⟨state, []⟩⟩ : Session σ) :=
    ⟨stored_numbered upcasters history, known, 0, progress_start _ _ _⟩
  have driven := driven_run begun choices
  rw [ran] at driven
  obtain ⟨k, progress⟩ := driven.progress
  refine ⟨progress.known driven.known, ⟨k, progress, drive_advances driven.numbered progress⟩,
    fun cursor w => ⟨fun batchSize turns enough => ?_, driveBatch_all⟩⟩
  exact replayAll_eq driven.numbered batchSize enough w

def opened : DomainEvent := ⟨"acc-1", "Account", 1, "AccountOpened", 0, [], [], none⟩

def moody : Projection Bool := fun _ ready =>
  (if ready then .ok () else .error (.projection "not now"), !ready)

-- The second projection refuses the event at first, and the first one sees it twice.
theorem moody_catches_up :
    ∃ s : Session Bool, [.drive 10, .append "acc-1" 0 [opened], .drive 10, .drive 10].foldl
        (step [fun _ ready => (.ok (), ready), moody] none) ⟨stored [] [], none, ⟨false, []⟩⟩ = s ∧
      s.world.trace.length = 4 ∧ Known s.store s.cursor ∧ s.cursor = some (MemoryEventStore.eventId 0) :=
  ⟨_, rfl, by decide +kernel, (projections_driven _ [] [] none none false (fun _ none_ => nomatch none_) _ _ rfl).1,
    by decide +kernel⟩

end Firefly.Eventsourcing.Projections
