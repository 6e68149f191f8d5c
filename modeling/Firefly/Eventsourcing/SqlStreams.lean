import Firefly.Eventsourcing.SqlStore
import Firefly.Shared.Runs

set_option autoImplicit false

namespace Firefly.Eventsourcing.SqlEventStore

open Sql Runs

inductive Writer where
  | idle
  | checked (aggregateId : String) (expectedVersion : Int) (events : List DomainEvent)
  | numbered (aggregateId : String) (expectedVersion : Int) (events : List DomainEvent)
      (globalSeq : Int)

structure World where
  rows : List EventRow := []
  writers : Nat → Writer := fun _ => .idle
  cursor : Option String := none
  received : List StreamedEvent := []

inductive Choice where
  | check (writer : Nat) (aggregateId : String) (expectedVersion : Int) (events : List DomainEvent)
  | number (writer : Nat)
  | commit (writer : Nat)
  | rollback (writer : Nat)
  | read (limit : UInt64)

def World.set (w : World) (writer : Nat) (phase : Writer) : World :=
  { w with writers := Function.update w.writers writer phase }

def World.take (w : World) (given : List StreamedEvent) : World :=
  { w with
    cursor := (given.getLast?.map StreamedEvent.eventId).or w.cursor
    received := w.received ++ given }

def step (codec : EventCodec) (upcasters : List EventUpcaster) (w : World) :
    Choice → Option World
  | .check writer aggregateId expectedVersion events =>
    match w.writers writer with
    | .idle =>
      if events = [] ∨ latestVersion w.rows aggregateId ≠ expectedVersion then some w
      else some (w.set writer (.checked aggregateId expectedVersion events))
    | _ => none
  | .number writer =>
    match w.writers writer with
    | .checked aggregateId expectedVersion events =>
      some (w.set writer (.numbered aggregateId expectedVersion events (globalHead w.rows)))
    | _ => none
  | .commit writer =>
    match w.writers writer with
    | .numbered aggregateId expectedVersion events globalSeq =>
      match insertAll codec globalSeq (stampAll aggregateId expectedVersion events) w.rows with
      -- A version that another append committed first: the unique key rolls this one back.
      | none => some (w.set writer .idle)
      | some rows => some ({ w with rows := rows }.set writer .idle)
    | _ => none
  | .rollback writer => some (w.set writer .idle)
  | .read limit =>
    match streamAll codec ⟨w.rows, upcasters⟩ w.cursor limit.toNat none with
    | .error _ => some w
    | .ok given => some (w.take given)

def Writer.IsNumbered : Writer → Prop
  | .numbered _ _ _ _ => True
  | _ => False

def NoOverlap (w : World) : Choice → Prop
  | .number writer => ∀ other, (w.writers other).IsNumbered → other = writer
  | _ => True

section Runs

variable {codec : EventCodec} {upcasters : List EventUpcaster} {w w' : World} {choice : Choice}

theorem insertAll_append {globalSeq : Int} {events : List DomainEvent} {rows rows' : List EventRow}
    (inserted : insertAll codec globalSeq events rows = some rows')
    (counted : Counted EventRow.globalSeq 0 rows) (head : globalSeq = rows.length) :
    Counted EventRow.globalSeq 0 rows' ∧ ∃ batch, rows' = rows ++ batch := by
  induction events generalizing globalSeq rows with
  | nil =>
    obtain rfl : rows = rows' := by simpa [insertAll] using inserted
    exact ⟨counted, [], by simp⟩
  | cons event events ih =>
    rw [insertAll] at inserted
    split at inserted
    · simp at inserted
    · rename_i longer fresh
      rw [insertRow] at fresh
      split at fresh
      · simp at fresh
      · obtain rfl := Option.some.inj fresh
        have next : Counted EventRow.globalSeq 0
            (rows ++ [eventRow codec (globalSeq + 1) event]) := by
          refine counted_append.mpr ⟨counted, counted_singleton.mpr ?_⟩
          simp [eventRow, head]
        obtain ⟨all, batch, extended⟩ := ih inserted next (by simp [head])
        exact ⟨all, _, extended.trans (List.append_assoc _ _ _)⟩

def Follows (codec : EventCodec) (upcasters : List EventUpcaster) (w : World) (count : Nat) :
    Prop :=
  count ≤ w.rows.length ∧
    (w.rows.take count).mapM (streamed codec ⟨w.rows, upcasters⟩) = .ok w.received ∧
    w.cursor = if count = 0 then none else some (eventId count)

structure Sequenced (codec : EventCodec) (upcasters : List EventUpcaster) (w : World) : Prop where
  counted : Counted EventRow.globalSeq 0 w.rows
  head : ∀ writer aggregateId expectedVersion events globalSeq,
    w.writers writer = .numbered aggregateId expectedVersion events globalSeq →
    globalSeq = w.rows.length
  single : ∀ first second, (w.writers first).IsNumbered → (w.writers second).IsNumbered →
    first = second
  follows : w.rows.length < 2 ^ 63 → ∃ count, Follows codec upcasters w count

theorem page_counted {rows : List EventRow} (counted : Counted EventRow.globalSeq 0 rows)
    (count : Nat) {limit : Nat} (isUsize : limit < 2 ^ 64) (few : rows.length < 2 ^ 63) :
    page rows count (asI64 limit) none = (rows.drop count).take limit := by
  have later : (rows.filter fun row => (count : Int) < row.globalSeq && tenantMatches none row) =
      rows.drop count := by
    have all := counted.filter count
    simpa [tenantMatches] using all
  have ordered : orderBy EventRow.globalSeq (rows.drop count) = rows.drop count :=
    orderBy_sorted ((counted.pairwise.drop).imp fun below => le_of_lt below)
  rw [page, later, ordered, limitTo_asI64 isUsize]
  rw [List.length_drop]
  omega

theorem mapM_ids {store : SqlEventStore} {rows : List EventRow} {given : List StreamedEvent}
    (read : rows.mapM (streamed codec store) = .ok given) :
    given.map StreamedEvent.eventId = rows.map fun row => eventId row.globalSeq := by
  induction rows generalizing given with
  | nil =>
    obtain rfl : [] = given := Except.ok.inj read
    rfl
  | cons row rows ih =>
    rw [List.mapM_cons] at read
    cases first : streamed codec store row with
    | error error =>
      rw [first] at read
      simp [bind, Except.bind] at read
    | ok one =>
      rw [first] at read
      cases rest : rows.mapM (streamed codec store) with
      | error error =>
        rw [rest] at read
        simp [bind, Except.bind] at read
      | ok others =>
        rw [rest] at read
        obtain rfl : one :: others = given := Except.ok.inj read
        have own : one.eventId = eventId row.globalSeq := by
          rw [streamed] at first
          split at first
          · simp at first
          · rw [← Except.ok.inj first]
        rw [List.map_cons, List.map_cons, own, ih rest]

theorem cursorToSeq_follows {count : Nat} (fits : count < 2 ^ 63) :
    cursorToSeq (if count = 0 then none else some (eventId count)) = count := by
  split
  · rename_i zero
    rw [zero]
    rfl
  · rename_i positive
    exact cursorToSeq_eventId (Nat.pos_of_ne_zero positive) fits

theorem last_counted {rows : List EventRow} {start : Int} (counted : Counted EventRow.globalSeq start rows) :
    (rows.map fun row => eventId row.globalSeq).getLast? =
      if rows = [] then none else some (eventId (start + rows.length)) := by
  rcases List.eq_nil_or_concat rows with rfl | ⟨before, last, rfl⟩
  · rfl
  · rw [List.concat_eq_append] at *
    have number := counted_singleton.mp (counted_append.mp counted).2
    rw [List.map_append, List.map_singleton, List.getLast?_concat, if_neg (by simp), number,
      List.length_append, List.length_singleton]
    push_cast
    rw [add_assoc]

theorem Follows.read (counted : Counted EventRow.globalSeq 0 w.rows) {count : Nat}
    (follows : Follows codec upcasters w count) {limit : Nat} (isUsize : limit < 2 ^ 64)
    (few : w.rows.length < 2 ^ 63) :
    streamAll codec ⟨w.rows, upcasters⟩ w.cursor limit none =
        ((w.rows.drop count).take limit).mapM (streamed codec ⟨w.rows, upcasters⟩) ∧
      ∀ given, streamAll codec ⟨w.rows, upcasters⟩ w.cursor limit none = .ok given →
        Follows codec upcasters (w.take given) (min (count + limit) w.rows.length) := by
  obtain ⟨inside, received, cursor⟩ := follows
  have paged : streamAll codec ⟨w.rows, upcasters⟩ w.cursor limit none =
      ((w.rows.drop count).take limit).mapM (streamed codec ⟨w.rows, upcasters⟩) := by
    rw [streamAll, cursor, cursorToSeq_follows (by omega), page_counted counted count isUsize few]
  refine ⟨paged, fun given ok => ?_⟩
  rw [paged] at ok
  have longer : w.rows.take (min (count + limit) w.rows.length) =
      w.rows.take count ++ (w.rows.drop count).take limit := by
    rw [← List.take_add]
    exact (List.take_eq_take_iff.mpr (by omega))
  have numbers : Counted EventRow.globalSeq count ((w.rows.drop count).take limit) := by
    have split := counted
    rw [← List.take_append_drop count w.rows] at split
    have late := (counted_append.mp split).2
    rw [List.length_take, Nat.min_eq_left inside, ← List.take_append_drop limit (w.rows.drop count)]
      at late
    simpa using (counted_append.mp late).1
  refine ⟨Nat.min_le_right _ _, ?_, ?_⟩
  · rw [World.take, longer, List.mapM_append, received, ok]
    rfl
  · have last := last_counted numbers
    rw [← mapM_ids ok, List.getLast?_map] at last
    rw [World.take, last, cursor]
    have size : ((w.rows.drop count).take limit).length =
        min (count + limit) w.rows.length - count := by
      rw [List.length_take, List.length_drop]
      omega
    by_cases none : (w.rows.drop count).take limit = []
    · rw [none, List.length_nil] at size
      rw [if_pos none, Option.none_or, show min (count + limit) w.rows.length = count by omega]
    · have some : ((w.rows.drop count).take limit).length ≠ 0 := by
        rwa [ne_eq, List.length_eq_zero_iff]
      have total : (count : Int) + ((w.rows.drop count).take limit).length =
          (min (count + limit) w.rows.length : Nat) := by
        rw [size]
        omega
      rw [if_neg none, Option.some_or, if_neg (by omega), total]

theorem sequenced_empty : Sequenced codec upcasters {} where
  counted := counted_nil _ _
  head := by simp
  single first second numbered := numbered.elim
  follows _ := ⟨0, le_rfl, rfl, rfl⟩

theorem Follows.grow {rows : List EventRow} {count : Nat} (follows : Follows codec upcasters w count)
    (extended : ∃ batch, rows = w.rows ++ batch) (writers : Nat → Writer) :
    Follows codec upcasters { w with rows := rows, writers := writers } count := by
  obtain ⟨batch, rfl⟩ := extended
  obtain ⟨inside, received, cursor⟩ := follows
  refine ⟨?_, ?_, cursor⟩
  · rw [List.length_append]
    omega
  · rw [List.take_append_of_le_length inside]
    exact received

theorem Sequenced.set (sequenced : Sequenced codec upcasters w) {writer : Nat} {phase : Writer}
    (head : ∀ aggregateId expectedVersion events globalSeq,
      phase = .numbered aggregateId expectedVersion events globalSeq →
        globalSeq = w.rows.length)
    (alone : phase.IsNumbered → ∀ other, (w.writers other).IsNumbered → other = writer) :
    Sequenced codec upcasters (w.set writer phase) where
  counted := sequenced.counted
  head other aggregateId expectedVersion events globalSeq here := by
    simp only [World.set, Function.update_apply] at here
    split at here
    · exact head _ _ _ _ here
    · exact sequenced.head other _ _ _ _ here
  single first second firstNumbered secondNumbered := by
    simp only [World.set, Function.update_apply] at firstNumbered secondNumbered
    split at firstNumbered
    · rename_i own
      split at secondNumbered
      · rename_i same
        exact own.trans same.symm
      · exact own.trans (alone firstNumbered second secondNumbered).symm
    · split at secondNumbered
      · rename_i own
        exact (alone secondNumbered first firstNumbered).trans own.symm
      · exact sequenced.single first second firstNumbered secondNumbered
  follows few := by
    obtain ⟨count, follows⟩ := sequenced.follows few
    exact ⟨count, follows⟩

theorem Sequenced.idle (sequenced : Sequenced codec upcasters w) (writer : Nat) :
    Sequenced codec upcasters (w.set writer .idle) :=
  sequenced.set (by simp) (fun numbered => numbered.elim)

theorem Sequenced.commit (sequenced : Sequenced codec upcasters w) {writer : Nat}
    {aggregateId : String} {expectedVersion globalSeq : Int} {events stamped : List DomainEvent}
    {rows : List EventRow}
    (phase : w.writers writer = .numbered aggregateId expectedVersion events globalSeq)
    (inserted : insertAll codec globalSeq stamped w.rows = some rows) :
    Sequenced codec upcasters ({ w with rows := rows }.set writer .idle) := by
  have head := sequenced.head writer _ _ _ _ phase
  obtain ⟨counted, extended⟩ := insertAll_append inserted sequenced.counted head
  have own : (w.writers writer).IsNumbered := by
    rw [phase]
    trivial
  -- The only append with a number is the one that commits, so none is left behind.
  have none : ∀ other, ¬ (Function.update w.writers writer Writer.idle other).IsNumbered := by
    intro other numbered
    rw [Function.update_apply] at numbered
    split at numbered
    · exact numbered
    · rename_i different
      exact different (sequenced.single other writer numbered own)
  refine ⟨counted, ?_, ?_, ?_⟩
  · intro other _ _ _ _ here
    refine (none other ?_).elim
    simp only [World.set] at here
    rw [here]
    trivial
  · intro first _ numbered
    exact (none first numbered).elim
  · intro few
    have before : w.rows.length < 2 ^ 63 := by
      obtain ⟨batch, rfl⟩ := extended
      simp only [World.set, List.length_append] at few
      omega
    obtain ⟨count, follows⟩ := sequenced.follows before
    exact ⟨count, follows.grow extended _⟩

theorem Sequenced.take (sequenced : Sequenced codec upcasters w) {limit : UInt64}
    {given : List StreamedEvent}
    (ok : streamAll codec ⟨w.rows, upcasters⟩ w.cursor limit.toNat none = .ok given) :
    Sequenced codec upcasters (w.take given) where
  counted := sequenced.counted
  head := sequenced.head
  single := sequenced.single
  follows few := by
    obtain ⟨count, follows⟩ := sequenced.follows few
    exact ⟨_, (follows.read sequenced.counted limit.toNat_lt few).2 given ok⟩

theorem Sequenced.step (sequenced : Sequenced codec upcasters w) (noOverlap : NoOverlap w choice)
    (stepped : step codec upcasters w choice = some w') : Sequenced codec upcasters w' := by
  cases choice with
  | check writer aggregateId expectedVersion events =>
    simp only [SqlEventStore.step] at stepped
    split at stepped
    · split at stepped
      · obtain rfl := Option.some.inj stepped
        exact sequenced
      · obtain rfl := Option.some.inj stepped
        exact sequenced.set (by simp) (fun numbered => numbered.elim)
    · simp at stepped
  | number writer =>
    simp only [SqlEventStore.step] at stepped
    split at stepped
    · obtain rfl := Option.some.inj stepped
      refine sequenced.set ?_ (fun _ => noOverlap)
      rintro _ _ _ _ ⟨⟩
      exact sequenced.counted.coalesceMax
    · simp at stepped
  | commit writer =>
    simp only [SqlEventStore.step] at stepped
    split at stepped
    · rename_i phase
      split at stepped
      · obtain rfl := Option.some.inj stepped
        exact sequenced.idle writer
      · rename_i inserted
        obtain rfl := Option.some.inj stepped
        exact sequenced.commit phase inserted
    · simp at stepped
  | rollback writer =>
    obtain rfl := Option.some.inj stepped
    exact sequenced.idle writer
  | read limit =>
    simp only [SqlEventStore.step] at stepped
    split at stepped
    · obtain rfl := Option.some.inj stepped
      exact sequenced
    · rename_i ok
      obtain rfl := Option.some.inj stepped
      exact sequenced.take ok

theorem reachable_sequenced {choices : List Choice}
    (along : Along (step codec upcasters) NoOverlap {} choices)
    (ran : run (step codec upcasters) {} choices = some w) : Sequenced codec upcasters w :=
  run_invariant_along (Sequenced codec upcasters)
    (fun _ _ _ noOverlap sequenced stepped => sequenced.step noOverlap stepped)
    sequenced_empty along ran

def Readable (codec : EventCodec) (rows : List EventRow) : Prop :=
  ∀ row ∈ rows, ∃ event, codec.fromJson row.payload = .ok event

theorem mapM_readable {rows : List EventRow} (readable : Readable codec rows) :
    ∃ given, rows.mapM (streamed codec ⟨w.rows, upcasters⟩) = .ok given := by
  induction rows with
  | nil => exact ⟨[], rfl⟩
  | cons row rows ih =>
    obtain ⟨event, read⟩ := readable row (by simp)
    obtain ⟨given, rest⟩ := ih fun other member => readable other (by simp [member])
    refine ⟨⟨eventId row.globalSeq, applyUpcasters event upcasters⟩ :: given, ?_⟩
    have own : streamed codec ⟨w.rows, upcasters⟩ row =
        .ok ⟨eventId row.globalSeq, applyUpcasters event upcasters⟩ := by
      rw [streamed, decode, read]
    rw [List.mapM_cons, own, rest]
    rfl

theorem drain (readable : Readable codec w.rows) (few : w.rows.length < 2 ^ 63)
    (counted : Counted EventRow.globalSeq 0 w.rows) {count : Nat}
    (follows : Follows codec upcasters w count) {limits : List UInt64}
    (positive : ∀ limit ∈ limits, 0 < limit.toNat)
    (enough : w.rows.length ≤ count + limits.length) :
    ∃ w', run (step codec upcasters) w (limits.map Choice.read) = some w' ∧ w'.rows = w.rows ∧
      Follows codec upcasters w' w.rows.length := by
  induction limits generalizing w count with
  | nil =>
    have all : count = w.rows.length := by
      have inside := follows.1
      simp only [List.length_nil] at enough
      omega
    exact ⟨w, rfl, rfl, all ▸ follows⟩
  | cons limit limits ih =>
    obtain ⟨paged, next⟩ := follows.read counted limit.toNat_lt few
    obtain ⟨given, read⟩ : ∃ given,
        ((w.rows.drop count).take limit.toNat).mapM (streamed codec ⟨w.rows, upcasters⟩) =
          .ok given :=
      mapM_readable fun row member => readable row
        (List.mem_of_mem_drop (List.mem_of_mem_take member))
    have ok := paged.trans read
    have here := positive limit (by simp)
    obtain ⟨w', ran, same, all⟩ := ih (w := w.take given) readable few counted (next given ok)
      (fun other member => positive other (by simp [member])) (by
        simp only [List.length_cons] at enough
        simp only [World.take]
        omega)
    refine ⟨w', ?_, same, all⟩
    rw [List.map_cons, run_cons, SqlEventStore.step, ok]
    exact ran

theorem stream_loses_nothing {choices : List Choice}
    (along : Along (step codec upcasters) NoOverlap {} choices)
    (ran : run (step codec upcasters) {} choices = some w) (few : w.rows.length < 2 ^ 63) :
    (w.rows.map EventRow.globalSeq).Nodup ∧
    (∃ count, count ≤ w.rows.length ∧
      (w.rows.take count).mapM (streamed codec ⟨w.rows, upcasters⟩) = .ok w.received) ∧
    ∀ limits : List UInt64, (∀ limit ∈ limits, 0 < limit.toNat) → w.rows.length ≤ limits.length →
      Readable codec w.rows → ∃ w', run (step codec upcasters) w (limits.map Choice.read) = some w' ∧
        w'.rows = w.rows ∧ w.rows.mapM (streamed codec ⟨w.rows, upcasters⟩) = .ok w'.received := by
  have sequenced := reachable_sequenced along ran
  obtain ⟨count, follows⟩ := sequenced.follows few
  refine ⟨sequenced.counted.nodup, ⟨count, follows.1, follows.2.1⟩, ?_⟩
  intro limits positive enough readable
  obtain ⟨w', drained, same, all⟩ := drain readable few sequenced.counted follows positive (by omega)
  refine ⟨w', drained, same, ?_⟩
  have received := all.2.1
  rwa [same, List.take_length] at received

end Runs

def taking : List Choice :=
  [.check 0 "a" 0 [opened "a" 1], .check 1 "b" 0 [opened "b" 1], .number 0, .commit 0, .number 1,
    .commit 1, .read 1]

def sharing : List Choice :=
  [.check 0 "a" 0 [opened "a" 1], .check 1 "b" 0 [opened "b" 1], .number 0, .number 1, .commit 0,
    .commit 1, .read 1]

theorem unnumbered_update {writers : Nat → Writer} {phase : Writer} (writer : Nat)
    (before : ∀ other, ¬ (writers other).IsNumbered) (now : ¬ phase.IsNumbered) (other : Nat) :
    ¬ (Function.update writers writer phase other).IsNumbered := by
  rw [Function.update_apply]
  split
  · exact now
  · exact before other

theorem taking_along : Along (step openedCodec []) NoOverlap {} taking := by
  have checked : ∀ other, ¬ (Function.update (Function.update (fun _ => Writer.idle) 0
      (.checked "a" 0 [opened "a" 1])) 1 (.checked "b" 0 [opened "b" 1]) other).IsNumbered :=
    unnumbered_update 1 (unnumbered_update 0 (fun _ => id) id) id
  refine ⟨trivial, fun first stepped => ?_⟩
  obtain rfl := Option.some.inj stepped
  refine ⟨trivial, fun second stepped => ?_⟩
  obtain rfl := Option.some.inj stepped
  refine ⟨fun other numbered => (checked other numbered).elim, fun third stepped => ?_⟩
  obtain rfl := Option.some.inj stepped
  refine ⟨trivial, fun fourth stepped => ?_⟩
  obtain rfl := Option.some.inj stepped
  refine ⟨fun other numbered => ?_, fun fifth stepped => ?_⟩
  · -- The first append has committed: its phase is idle again.
    simp only [World.set, Function.update_idem] at numbered
    exact (unnumbered_update 0 checked id other numbered).elim
  obtain rfl := Option.some.inj stepped
  refine ⟨trivial, fun sixth _ => ⟨trivial, fun _ _ => trivial⟩⟩

theorem taking_loses_nothing : ∃ w, run (step openedCodec []) {} taking = some w ∧
    (w.rows.map EventRow.globalSeq).Nodup ∧
    ∃ w', run (step openedCodec []) w ([1, 100].map Choice.read) = some w' ∧
      w.rows.mapM (streamed openedCodec ⟨w.rows, []⟩) = .ok w'.received := by
  let w := (run (step openedCodec []) {} taking).get (by decide)
  have ran : run (step openedCodec []) {} taking = some w := (Option.some_get _).symm
  have rows : w.rows = [eventRow openedCodec 1 (opened "a" 1),
      eventRow openedCodec 2 (opened "b" 1)] := rfl
  have readable : Readable openedCodec w.rows := by
    rw [rows]
    intro row member
    rcases List.mem_cons.mp member with rfl | last
    · exact ⟨opened "a" 1, rfl⟩
    · rw [List.mem_singleton.mp last]
      exact ⟨opened "b" 1, rfl⟩
  obtain ⟨distinct, -, onward⟩ := stream_loses_nothing taking_along ran
    (by simp [rows])
  obtain ⟨w', drained, -, all⟩ := onward [1, 100] (by simp)
    (le_of_eq (congrArg List.length rows)) readable
  exact ⟨w, ran, distinct, w', drained, all⟩

theorem shared_number_loses_event : ∃ w, run (step openedCodec []) {} sharing = some w ∧
    w.rows.map (fun row => (row.aggregateId, row.globalSeq)) = [("a", 1), ("b", 1)] ∧
    w.received = [⟨"00000000000000000001", opened "a" 1⟩] ∧
    ∀ limit, step openedCodec [] w (.read limit) = some w := by
  let w := (run (step openedCodec []) {} sharing).get (by decide)
  refine ⟨w, (Option.some_get _).symm, by decide, by decide, fun limit => ?_⟩
  have nothing : streamAll openedCodec ⟨w.rows, []⟩ w.cursor limit.toNat none = .ok [] := by
    have later : (w.rows.filter fun row => cursorToSeq w.cursor < row.globalSeq &&
        tenantMatches none row) = [] := by decide
    rw [streamAll, page, later, orderBy_eq_nil.mpr rfl, limitTo]
    simp only [List.take_nil, ite_self]
    rfl
  rw [step, nothing]
  rfl

end Firefly.Eventsourcing.SqlEventStore
