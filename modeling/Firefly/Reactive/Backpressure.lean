import Firefly.Shared.Runs

set_option autoImplicit false

namespace Firefly.Reactive

open Runs

variable {α ε : Type}

def signals (values : List α) (ending : Option ε) : List (Except ε α) :=
  values.map .ok ++ ending.toList.map .error

def isError : Except ε α → Bool
  | .ok _ => false
  | .error _ => true

inductive Policy where
  | await
  | discard
deriving DecidableEq, Repr

/-- A spawned producer with what is left of its source, and the consumer with what it has yielded.
`closed` says that the sender is dropped, `ended` that the stream has returned. -/
structure Channel (α ε : Type) where
  source : List (Except ε α)
  buffer : List (Except ε α)
  closed : Bool
  output : List (Except ε α)
  ended : Bool

def Channel.start (source : List (Except ε α)) : Channel α ε where
  source := source
  buffer := []
  closed := false
  output := []
  ended := false

inductive Turn where
  | produce
  | close
  | receive
deriving DecidableEq, Repr

def Channel.yielded (s : Channel α ε) (item : Except ε α) : Channel α ε :=
  { s with output := s.output ++ [item], ended := isError item }

def Channel.step (policy : Policy) (capacity : Nat) (s : Channel α ε) : Turn → Option (Channel α ε)
  | .produce =>
    match s.closed, s.source with
    | false, item :: source =>
      -- The receiver goes with the stream.
      if s.ended then some { s with closed := true }
      else if s.buffer.length < max capacity 1 then
        some { s with source, buffer := s.buffer ++ [item] }
      else
        match policy with
        | .await => none
        | .discard => some { s with source }
    | _, _ => none
  | .close =>
    match s.closed, s.source with
    | false, [] => some { s with closed := true }
    | _, _ => none
  | .receive =>
    if s.ended then none
    else
      match s.buffer with
      | item :: buffer => some ({ s with buffer }.yielded item)
      | [] => if s.closed then some { s with ended := true } else none

def Channel.inline (s : Channel α ε) : Turn → Option (Channel α ε)
  | .receive =>
    if s.ended then none
    else
      match s.source with
      | item :: source => some ({ s with source }.yielded item)
      | [] => some { s with ended := true }
  | _ => none

inductive Scheduler where
  | immediate
  | parallel
  | boundedElastic
deriving DecidableEq, Repr

def onBackpressureBuffer (capacity : Nat) : Channel α ε → Turn → Option (Channel α ε) :=
  Channel.step .await capacity

def onBackpressureDrop (capacity : Nat) : Channel α ε → Turn → Option (Channel α ε) :=
  Channel.step .discard capacity

def channelHop : Channel α ε → Turn → Option (Channel α ε) := Channel.step .await 64

def subscribeOn : Scheduler → Channel α ε → Turn → Option (Channel α ε)
  | .immediate => Channel.inline
  | _ => channelHop

def publishOn : Scheduler → Channel α ε → Turn → Option (Channel α ε)
  | .immediate => Channel.inline
  | _ => channelHop

theorem signals_pairwise (values : List α) (ending : Option ε) :
    (signals values ending).Pairwise fun earlier _ => isError earlier = false := by
  rw [signals, List.pairwise_append]
  refine ⟨?_, ?_, ?_⟩
  · exact List.pairwise_map.mpr (List.pairwise_of_forall fun _ _ => rfl)
  · cases ending <;> simp
  · intro earlier member
    obtain ⟨value, -, rfl⟩ := List.mem_map.mp member
    intros
    rfl

theorem error_last {values : List α} {ending : Option ε} {front back : List (Except ε α)}
    {item : Except ε α} (error : isError item)
    (part : (front ++ item :: back).Sublist (signals values ending)) : back = [] := by
  have pairs := (signals_pairwise values ending).sublist part
  have earlier := (List.pairwise_cons.mp (List.pairwise_append.mp pairs).2.1).1
  cases back with
  | nil => rfl
  | cons next rest => simp [earlier next (by simp)] at error

theorem sublist_signals {values : List α} {ending : Option ε} {output : List (Except ε α)}
    (part : output.Sublist (signals values ending))
    (reported : ∀ e, ending = some e → .error e ∈ output) :
    ∃ kept, kept.Sublist values ∧ output = signals kept ending := by
  obtain ⟨front, back, rfl, front_part, back_part⟩ := List.sublist_append_iff.mp part
  obtain ⟨kept, kept_part, rfl⟩ := List.sublist_map_iff.mp front_part
  refine ⟨kept, kept_part, ?_⟩
  cases ending with
  | none =>
    obtain rfl : back = [] := by simpa using back_part
    simp [signals]
  | some e =>
    have error : Except.error e ∈ back := by simpa using reported e rfl
    have back_eq : back = [.error e] := by
      apply List.Sublist.antisymm (by simpa using back_part)
      simpa using error
    simp [signals, back_eq]

def Policy.Keeps : Policy → List (Except ε α) → List (Except ε α) → Prop
  | .await, past, sent => sent = past
  | .discard, past, sent => sent.Sublist past ∧ ∀ item ∈ past, isError item → item ∈ sent

theorem Policy.Keeps.sublist {policy : Policy} {past sent : List (Except ε α)}
    (keeps : policy.Keeps past sent) : sent.Sublist past := by
  cases policy with
  | await =>
    obtain rfl : sent = past := keeps
    exact List.Sublist.refl _
  | discard => exact keeps.1

theorem Policy.Keeps.concat {policy : Policy} {past sent : List (Except ε α)}
    (keeps : policy.Keeps past sent) (item : Except ε α) :
    policy.Keeps (past ++ [item]) (sent ++ [item]) := by
  cases policy with
  | await =>
    obtain rfl : sent = past := keeps
    rfl
  | discard =>
    refine ⟨keeps.1.append (List.Sublist.refl _), ?_⟩
    intro other member error
    rcases List.mem_append.mp member with before | last
    · exact List.mem_append_left _ (keeps.2 other before error)
    · exact List.mem_append_right _ last

theorem Policy.Keeps.skip {past sent : List (Except ε α)} (keeps : Policy.discard.Keeps past sent)
    {item : Except ε α} (value : isError item = false) : Policy.discard.Keeps (past ++ [item]) sent := by
  refine ⟨keeps.1.trans (List.sublist_append_left _ _), ?_⟩
  intro other member error
  rcases List.mem_append.mp member with before | last
  · exact keeps.2 other before error
  · obtain rfl : other = item := by simpa using last
    simp [value] at error

structure Channel.Carries (policy : Policy) (items : List (Except ε α)) (s : Channel α ε) : Prop where
  accounted : ∃ past, past ++ s.source = items ∧ policy.Keeps past (s.output ++ s.buffer)
  closing : s.closed = true → s.source = []
  ending : s.ended = true → s.source = [] ∧ s.buffer = []

theorem Channel.start_carries (policy : Policy) (items : List (Except ε α)) :
    (Channel.start items).Carries policy items where
  accounted := ⟨[], rfl, by cases policy <;> simp [Policy.Keeps, Channel.start]⟩
  closing := by simp [Channel.start]
  ending := by simp [Channel.start]

def Channel.HasRoom (capacity : Nat) (s : Channel α ε) (turn : Turn) : Prop :=
  turn = .produce → s.source.head?.any isError = true → s.buffer.length < max capacity 1

instance (capacity : Nat) (s : Channel α ε) (turn : Turn) : Decidable (s.HasRoom capacity turn) :=
  inferInstanceAs (Decidable (_ → _ → _))

section Carried

variable {values : List α} {ending : Option ε} {policy : Policy} {capacity : Nat} {s s' : Channel α ε}

theorem Channel.produce_cases (stepped : s.step policy capacity .produce = some s') :
    s.closed = false ∧ ∃ item source, s.source = item :: source ∧
      ((s.ended = true ∧ s' = { s with closed := true }) ∨
        (s.ended = false ∧ s.buffer.length < max capacity 1 ∧
          s' = { s with source, buffer := s.buffer ++ [item] }) ∨
        (s.ended = false ∧ ¬ s.buffer.length < max capacity 1 ∧ policy = .discard ∧
          s' = { s with source })) := by
  simp only [Channel.step] at stepped
  split at stepped
  next item source opened sources =>
    refine ⟨opened, item, source, sources, ?_⟩
    split at stepped
    next ended => exact .inl ⟨ended, (Option.some.inj stepped).symm⟩
    next open_ =>
      have going : s.ended = false := by simpa using open_
      split at stepped
      next room => exact .inr (.inl ⟨going, room, (Option.some.inj stepped).symm⟩)
      next full =>
        cases policy with
        | await => simp at stepped
        | discard => exact .inr (.inr ⟨going, full, rfl, (Option.some.inj stepped).symm⟩)
  next => simp at stepped

theorem Channel.close_cases (stepped : s.step policy capacity .close = some s') :
    s.closed = false ∧ s.source = [] ∧ s' = { s with closed := true } := by
  simp only [Channel.step] at stepped
  split at stepped
  next opened sources => exact ⟨opened, sources, (Option.some.inj stepped).symm⟩
  next => simp at stepped

theorem Channel.receive_cases (stepped : s.step policy capacity .receive = some s') :
    s.ended = false ∧
      ((∃ item buffer, s.buffer = item :: buffer ∧ s' = { s with buffer }.yielded item) ∨
        (s.buffer = [] ∧ s.closed = true ∧ s' = { s with ended := true })) := by
  simp only [Channel.step] at stepped
  split at stepped
  next => simp at stepped
  next open_ =>
    refine ⟨by simpa using open_, ?_⟩
    split at stepped
    next item buffer buffers => exact .inl ⟨item, buffer, buffers, (Option.some.inj stepped).symm⟩
    next buffers =>
      split at stepped
      next closed => exact .inr ⟨buffers, closed, (Option.some.inj stepped).symm⟩
      next => simp at stepped

theorem Channel.Carries.receive (carries : s.Carries policy (signals values ending))
    (stepped : s.step policy capacity .receive = some s') :
    s'.Carries policy (signals values ending) := by
  obtain ⟨past, split, keeps⟩ := carries.accounted
  obtain ⟨going, ⟨item, buffer, buffers, rfl⟩ | ⟨buffers, closed, rfl⟩⟩ := Channel.receive_cases stepped
  · rw [buffers] at keeps
    refine ⟨⟨past, split, ?_⟩, carries.closing, ?_⟩
    · simpa [Channel.yielded] using keeps
    · intro ended
      have error : isError item = true := ended
      have part : past.Sublist (signals values ending) := split ▸ List.sublist_append_left _ _
      refine ⟨?_, error_last error (keeps.sublist.trans part)⟩
      have produced : item ∈ past := keeps.sublist.subset (by simp)
      obtain ⟨front, back, rfl⟩ := List.append_of_mem produced
      have whole : (front ++ item :: (back ++ s.source)).Sublist (signals values ending) := by
        rw [← split]
        simp
      exact (List.append_eq_nil_iff.mp (error_last error whole)).2
  · exact ⟨⟨past, split, keeps⟩, carries.closing, fun _ => ⟨carries.closing closed, buffers⟩⟩

theorem Channel.Carries.step (carries : s.Carries policy (signals values ending)) {turn : Turn}
    (room : policy = .discard → s.HasRoom capacity turn)
    (stepped : s.step policy capacity turn = some s') : s'.Carries policy (signals values ending) := by
  cases turn with
  | produce =>
    obtain ⟨past, split, keeps⟩ := carries.accounted
    obtain ⟨opened, item, source, sources, produced⟩ := Channel.produce_cases stepped
    have moved : past ++ [item] ++ source = signals values ending := by
      rw [← split, sources]
      simp
    rcases produced with ⟨ended, rfl⟩ | ⟨going, -, rfl⟩ | ⟨going, full, rfl, rfl⟩
    · simp [(carries.ending ended).1] at sources
    · refine ⟨⟨past ++ [item], moved, ?_⟩, by simp [opened], by simp [going]⟩
      simpa using keeps.concat item
    · refine ⟨⟨past ++ [item], moved, keeps.skip ?_⟩, by simp [opened], by simp [going]⟩
      by_contra error
      exact full (room rfl rfl (by simpa [sources] using error))
  | close =>
    obtain ⟨-, sources, rfl⟩ := Channel.close_cases stepped
    exact ⟨carries.accounted, fun _ => sources, carries.ending⟩
  | receive => exact carries.receive stepped

theorem Channel.Carries.delivers (carries : s.Carries policy (signals values ending))
    (ended : s.ended = true) : policy.Keeps (signals values ending) s.output := by
  obtain ⟨past, split, keeps⟩ := carries.accounted
  obtain ⟨sources, buffers⟩ := carries.ending ended
  rw [sources, List.append_nil] at split
  rw [buffers, List.append_nil] at keeps
  exact split ▸ keeps

def Channel.measure (s : Channel α ε) : Nat :=
  2 * s.source.length + s.buffer.length + (!s.closed).toNat + (!s.ended).toNat

theorem Channel.step_lowers {turn : Turn} (stepped : s.step policy capacity turn = some s') :
    s'.measure < s.measure := by
  cases turn with
  | produce =>
    obtain ⟨opened, item, source, sources, produced⟩ := Channel.produce_cases stepped
    rcases produced with ⟨-, rfl⟩ | ⟨-, -, rfl⟩ | ⟨-, -, -, rfl⟩
    · simp [Channel.measure, opened]
    · simp [Channel.measure, sources]
      omega
    · simp [Channel.measure, sources]
  | close =>
    obtain ⟨opened, -, rfl⟩ := Channel.close_cases stepped
    simp [Channel.measure, opened]
  | receive =>
    obtain ⟨going, ⟨item, buffer, buffers, rfl⟩ | ⟨-, -, rfl⟩⟩ := Channel.receive_cases stepped
    · cases error : isError item <;> simp [Channel.measure, Channel.yielded, buffers, going, error]
    · simp [Channel.measure, going]

theorem Channel.stuck_ended (stuck : ∀ turn, s.step policy capacity turn = none) : s.ended = true := by
  by_contra going
  have produce := stuck .produce
  have close := stuck .close
  have receive := stuck .receive
  simp only [Bool.not_eq_true] at going
  cases buffers : s.buffer with
  | cons item buffer => simp [Channel.step, going, buffers] at receive
  | nil =>
    cases closed : s.closed with
    | true => simp [Channel.step, going, buffers, closed] at receive
    | false =>
      cases sources : s.source with
      | nil => simp [Channel.step, closed, sources] at close
      | cons item source => simp [Channel.step, closed, sources, going, buffers] at produce

theorem channel_finishes (policy : Policy) (capacity : Nat) (items : List (Except ε α)) :
    Finishes (Channel.step policy capacity) (Channel.start items) (2 * items.length + 2)
      (fun s => s.ended = true) :=
  Finishes.of_measure (fun _ => True) Channel.measure (fun _ _ _ _ _ => trivial)
    (fun _ _ _ stepped => Channel.step_lowers stepped) (fun _ _ stuck => Channel.stuck_ended stuck) trivial

end Carried

section Inline

variable {values : List α} {ending : Option ε} {s s' : Channel α ε}

theorem Channel.inline_cases {turn : Turn} (stepped : s.inline turn = some s') :
    s.ended = false ∧
      ((∃ item source, s.source = item :: source ∧ s' = { s with source }.yielded item) ∨
        (s.source = [] ∧ s' = { s with ended := true })) := by
  cases turn with
  | produce => simp [Channel.inline] at stepped
  | close => simp [Channel.inline] at stepped
  | receive =>
    simp only [Channel.inline] at stepped
    split at stepped
    next => simp at stepped
    next open_ =>
      refine ⟨by simpa using open_, ?_⟩
      split at stepped
      next item source sources => exact .inl ⟨item, source, sources, (Option.some.inj stepped).symm⟩
      next sources => exact .inr ⟨sources, (Option.some.inj stepped).symm⟩

structure Channel.Passes (items : List (Except ε α)) (s : Channel α ε) : Prop where
  accounted : s.output ++ s.source = items
  ending : s.ended = true → s.source = []

theorem Channel.Passes.step (passes : s.Passes (signals values ending)) {turn : Turn}
    (stepped : s.inline turn = some s') : s'.Passes (signals values ending) := by
  obtain ⟨going, ⟨item, source, sources, rfl⟩ | ⟨sources, rfl⟩⟩ := Channel.inline_cases stepped
  · have accounted : s.output ++ [item] ++ source = signals values ending := by
      rw [← passes.accounted, sources]
      simp
    refine ⟨accounted, fun error => ?_⟩
    have whole : (s.output ++ item :: source).Sublist (signals values ending) := by
      rw [← accounted]
      simp
    exact error_last error whole
  · exact ⟨passes.accounted, fun _ => sources⟩

theorem inline_finishes (items : List (Except ε α)) :
    Finishes Channel.inline (Channel.start items) (2 * items.length + 2) (fun s => s.ended = true) := by
  apply Finishes.of_measure (fun _ => True) Channel.measure (fun _ _ _ _ _ => trivial) _ _ trivial
  · intro s turn s' stepped
    obtain ⟨going, ⟨item, source, sources, rfl⟩ | ⟨-, rfl⟩⟩ := Channel.inline_cases stepped
    · cases error : isError item <;> simp [Channel.measure, Channel.yielded, sources, going, error]
    · simp [Channel.measure, going]
  · intro s _ stuck
    by_contra going
    have receive := stuck .receive
    cases sources : s.source <;> simp [Channel.inline, going, sources] at receive

end Inline

structure Channel.Lost (ending : Option ε) (s : Channel α ε) : Prop where
  failing : ending.isSome = true
  exhausted : s.source = []
  silent : ∀ item ∈ s.output ++ s.buffer, isError item = false

section Dropped

variable {values : List α} {ending : Option ε} {capacity : Nat} {s s' : Channel α ε}

theorem Channel.Carries.lost (carries : s.Carries .discard (signals values ending)) {turn : Turn}
    (full : ¬ s.HasRoom capacity turn) (stepped : s.step .discard capacity turn = some s') :
    s'.Lost ending := by
  simp only [Channel.HasRoom, Classical.not_imp] at full
  obtain ⟨rfl, error, full⟩ := full
  obtain ⟨past, split, keeps⟩ := carries.accounted
  obtain ⟨-, item, source, sources, produced⟩ := Channel.produce_cases stepped
  have failed : isError item = true := by simpa [sources] using error
  rw [sources] at split
  have whole : (past ++ item :: source).Sublist (signals values ending) := by simp [split]
  obtain rfl : source = [] := error_last failed whole
  have valid : ∀ earlier ∈ past, isError earlier = false := by
    intro earlier member
    have pairs := split ▸ signals_pairwise values ending
    exact (List.pairwise_append.mp pairs).2.2 earlier member item (by simp)
  rcases produced with ⟨ended, rfl⟩ | ⟨-, room, rfl⟩ | ⟨-, -, -, rfl⟩
  · simp [(carries.ending ended).1] at sources
  · exact absurd room full
  · refine ⟨?_, rfl, fun item member => valid item (keeps.sublist.subset member)⟩
    cases ending with
    | some e => rfl
    | none =>
      have member : item ∈ signals values (none : Option ε) := by simp [← split]
      obtain ⟨value, -, rfl⟩ : ∃ value ∈ values, Except.ok value = item := by
        simpa [signals] using member
      simp [isError] at failed

theorem Channel.Lost.step (lost : s.Lost ending) {turn : Turn}
    (stepped : s.step .discard capacity turn = some s') : s'.Lost ending := by
  cases turn with
  | produce =>
    obtain ⟨-, item, source, sources, -⟩ := Channel.produce_cases stepped
    simp [lost.exhausted] at sources
  | close =>
    obtain ⟨-, -, rfl⟩ := Channel.close_cases stepped
    exact ⟨lost.failing, lost.exhausted, lost.silent⟩
  | receive =>
    obtain ⟨-, ⟨item, buffer, buffers, rfl⟩ | ⟨-, -, rfl⟩⟩ := Channel.receive_cases stepped
    · have silent := lost.silent
      rw [buffers] at silent
      exact ⟨lost.failing, lost.exhausted, by simpa [Channel.yielded] using silent⟩
    · exact ⟨lost.failing, lost.exhausted, lost.silent⟩

theorem Channel.Lost.ne_signals (lost : s.Lost ending) (kept : List α) : s.output ≠ signals kept ending := by
  intro same
  obtain ⟨e, rfl⟩ := Option.isSome_iff_exists.mp lost.failing
  have silent := lost.silent (.error e) (List.mem_append_left _ (by simp [same, signals]))
  simp [isError] at silent

theorem dropped_exactly {choices : List Turn}
    (ran : run (onBackpressureDrop capacity) (Channel.start (signals values ending)) choices = some s)
    (ended : s.ended = true) :
    (∃ kept, kept.Sublist values ∧ s.output = signals kept ending) ↔
      Along (onBackpressureDrop capacity) (Channel.HasRoom capacity) (Channel.start (signals values ending))
        choices := by
  have kept_or_lost : (Along (onBackpressureDrop capacity) (Channel.HasRoom capacity)
        (Channel.start (signals values ending)) choices ∧ s.Carries .discard (signals values ending)) ∨
      (¬ Along (onBackpressureDrop capacity) (Channel.HasRoom capacity)
        (Channel.start (signals values ending)) choices ∧ s.Lost ending) :=
    along_or_spoiled (fun s turn s' room carries stepped => carries.step (fun _ => room) stepped)
      (fun s turn s' full carries stepped => carries.lost full stepped)
      (fun s turn s' lost stepped => lost.step stepped) (Channel.start_carries _ _) ran
  rcases kept_or_lost with ⟨along, carries⟩ | ⟨strays, lost⟩
  · simp only [along, iff_true]
    obtain ⟨part, errors⟩ := carries.delivers ended
    refine sublist_signals part fun e failing => errors (.error e) ?_ rfl
    simp [signals, failing]
  · simp only [strays, iff_false]
    rintro ⟨kept, -, same⟩
    exact lost.ne_signals kept same

end Dropped

inductive Producer where
  | running
  | stored
  | finishing
  | stopped
deriving DecidableEq, Repr

inductive Consumer where
  | looking
  | checking
  | draining
  | awaiting
  | parked
  | woken
  | ended
deriving DecidableEq, Repr

structure Latest (α ε : Type) where
  source : List (Except ε α)
  slot : Option (Except ε α)
  done : Bool
  permit : Bool
  producer : Producer
  consumer : Consumer
  output : List (Except ε α)

def Latest.start (source : List (Except ε α)) : Latest α ε where
  source := source
  slot := none
  done := false
  permit := false
  producer := .running
  consumer := .looking
  output := []

inductive Side where
  | produce
  | consume
deriving DecidableEq, Repr

def Latest.notify_one (s : Latest α ε) : Latest α ε :=
  if s.consumer = .parked then { s with consumer := .woken } else { s with permit := true }

def Latest.produce (s : Latest α ε) : Option (Latest α ε) :=
  match s.producer, s.source with
  | .running, item :: source => some { s with source, slot := some item, producer := .stored }
  | .running, [] => some { s with done := true, producer := .finishing }
  | .stored, _ => some { s.notify_one with producer := .running }
  | .finishing, _ => some { s.notify_one with producer := .stopped }
  | .stopped, _ => none

def Latest.consume (s : Latest α ε) : Option (Latest α ε) :=
  match s.consumer, s.slot with
  | .looking, some item =>
    some { s with
      slot := none, output := s.output ++ [item]
      consumer := if isError item then .ended else .looking }
  | .looking, none => some { s with consumer := .checking }
  | .checking, _ => some { s with consumer := if s.done then .draining else .awaiting }
  | .draining, some item => some { s with slot := none, output := s.output ++ [item], consumer := .ended }
  | .draining, none => some { s with consumer := .ended }
  | .awaiting, _ =>
    if s.permit then some { s with permit := false, consumer := .looking }
    else some { s with consumer := .parked }
  | .parked, _ => none
  | .woken, _ => some { s with consumer := .looking }
  | .ended, _ => none

def onBackpressureLatest (s : Latest α ε) : Side → Option (Latest α ε)
  | .produce => s.produce
  | .consume => s.consume

def Latest.shown (s : Latest α ε) : List (Except ε α) := s.output ++ s.slot.toList

structure Latest.Tracks (items : List (Except ε α)) (s : Latest α ε) : Prop where
  accounted : ∃ past, past ++ s.source = items ∧ s.shown.Sublist past ∧ s.shown.getLast? = past.getLast?
  finished : s.done = true ↔ s.producer = .finishing ∨ s.producer = .stopped
  closing : s.done = true → s.source = []
  draining : s.consumer = .draining → s.done = true
  ending : s.consumer = .ended → s.source = [] ∧ s.slot = none
  -- A consumer that waits has a notification ahead of it.
  awaiting : s.consumer = .awaiting → s.permit = true ∨ s.producer ≠ .stopped
  parked : s.consumer = .parked → s.producer ≠ .stopped

theorem Latest.start_tracks (items : List (Except ε α)) : (Latest.start items).Tracks items where
  accounted := ⟨[], rfl, by simp [Latest.shown, Latest.start], by simp [Latest.shown, Latest.start]⟩
  finished := by simp [Latest.start]
  closing := by simp [Latest.start]
  draining := by simp [Latest.start]
  ending := by simp [Latest.start]
  awaiting := by simp [Latest.start]
  parked := by simp [Latest.start]

section Tracked

variable {values : List α} {ending : Option ε} {s s' : Latest α ε}

theorem Latest.Tracks.produce (tracks : s.Tracks (signals values ending)) (stepped : s.produce = some s') :
    s'.Tracks (signals values ending) := by
  obtain ⟨past, split, part, last⟩ := tracks.accounted
  unfold Latest.produce at stepped
  split at stepped
  next item source running sources =>
    obtain rfl := Option.some.inj stepped
    have going : s.done = false := by simpa [running] using tracks.finished
    refine ⟨⟨past ++ [item], ?_, ?_, ?_⟩, ?_, ?_, ?_, ?_, ?_, ?_⟩
    · rw [← split, sources]
      simp
    · exact ((List.sublist_append_left _ _).trans part).append (List.Sublist.refl _)
    · simp [Latest.shown]
    · simp [going]
    · simp [going]
    · exact tracks.draining
    · intro ended
      simp [(tracks.ending ended).1] at sources
    · simp
    · simp
  next running sources =>
    obtain rfl := Option.some.inj stepped
    exact ⟨⟨past, split, part, last⟩, by simp, fun _ => sources, fun _ => rfl, tracks.ending, by simp, by simp⟩
  next stored =>
    obtain rfl := Option.some.inj stepped
    have going : s.done = false := by simpa [stored] using tracks.finished
    unfold Latest.notify_one
    split
    next => exact ⟨⟨past, split, part, last⟩, by simp [going], tracks.closing, by simp, by simp, by simp, by simp⟩
    next =>
      exact ⟨⟨past, split, part, last⟩, by simp [going], tracks.closing, tracks.draining, tracks.ending,
        by simp, by simp⟩
  next finishing =>
    obtain rfl := Option.some.inj stepped
    have finished : s.done = true := tracks.finished.mpr (.inl finishing)
    unfold Latest.notify_one
    split
    next =>
      exact ⟨⟨past, split, part, last⟩, by simp [finished], tracks.closing, by simp, by simp, by simp, by simp⟩
    next unparked =>
      exact ⟨⟨past, split, part, last⟩, by simp [finished], tracks.closing, tracks.draining, tracks.ending,
        by simp, fun parked => absurd parked unparked⟩
  next => simp at stepped

-- The item in the slot ends the stream only when it is the last.
theorem Latest.Tracks.taken (tracks : s.Tracks (signals values ending)) {item : Except ε α}
    (slot : s.slot = some item) (error : isError item = true) : s.source = [] := by
  obtain ⟨past, split, part, last⟩ := tracks.accounted
  have stored : item ∈ past := part.subset (by simp [Latest.shown, slot])
  obtain ⟨front, back, rfl⟩ := List.append_of_mem stored
  have whole : (front ++ item :: (back ++ s.source)).Sublist (signals values ending) := by
    rw [← split]
    simp
  exact (List.append_eq_nil_iff.mp (error_last error whole)).2

theorem Latest.Tracks.consume (tracks : s.Tracks (signals values ending)) (stepped : s.consume = some s') :
    s'.Tracks (signals values ending) := by
  obtain ⟨past, split, part, last⟩ := tracks.accounted
  unfold Latest.consume at stepped
  split at stepped
  next item looking slot =>
    obtain rfl := Option.some.inj stepped
    simp only [Latest.shown, slot, Option.toList_some] at part last
    have shown : ∃ past, past ++ s.source = signals values ending ∧
        (s.output ++ [item] ++ []).Sublist past ∧ (s.output ++ [item] ++ []).getLast? = past.getLast? :=
      ⟨past, split, by simpa using part, by simpa using last⟩
    cases error : isError item with
    | true =>
      exact ⟨shown, tracks.finished, tracks.closing, by simp, fun _ => ⟨tracks.taken slot error, rfl⟩,
        by simp, by simp⟩
    | false => exact ⟨shown, tracks.finished, tracks.closing, by simp, by simp, by simp, by simp⟩
  next looking slot =>
    obtain rfl := Option.some.inj stepped
    exact ⟨⟨past, split, part, last⟩, tracks.finished, tracks.closing, by simp, by simp, by simp, by simp⟩
  next checking =>
    obtain rfl := Option.some.inj stepped
    refine ⟨⟨past, split, part, last⟩, tracks.finished, tracks.closing, ?_, ?_, ?_, ?_⟩
    · intro draining
      by_contra going
      simp [going] at draining
    · cases s.done <;> simp
    · intro awaiting
      refine .inr fun stopped => ?_
      simp [tracks.finished.mpr (.inr stopped)] at awaiting
    · cases s.done <;> simp
  next item draining slot =>
    obtain rfl := Option.some.inj stepped
    simp only [Latest.shown, slot, Option.toList_some] at part last
    have source := tracks.closing (tracks.draining draining)
    refine ⟨⟨past, split, ?_, ?_⟩, tracks.finished, tracks.closing, by simp, fun _ => ⟨source, rfl⟩,
      by simp, by simp⟩
    · simpa [Latest.shown] using part
    · simpa [Latest.shown] using last
  next draining slot =>
    obtain rfl := Option.some.inj stepped
    have source := tracks.closing (tracks.draining draining)
    exact ⟨⟨past, split, part, last⟩, tracks.finished, tracks.closing, by simp, fun _ => ⟨source, slot⟩,
      by simp, by simp⟩
  next awaiting =>
    split at stepped
    next =>
      obtain rfl := Option.some.inj stepped
      exact ⟨⟨past, split, part, last⟩, tracks.finished, tracks.closing, by simp, by simp, by simp, by simp⟩
    next unpermitted =>
      obtain rfl := Option.some.inj stepped
      have running := (tracks.awaiting awaiting).resolve_left unpermitted
      exact ⟨⟨past, split, part, last⟩, tracks.finished, tracks.closing, by simp, by simp, by simp,
        fun _ => running⟩
  next => simp at stepped
  next woken =>
    obtain rfl := Option.some.inj stepped
    exact ⟨⟨past, split, part, last⟩, tracks.finished, tracks.closing, by simp, by simp, by simp, by simp⟩
  next => simp at stepped

theorem Latest.Tracks.step (tracks : s.Tracks (signals values ending)) {side : Side}
    (stepped : onBackpressureLatest s side = some s') : s'.Tracks (signals values ending) := by
  cases side with
  | produce => exact tracks.produce stepped
  | consume => exact tracks.consume stepped

theorem Latest.Tracks.delivers (tracks : s.Tracks (signals values ending)) (ended : s.consumer = .ended) :
    ∃ kept, kept.Sublist values ∧ s.output = signals kept ending ∧
      (ending = none → kept.getLast? = values.getLast?) := by
  obtain ⟨past, split, part, last⟩ := tracks.accounted
  obtain ⟨sources, slot⟩ := tracks.ending ended
  rw [sources, List.append_nil] at split
  subst past
  simp only [Latest.shown, slot, Option.toList_none, List.append_nil] at part last
  have reported : ∀ e, ending = some e → Except.error e ∈ s.output := by
    rintro e rfl
    exact List.mem_of_getLast? (by simp [last, signals])
  obtain ⟨kept, kept_part, same⟩ := sublist_signals part reported
  refine ⟨kept, kept_part, same, ?_⟩
  rintro rfl
  rw [same] at last
  have ok_injective : Function.Injective (Option.map (Except.ok : α → Except ε α)) :=
    Option.map_injective fun _ _ => Except.ok.inj
  exact ok_injective (by simpa [signals] using last)

def Producer.weight : Producer → Nat
  | .running => 6
  | .stored => 11
  | .finishing => 5
  | .stopped => 0

def Consumer.weight : Consumer → Nat
  | .looking => 4
  | .checking => 3
  | .draining => 2
  | .awaiting => 2
  | .parked => 1
  | .woken => 5
  | .ended => 0

def Latest.measure (s : Latest α ε) : Nat :=
  7 * s.source.length + s.slot.toList.length + 4 * s.permit.toNat + s.producer.weight + s.consumer.weight

@[simp] theorem Latest.notify_one_source (s : Latest α ε) : s.notify_one.source = s.source := by
  unfold Latest.notify_one
  split <;> rfl

@[simp] theorem Latest.notify_one_slot (s : Latest α ε) : s.notify_one.slot = s.slot := by
  unfold Latest.notify_one
  split <;> rfl

theorem Latest.notify_one_weight (s : Latest α ε) :
    4 * s.notify_one.permit.toNat + s.notify_one.consumer.weight ≤
      4 * s.permit.toNat + s.consumer.weight + 4 := by
  unfold Latest.notify_one
  split
  next parked => simp [parked, Consumer.weight]
  next =>
    simp
    omega

theorem Latest.produce_lowers (stepped : s.produce = some s') : s'.measure < s.measure := by
  unfold Latest.produce at stepped
  split at stepped
  next item source running sources =>
    obtain rfl := Option.some.inj stepped
    simp [Latest.measure, running, sources, Producer.weight]
    omega
  next running sources =>
    obtain rfl := Option.some.inj stepped
    simp [Latest.measure, running, Producer.weight]
  next stored =>
    obtain rfl := Option.some.inj stepped
    have notified := s.notify_one_weight
    simp [Latest.measure, stored, Producer.weight]
    omega
  next finishing =>
    obtain rfl := Option.some.inj stepped
    have notified := s.notify_one_weight
    simp [Latest.measure, finishing, Producer.weight]
    omega
  next => simp at stepped

theorem Latest.consume_lowers (stepped : s.consume = some s') : s'.measure < s.measure := by
  unfold Latest.consume at stepped
  split at stepped
  next item looking slot =>
    obtain rfl := Option.some.inj stepped
    cases isError item <;> simp [Latest.measure, looking, slot, Consumer.weight]
    omega
  next looking slot =>
    obtain rfl := Option.some.inj stepped
    simp [Latest.measure, looking, Consumer.weight]
  next checking =>
    obtain rfl := Option.some.inj stepped
    cases s.done <;> simp [Latest.measure, checking, Consumer.weight]
  next item draining slot =>
    obtain rfl := Option.some.inj stepped
    simp [Latest.measure, draining, slot, Consumer.weight]
    omega
  next draining slot =>
    obtain rfl := Option.some.inj stepped
    simp [Latest.measure, draining, Consumer.weight]
  next awaiting =>
    split at stepped
    next permit =>
      obtain rfl := Option.some.inj stepped
      simp [Latest.measure, awaiting, permit, Consumer.weight]
      omega
    next =>
      obtain rfl := Option.some.inj stepped
      simp [Latest.measure, awaiting, Consumer.weight]
  next => simp at stepped
  next woken =>
    obtain rfl := Option.some.inj stepped
    simp [Latest.measure, woken, Consumer.weight]
  next => simp at stepped

theorem Latest.stuck_ended (tracks : s.Tracks (signals values ending))
    (stuck : ∀ side, onBackpressureLatest s side = none) : s.consumer = .ended := by
  have produce : s.produce = none := stuck .produce
  have consume : s.consume = none := stuck .consume
  have stopped : s.producer = .stopped := by
    cases producer : s.producer with
    | running => cases sources : s.source <;> simp [Latest.produce, producer, sources] at produce
    | stored => simp [Latest.produce, producer] at produce
    | finishing => simp [Latest.produce, producer] at produce
    | stopped => rfl
  cases consumer : s.consumer with
  | looking => cases slot : s.slot <;> simp [Latest.consume, consumer, slot] at consume
  | checking => simp [Latest.consume, consumer] at consume
  | draining => cases slot : s.slot <;> simp [Latest.consume, consumer, slot] at consume
  | awaiting => cases permit : s.permit <;> simp [Latest.consume, consumer, permit] at consume
  | parked => exact absurd stopped (tracks.parked consumer)
  | woken => simp [Latest.consume, consumer] at consume
  | ended => rfl

theorem latest_finishes (values : List α) (ending : Option ε) :
    Finishes onBackpressureLatest (Latest.start (signals values ending))
      (7 * (signals values ending).length + 10) (fun s => s.consumer = .ended) := by
  apply Finishes.of_measure (Latest.Tracks (signals values ending)) Latest.measure
  · exact fun s side s' tracks stepped => tracks.step stepped
  · intro s side s' stepped
    cases side with
    | produce => exact Latest.produce_lowers stepped
    | consume => exact Latest.consume_lowers stepped
  · exact fun s tracks stuck => Latest.stuck_ended tracks stuck
  · exact Latest.start_tracks _

end Tracked

def Delivers {σ γ : Type} (step : σ → γ → Option σ) (start : σ) (Ended : σ → Prop)
    (Good : List γ → σ → Prop) : Prop :=
  (∃ bound, Finishes step start bound Ended) ∧
    ∀ choices s, run step start choices = some s → Ended s → Good choices s

variable (values : List α) (ending : Option ε)

theorem channel_delivers (capacity : Nat) :
    Delivers (Channel.step .await capacity) (Channel.start (signals values ending)) (fun s => s.ended = true)
      (fun _ s => s.output = signals values ending) := by
  refine ⟨⟨_, channel_finishes .await capacity _⟩, fun turns s ran ended => ?_⟩
  have carries : s.Carries .await (signals values ending) :=
    run_invariant _ (fun s turn s' _ carries stepped => carries.step (by simp) stepped)
      (Channel.start_carries _ _) ran
  exact carries.delivers ended

theorem inline_delivers :
    Delivers Channel.inline (Channel.start (signals values ending)) (fun s => s.ended = true)
      (fun _ s => s.output = signals values ending) := by
  refine ⟨⟨_, inline_finishes _⟩, fun turns s ran ended => ?_⟩
  have passes : s.Passes (signals values ending) :=
    run_invariant _ (fun s turn s' _ passes stepped => passes.step stepped)
      ⟨rfl, by simp [Channel.start]⟩ ran
  simpa [passes.ending ended] using passes.accounted

theorem latest_delivers :
    Delivers onBackpressureLatest (Latest.start (signals values ending)) (fun s => s.consumer = .ended)
      (fun _ s => ∃ kept, kept.Sublist values ∧ s.output = signals kept ending ∧
        (ending = none → kept.getLast? = values.getLast?)) := by
  refine ⟨⟨_, latest_finishes values ending⟩, fun sides s ran ended => ?_⟩
  have tracks : s.Tracks (signals values ending) :=
    run_invariant _ (fun s side s' _ tracks stepped => tracks.step stepped) (Latest.start_tracks _) ran
  exact tracks.delivers ended

theorem terminal_error_survives_exactly (capacity : Nat) (scheduler : Scheduler) :
    Delivers (onBackpressureBuffer capacity) (Channel.start (signals values ending))
        (fun s => s.ended = true) (fun _ s => s.output = signals values ending) ∧
      Delivers (publishOn scheduler) (Channel.start (signals values ending))
        (fun s => s.ended = true) (fun _ s => s.output = signals values ending) ∧
      Delivers (subscribeOn scheduler) (Channel.start (signals values ending))
        (fun s => s.ended = true) (fun _ s => s.output = signals values ending) ∧
      Delivers onBackpressureLatest (Latest.start (signals values ending)) (fun s => s.consumer = .ended)
        (fun _ s => ∃ kept, kept.Sublist values ∧ s.output = signals kept ending ∧
          (ending = none → kept.getLast? = values.getLast?)) ∧
      Delivers (onBackpressureDrop capacity) (Channel.start (signals values ending)) (fun s => s.ended = true)
        (fun turns s => (∃ kept, kept.Sublist values ∧ s.output = signals kept ending) ↔
          Along (onBackpressureDrop capacity) (Channel.HasRoom capacity)
            (Channel.start (signals values ending)) turns) := by
  refine ⟨channel_delivers values ending capacity, ?_, ?_, latest_delivers values ending,
    ⟨_, channel_finishes .discard capacity _⟩, fun turns s ran ended => dropped_exactly ran ended⟩
  · cases scheduler with
    | immediate => exact inline_delivers values ending
    | parallel => exact channel_delivers values ending 64
    | boundedElastic => exact channel_delivers values ending 64
  · cases scheduler with
    | immediate => exact inline_delivers values ending
    | parallel => exact channel_delivers values ending 64
    | boundedElastic => exact channel_delivers values ending 64

-- The producer runs ahead of the consumer, and the error finds the first value in the buffer.
theorem error_dropped_when_full :
    ∃ s, run (onBackpressureDrop 1) (Channel.start (signals [1] (some "failed")))
        [.produce, .produce, .close, .receive, .receive] = some s ∧
      s.ended = true ∧ s.output = [Except.ok 1] ∧
      ¬ ∃ kept, kept.Sublist [1] ∧ s.output = signals kept (some "failed") := by
  refine ⟨_, rfl, rfl, rfl, ?_⟩
  rintro ⟨kept, -, same⟩
  have member : Except.error "failed" ∈ signals kept (some "failed") := by simp [signals]
  rw [← same] at member
  simp [Channel.yielded, Channel.start, signals] at member

end Firefly.Reactive
