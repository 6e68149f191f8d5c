import Firefly.Reactive.Backpressure

set_option autoImplicit false

namespace Firefly.Reactive

open Runs

variable {α ε : Type}

/-- The stream reads its receiver until it yields an error or finds no sender, and then returns. -/
inductive Stage where
  | reading
  | failed
  | returned
deriving DecidableEq, Repr

/-- The channel of a sink, with the live clones, the emissions that wait for a free slot (each with
the clone that it borrows, the detached task of `error` with none), and what the stream has
yielded. -/
structure Sink (α ε : Type) where
  clones : List Nat
  buffer : List (Except ε α)
  blocked : List (Option Nat × Except ε α)
  stage : Stage
  output : List (Except ε α)

def Sink.hasSlot (capacity : Option Nat) (s : Sink α ε) : Bool :=
  match capacity with
  | none => true
  | some slots => s.buffer.length < max slots 1

inductive Sending where
  | accepted
  | full
  | closed
deriving DecidableEq, Repr

def Sink.try_send (capacity : Option Nat) (s : Sink α ε) (item : Except ε α) : Sink α ε × Sending :=
  if s.stage = .returned then (s, .closed)
  else if s.hasSlot capacity then ({ s with buffer := s.buffer ++ [item] }, .accepted)
  else (s, .full)

def Sink.next (capacity : Option Nat) (s : Sink α ε) (value : α) : Sink α ε × Bool :=
  match s.try_send capacity (.ok value) with
  | (s, sending) => (s, sending = .accepted)

def Sink.send (capacity : Option Nat) (s : Sink α ε) (clone : Nat) (value : α) :
    Sink α ε × Option Bool :=
  match s.try_send capacity (.ok value) with
  | (s, .accepted) => (s, some true)
  | (s, .closed) => (s, some false)
  | (s, .full) => ({ s with blocked := s.blocked ++ [(some clone, .ok value)] }, none)

def Sink.error (capacity : Option Nat) (s : Sink α ε) (err : ε) : Sink α ε :=
  match s.try_send capacity (.error err) with
  | (s, .full) => { s with blocked := s.blocked ++ [(none, .error err)] }
  | (s, _) => s

-- An emission that waits goes on when there is a slot or the receiver is gone. The channel serves
-- the requests in their order; here any of them may be the next.
def Sink.resume (capacity : Option Nat) (s : Sink α ε) (index : Nat) :
    Option (Sink α ε × Except ε α × Bool) :=
  match s.blocked[index]? with
  | none => none
  | some (_, item) =>
    match s.try_send capacity item with
    | (_, .full) => none
    | (s, sending) => some ({ s with blocked := s.blocked.eraseIdx index }, item, sending = .accepted)

def Sink.drop (s : Sink α ε) (clone : Nat) : Sink α ε := { s with clones := s.clones.erase clone }

def Sink.complete (s : Sink α ε) (clone : Nat) : Sink α ε := s.drop clone

def Sink.poll (s : Sink α ε) : Option (Sink α ε) :=
  match s.stage, s.buffer with
  | .reading, item :: buffer =>
    some { s with
      buffer, output := s.output ++ [item], stage := if isError item then .failed else .reading }
  | .reading, [] => if s.clones = [] ∧ s.blocked = [] then some { s with stage := .returned } else none
  | .failed, _ => some { s with stage := .returned }
  | .returned, _ => none

structure History (α ε : Type) where
  accepted : List α
  signal : Option (Option ε)

def History.accept (h : History α ε) (item : Except ε α) (entered : Bool) : History α ε :=
  match h.signal, item, entered with
  | none, .ok value, true => { h with accepted := h.accepted ++ [value] }
  | _, _, _ => h

def History.terminate (h : History α ε) (ending : Option ε) : History α ε :=
  match h.signal with
  | none => { h with signal := some ending }
  | some _ => h

structure Emission (α ε : Type) where
  sink : Sink α ε
  history : History α ε

def Emission.create : Emission α ε where
  sink := { clones := [0], buffer := [], blocked := [], stage := .reading, output := [] }
  history := { accepted := [], signal := none }

inductive Call (α ε : Type) where
  | clone (clone : Nat) (new : Nat)
  | next (clone : Nat) (value : α)
  | send (clone : Nat) (value : α)
  | error (clone : Nat) (err : ε)
  | complete (clone : Nat)
  | drop (clone : Nat)
  | resume (index : Nat)
  | poll

def Sink.owns (s : Sink α ε) (clone : Nat) : Prop :=
  clone ∈ s.clones ∧ ∀ emission ∈ s.blocked, emission.1 ≠ some clone

instance (s : Sink α ε) (clone : Nat) : Decidable (s.owns clone) := inferInstanceAs (Decidable (_ ∧ _))

def Emission.step (capacity : Option Nat) (w : Emission α ε) : Call α ε → Option (Emission α ε)
  | .clone clone new =>
    if clone ∈ w.sink.clones ∧ new ∉ w.sink.clones then
      some { w with sink := { w.sink with clones := new :: w.sink.clones } }
    else none
  | .next clone value =>
    if clone ∈ w.sink.clones then
      match w.sink.next capacity value with
      | (sink, entered) => some { sink, history := w.history.accept (.ok value) entered }
    else none
  | .send clone value =>
    if clone ∈ w.sink.clones then
      match w.sink.send capacity clone value with
      | (sink, result) => some { sink, history := w.history.accept (.ok value) (result = some true) }
    else none
  | .error clone err =>
    if clone ∈ w.sink.clones then
      some { sink := w.sink.error capacity err, history := w.history.terminate (some err) }
    else none
  | .complete clone =>
    if w.sink.owns clone then
      some { sink := w.sink.complete clone, history := w.history.terminate none }
    else none
  | .drop clone =>
    if w.sink.owns clone then
      some {
        sink := w.sink.drop clone
        history := if (w.sink.drop clone).clones = [] then w.history.terminate none else w.history }
    else none
  | .resume index =>
    (w.sink.resume capacity index).map fun (sink, item, entered) =>
      { sink, history := w.history.accept item entered }
  | .poll => w.sink.poll.map fun sink => { w with sink }

def Call.internal : Call α ε → Prop
  | .resume _ | .poll => True
  | _ => False

def Emission.Fits (w : Emission α ε) : Prop :=
  match w.history.signal with
  | none => w.sink.stage = .reading ∧ w.sink.output <+: w.history.accepted.map .ok
  | some ending =>
    w.sink.output <+: signals w.history.accepted ending ∧
      (w.sink.stage ≠ .reading → w.sink.output = signals w.history.accepted ending)

def Emission.Settled (capacity : Option Nat) (w : Emission α ε) : Prop :=
  (∀ call : Call α ε, call.internal → w.step capacity call = none) →
    match w.history.signal with
    | none => w.sink.output = w.history.accepted.map .ok
    | some ending => w.sink.stage = .returned ∧ w.sink.output = signals w.history.accepted ending

def Emission.owed (w : Emission α ε) : Option ε :=
  match w.history.signal with
  | some (some err) => if (w.sink.output ++ w.sink.buffer).any isError then none else some err
  | _ => none

def Emission.offered (w : Emission α ε) : Call α ε → Option (Except ε α)
  | .next _ value | .send _ value => some (.ok value)
  | .error _ err => some (.error err)
  | .resume index => w.sink.blocked[index]?.map Prod.snd
  | _ => none

def Emission.Admits (capacity : Option Nat) (w : Emission α ε) : Call α ε → Prop
  | .complete clone => w.history.signal = none → (w.sink.complete clone).clones = []
  | call =>
    ∀ err ∈ w.owed, w.sink.hasSlot capacity = true → ∀ item ∈ w.offered call, item = .error err

instance [DecidableEq α] [DecidableEq ε] (capacity : Option Nat) (w : Emission α ε) :
    ∀ call, Decidable (w.Admits capacity call)
  | .complete _ => inferInstanceAs (Decidable (_ → _))
  | .clone .. | .next .. | .send .. | .error .. | .drop .. | .resume .. | .poll =>
    inferInstanceAs (Decidable (∀ err ∈ w.owed, _ → ∀ item ∈ w.offered _, _))

@[simp] theorem History.accept_terminated {h : History α ε} {ending : Option ε}
    (terminated : h.signal = some ending) (item : Except ε α) (entered : Bool) :
    h.accept item entered = h := by
  simp [History.accept, terminated]

@[simp] theorem History.terminate_terminated {h : History α ε} {first ending : Option ε}
    (terminated : h.signal = some first) : h.terminate ending = h := by
  simp [History.terminate, terminated]

@[simp] theorem History.accept_refused (h : History α ε) (item : Except ε α) : h.accept item false = h := by
  simp [History.accept]

section Steps

variable {capacity : Option Nat} {s s' : Sink α ε} {w w' : Emission α ε} {call : Call α ε}

theorem Sink.try_send_cases (capacity : Option Nat) (s : Sink α ε) (item : Except ε α) :
    (s.stage = .returned ∧ s.try_send capacity item = (s, .closed)) ∨
      (s.stage ≠ .returned ∧ s.hasSlot capacity = true ∧
        s.try_send capacity item = ({ s with buffer := s.buffer ++ [item] }, .accepted)) ∨
      (s.stage ≠ .returned ∧ s.hasSlot capacity = false ∧ s.try_send capacity item = (s, .full)) := by
  unfold Sink.try_send
  by_cases returned : s.stage = .returned
  · simp [returned]
  · cases s.hasSlot capacity <;> simp [returned]

theorem Sink.resume_cases {index : Nat} {item : Except ε α} {entered : Bool}
    (resumed : s.resume capacity index = some (s', item, entered)) :
    ∃ borrower, s.blocked[index]? = some (borrower, item) ∧
      ((s.stage = .returned ∧ entered = false ∧ s' = { s with blocked := s.blocked.eraseIdx index }) ∨
        (s.stage ≠ .returned ∧ s.hasSlot capacity = true ∧ entered = true ∧
          s' = { s with buffer := s.buffer ++ [item], blocked := s.blocked.eraseIdx index })) := by
  unfold Sink.resume at resumed
  split at resumed
  next => simp at resumed
  next borrower waiting found =>
    rcases s.try_send_cases capacity waiting with ⟨returned, sent⟩ | ⟨open_, slot, sent⟩ | ⟨-, -, sent⟩
    · rw [sent] at resumed
      obtain ⟨rfl, rfl, rfl⟩ : { s with blocked := s.blocked.eraseIdx index } = s' ∧ waiting = item ∧
          false = entered := by simpa using resumed
      exact ⟨borrower, found, .inl ⟨returned, rfl, rfl⟩⟩
    · rw [sent] at resumed
      obtain ⟨rfl, rfl, rfl⟩ : { s with buffer := s.buffer ++ [waiting], blocked := s.blocked.eraseIdx index } =
          s' ∧ waiting = item ∧ true = entered := by simpa using resumed
      exact ⟨borrower, found, .inr ⟨open_, slot, rfl, rfl⟩⟩
    · simp [sent] at resumed

theorem Sink.poll_cases (polled : s.poll = some s') :
    (s.stage = .reading ∧ ∃ item buffer, s.buffer = item :: buffer ∧
        s' = { s with
          buffer, output := s.output ++ [item], stage := if isError item then .failed else .reading }) ∨
      (s.stage = .reading ∧ s.buffer = [] ∧ s.clones = [] ∧ s.blocked = [] ∧
        s' = { s with stage := .returned }) ∨
      (s.stage = .failed ∧ s' = { s with stage := .returned }) := by
  unfold Sink.poll at polled
  split at polled
  next item buffer reading queued =>
    exact .inl ⟨reading, item, buffer, queued, (Option.some.inj polled).symm⟩
  next reading empty =>
    split at polled
    next gone => exact .inr (.inl ⟨reading, empty, gone.1, gone.2, (Option.some.inj polled).symm⟩)
    next => simp at polled
  next failed => exact .inr (.inr ⟨failed, (Option.some.inj polled).symm⟩)
  next => simp at polled

structure Sink.Moves (capacity : Option Nat) (offered : Option (Except ε α)) (s s' : Sink α ε) : Prop where
  stage : s'.stage = s.stage
  output : s'.output = s.output
  buffer : (∃ item ∈ offered, s.hasSlot capacity = true ∧ s'.buffer = s.buffer ++ [item]) ∨
    (s'.buffer = s.buffer ∧ (s.stage ≠ .returned → s.blocked ⊆ s'.blocked))

theorem Sink.error_moves (capacity : Option Nat) (s : Sink α ε) (err : ε) :
    s.Moves capacity (some (.error err)) (s.error capacity err) := by
  unfold Sink.error
  rcases s.try_send_cases capacity (.error err) with ⟨-, sent⟩ | ⟨-, slot, sent⟩ | ⟨-, -, sent⟩
  · rw [sent]
    exact ⟨rfl, rfl, .inr ⟨rfl, fun _ => List.Subset.refl _⟩⟩
  · rw [sent]
    exact ⟨rfl, rfl, .inl ⟨_, rfl, slot, rfl⟩⟩
  · rw [sent]
    exact ⟨rfl, rfl, .inr ⟨rfl, fun _ => List.subset_append_left _ _⟩⟩

theorem Sink.next_moves (capacity : Option Nat) (s : Sink α ε) (value : α) :
    s.Moves capacity (some (.ok value)) (s.next capacity value).1 := by
  unfold Sink.next
  rcases s.try_send_cases capacity (.ok value) with ⟨-, sent⟩ | ⟨-, slot, sent⟩ | ⟨-, -, sent⟩
  · rw [sent]
    exact ⟨rfl, rfl, .inr ⟨rfl, fun _ => List.Subset.refl _⟩⟩
  · rw [sent]
    exact ⟨rfl, rfl, .inl ⟨_, rfl, slot, rfl⟩⟩
  · rw [sent]
    exact ⟨rfl, rfl, .inr ⟨rfl, fun _ => List.Subset.refl _⟩⟩

theorem Sink.send_moves (capacity : Option Nat) (s : Sink α ε) (clone : Nat) (value : α) :
    s.Moves capacity (some (.ok value)) (s.send capacity clone value).1 := by
  unfold Sink.send
  rcases s.try_send_cases capacity (.ok value) with ⟨-, sent⟩ | ⟨-, slot, sent⟩ | ⟨-, -, sent⟩
  · rw [sent]
    exact ⟨rfl, rfl, .inr ⟨rfl, fun _ => List.Subset.refl _⟩⟩
  · rw [sent]
    exact ⟨rfl, rfl, .inl ⟨_, rfl, slot, rfl⟩⟩
  · rw [sent]
    exact ⟨rfl, rfl, .inr ⟨rfl, fun _ => List.subset_append_left _ _⟩⟩

theorem Sink.resume_moves {index : Nat} {item : Except ε α} {entered : Bool}
    (resumed : s.resume capacity index = some (s', item, entered)) :
    s.Moves capacity (s.blocked[index]?.map Prod.snd) s' := by
  obtain ⟨borrower, found, ⟨returned, -, rfl⟩ | ⟨-, slot, -, rfl⟩⟩ := Sink.resume_cases resumed
  · exact ⟨rfl, rfl, .inr ⟨rfl, fun open_ => absurd returned open_⟩⟩
  · exact ⟨rfl, rfl, .inl ⟨item, by simp [found], slot, rfl⟩⟩

theorem Emission.step_terminated {ending : Option ε} (terminated : w.history.signal = some ending)
    (stepped : w.step capacity call = some w') :
    w'.history = w.history ∧
      (w.sink.Moves capacity (w.offered call) w'.sink ∨ w.sink.poll = some w'.sink) := by
  cases call with
  | clone clone new =>
    obtain ⟨-, cloned⟩ := Option.ite_none_right_eq_some.mp stepped
    obtain rfl := Option.some.inj cloned
    exact ⟨rfl, .inl ⟨rfl, rfl, .inr ⟨rfl, fun _ => List.Subset.refl _⟩⟩⟩
  | next clone value =>
    obtain ⟨-, sent⟩ := Option.ite_none_right_eq_some.mp stepped
    obtain rfl := Option.some.inj sent
    exact ⟨History.accept_terminated terminated _ _, .inl (w.sink.next_moves capacity value)⟩
  | send clone value =>
    obtain ⟨-, sent⟩ := Option.ite_none_right_eq_some.mp stepped
    obtain rfl := Option.some.inj sent
    exact ⟨History.accept_terminated terminated _ _, .inl (w.sink.send_moves capacity clone value)⟩
  | error clone err =>
    obtain ⟨-, sent⟩ := Option.ite_none_right_eq_some.mp stepped
    obtain rfl := Option.some.inj sent
    exact ⟨History.terminate_terminated terminated, .inl (w.sink.error_moves capacity err)⟩
  | complete clone =>
    obtain ⟨-, completed⟩ := Option.ite_none_right_eq_some.mp stepped
    obtain rfl := Option.some.inj completed
    refine ⟨History.terminate_terminated terminated, .inl ⟨rfl, rfl, .inr ⟨rfl, ?_⟩⟩⟩
    exact fun _ => List.Subset.refl _
  | drop clone =>
    obtain ⟨-, dropped⟩ := Option.ite_none_right_eq_some.mp stepped
    obtain rfl := Option.some.inj dropped
    refine ⟨?_, .inl ⟨rfl, rfl, .inr ⟨rfl, fun _ => List.Subset.refl _⟩⟩⟩
    simp [History.terminate_terminated terminated]
  | resume index =>
    obtain ⟨⟨sink, item, entered⟩, resumed, rfl⟩ := Option.map_eq_some_iff.mp stepped
    exact ⟨History.accept_terminated terminated _ _, .inl (Sink.resume_moves resumed)⟩
  | poll =>
    obtain ⟨sink, polled, rfl⟩ := Option.map_eq_some_iff.mp stepped
    exact ⟨rfl, .inr polled⟩

end Steps

def Sink.Sends (s : Sink α ε) : Prop :=
  ∀ emission ∈ s.blocked, ∃ clone ∈ s.clones, ∃ value, emission = (some clone, .ok value)

inductive Emission.Phase (w : Emission α ε) : Prop where
  | emitting (signal : w.history.signal = none) (stage : w.sink.stage = .reading)
      (clones : w.sink.clones ≠ []) (sends : w.sink.Sends)
      (sent : w.sink.output ++ w.sink.buffer = w.history.accepted.map .ok)
  | completed (signal : w.history.signal = some none) (clones : w.sink.clones = [])
      (blocked : w.sink.blocked = []) (stage : w.sink.stage ≠ .failed)
      (sent : w.sink.output ++ w.sink.buffer = w.history.accepted.map .ok)
      (drained : w.sink.stage = .returned → w.sink.buffer = [])
  | owing (err : ε) (signal : w.history.signal = some (some err)) (stage : w.sink.stage = .reading)
      (blocked : (none, .error err) ∈ w.sink.blocked)
      (sent : w.sink.output ++ w.sink.buffer = w.history.accepted.map .ok)
  | failing (err : ε) (queued late : List (Except ε α)) (signal : w.history.signal = some (some err))
      (stage : w.sink.stage = .reading) (buffer : w.sink.buffer = queued ++ .error err :: late)
      (sent : w.sink.output ++ queued = w.history.accepted.map .ok)
  | failed (err : ε) (signal : w.history.signal = some (some err)) (stage : w.sink.stage ≠ .reading)
      (seen : w.sink.output = signals w.history.accepted (some err))

theorem Emission.create_phase : (Emission.create : Emission α ε).Phase :=
  .emitting rfl rfl (by simp [Emission.create]) (by simp [Sink.Sends, Emission.create]) rfl

section Phases

variable {capacity : Option Nat} {s s' : Sink α ε} {w w' : Emission α ε} {call : Call α ε}

theorem valid_of_sent {values : List α} {front back : List (Except ε α)} {item : Except ε α}
    (sent : front ++ item :: back = values.map .ok) : isError item = false := by
  have member : item ∈ values.map Except.ok := sent ▸ (by simp)
  obtain ⟨value, -, rfl⟩ := List.mem_map.mp member
  rfl

theorem Sink.Sends.weaken (sends : s.Sends) (blocked : s'.blocked ⊆ s.blocked)
    (clones : s.clones ⊆ s'.clones) : s'.Sends := by
  intro emission member
  obtain ⟨clone, live, value, rfl⟩ := sends emission (blocked member)
  exact ⟨clone, clones live, value, rfl⟩

theorem Sink.Sends.drop (sends : s.Sends) {clone : Nat} (owns : s.owns clone) : (s.drop clone).Sends := by
  intro emission member
  obtain ⟨other, live, value, rfl⟩ := sends emission member
  have apart : other ≠ clone := fun same => owns.2 _ member (by rw [same])
  exact ⟨other, (List.mem_erase_of_ne apart).mpr live, value, rfl⟩

theorem Sink.Sends.nothing_blocked (sends : s.Sends) (clones : s.clones = []) : s.blocked = [] := by
  apply List.eq_nil_iff_forall_not_mem.mpr
  intro emission member
  obtain ⟨clone, live, -⟩ := sends emission member
  simp [clones] at live

theorem Emission.Phase.error {err : ε} (signal : w.history.signal = none) (stage : w.sink.stage = .reading)
    (sent : w.sink.output ++ w.sink.buffer = w.history.accepted.map .ok) :
    Emission.Phase { sink := w.sink.error capacity err, history := w.history.terminate (some err) } := by
  have signalled : (w.history.terminate (some err)).signal = some (some err) := by
    simp [History.terminate, signal]
  have accepted : (w.history.terminate (some err)).accepted = w.history.accepted := by
    simp [History.terminate, signal]
  unfold Sink.error
  rcases w.sink.try_send_cases capacity (.error err) with ⟨returned, -⟩ | ⟨-, -, sending⟩ | ⟨-, -, sending⟩
  · simp [stage] at returned
  · rw [sending]
    exact .failing err w.sink.buffer [] signalled stage rfl (by rw [accepted]; exact sent)
  · rw [sending]
    exact .owing err signalled stage (by simp) (by rw [accepted]; exact sent)

theorem Emission.Phase.last_dropped {clone : Nat} (signal : w.history.signal = none)
    (stage : w.sink.stage = .reading) (sends : w.sink.Sends) (owns : w.sink.owns clone)
    (sent : w.sink.output ++ w.sink.buffer = w.history.accepted.map .ok)
    (last : (w.sink.drop clone).clones = []) :
    Emission.Phase { sink := w.sink.drop clone, history := w.history.terminate none } := by
  refine .completed ?_ last ((sends.drop owns).nothing_blocked last) ?_ ?_ ?_
  · simp [History.terminate, signal]
  · simp [Sink.drop, stage]
  · simpa [History.terminate, signal, Sink.drop] using sent
  · simp [Sink.drop, stage]

theorem Emission.Phase.emitting_step (signal : w.history.signal = none) (stage : w.sink.stage = .reading)
    (clones : w.sink.clones ≠ []) (sends : w.sink.Sends)
    (sent : w.sink.output ++ w.sink.buffer = w.history.accepted.map .ok)
    (admits : w.Admits capacity call) (stepped : w.step capacity call = some w') : w'.Phase := by
  cases call with
  | clone clone new =>
    obtain ⟨-, cloned⟩ := Option.ite_none_right_eq_some.mp stepped
    obtain rfl := Option.some.inj cloned
    exact .emitting signal stage (by simp)
      (sends.weaken (List.Subset.refl _) (List.subset_cons_self _ _)) sent
  | next clone value =>
    have live := (Option.ite_none_right_eq_some.mp stepped).1
    rcases w.sink.try_send_cases capacity (.ok value) with ⟨returned, -⟩ | ⟨-, -, sending⟩ | ⟨-, -, sending⟩
    · simp [stage] at returned
    · obtain rfl : _ = w' := by simpa [Emission.step, live, Sink.next, sending] using stepped
      exact .emitting (by simp [History.accept, signal]) stage clones sends
        (by simp [History.accept, signal, ← sent])
    · obtain rfl : _ = w' := by simpa [Emission.step, live, Sink.next, sending] using stepped
      exact .emitting signal stage clones sends sent
  | send clone value =>
    have live := (Option.ite_none_right_eq_some.mp stepped).1
    rcases w.sink.try_send_cases capacity (.ok value) with ⟨returned, -⟩ | ⟨-, -, sending⟩ | ⟨-, -, sending⟩
    · simp [stage] at returned
    · obtain rfl : _ = w' := by simpa [Emission.step, live, Sink.send, sending] using stepped
      exact .emitting (by simp [History.accept, signal]) stage clones sends
        (by simp [History.accept, signal, ← sent])
    · obtain rfl : _ = w' := by simpa [Emission.step, live, Sink.send, sending] using stepped
      refine .emitting signal stage clones ?_ sent
      intro emission member
      rcases List.mem_append.mp member with before | last
      · exact sends emission before
      · exact ⟨clone, live, value, by simpa using last⟩
  | error clone err =>
    obtain ⟨-, emitted⟩ := Option.ite_none_right_eq_some.mp stepped
    obtain rfl := Option.some.inj emitted
    exact .error signal stage sent
  | complete clone =>
    obtain ⟨owns, completed⟩ := Option.ite_none_right_eq_some.mp stepped
    obtain rfl := Option.some.inj completed
    exact .last_dropped signal stage sends owns sent (admits signal)
  | drop clone =>
    obtain ⟨owns, dropped⟩ := Option.ite_none_right_eq_some.mp stepped
    obtain rfl := Option.some.inj dropped
    split
    next last => exact .last_dropped signal stage sends owns sent last
    next others => exact .emitting signal stage others (sends.drop owns) sent
  | resume index =>
    obtain ⟨⟨sink, item, entered⟩, resumed, rfl⟩ := Option.map_eq_some_iff.mp stepped
    obtain ⟨borrower, found, ⟨returned, -⟩ | ⟨-, -, rfl, rfl⟩⟩ := Sink.resume_cases resumed
    · simp [stage] at returned
    · obtain ⟨other, live, value, waiting⟩ := sends _ (List.mem_of_getElem? found)
      obtain ⟨rfl, rfl⟩ := Prod.mk.inj waiting
      refine .emitting (by simp [History.accept, signal]) stage clones ?_
        (by simp [History.accept, signal, ← sent])
      exact sends.weaken (List.eraseIdx_subset) (List.Subset.refl _)
  | poll =>
    obtain ⟨sink, polled, rfl⟩ := Option.map_eq_some_iff.mp stepped
    rcases Sink.poll_cases polled with ⟨-, item, buffer, queued, rfl⟩ | ⟨-, -, gone, -⟩ | ⟨failed, -⟩
    · rw [queued] at sent
      refine .emitting signal (by simp [valid_of_sent sent]) clones sends ?_
      simpa using sent
    · exact absurd gone clones
    · simp [stage] at failed

theorem Emission.completed_step (clones : w.sink.clones = []) (blocked : w.sink.blocked = [])
    (stepped : w.step capacity call = some w') :
    ∃ sink, w.sink.poll = some sink ∧ w' = { w with sink } := by
  cases call with
  | poll =>
    obtain ⟨sink, polled, rfl⟩ := Option.map_eq_some_iff.mp stepped
    exact ⟨sink, polled, rfl⟩
  | resume index => simp [Emission.step, Sink.resume, blocked] at stepped
  | clone | next | send | error | complete | drop =>
    simp [Emission.step, Sink.owns, clones] at stepped

theorem Emission.Phase.step (phase : w.Phase) (admits : w.Admits capacity call)
    (stepped : w.step capacity call = some w') : w'.Phase := by
  cases phase with
  | emitting signal stage clones sends sent =>
    exact Emission.Phase.emitting_step signal stage clones sends sent admits stepped
  | completed signal clones blocked stage sent drained =>
    obtain ⟨sink, polled, rfl⟩ := Emission.completed_step clones blocked stepped
    rcases Sink.poll_cases polled with ⟨reading, item, buffer, queued, rfl⟩ | ⟨reading, empty, -, -, rfl⟩ |
      ⟨failed, -⟩
    · rw [queued] at sent
      have valid := valid_of_sent sent
      refine .completed signal clones blocked (by simp [valid]) (by simpa using sent) (by simp [valid])
    · exact .completed signal clones blocked (by simp) sent (fun _ => empty)
    · exact absurd failed stage
  | owing err signal stage blocked sent =>
    obtain ⟨kept, moved | polled⟩ := Emission.step_terminated signal stepped
    · rw [← kept] at signal
      rcases moved.buffer with ⟨item, offered, slot, entered⟩ | ⟨same, waiting⟩
      · have unsent : (w.sink.output ++ w.sink.buffer).any isError = false := by simp [sent, isError]
        have owed : w.owed = some err := by simp [Emission.owed, ← kept, signal, unsent]
        have mine : item = .error err := by
          cases call with
          | complete clone => simp [Emission.offered] at offered
          | clone | next | send | error | drop | resume | poll => exact admits err owed slot item offered
        refine .failing err w.sink.buffer [] signal (moved.stage.trans stage) ?_ ?_
        · rw [entered, mine]
        · rw [moved.output, kept, sent]
      · refine .owing err signal (moved.stage.trans stage) (waiting (by simp [stage]) blocked) ?_
        rw [moved.output, same, kept, sent]
    · rcases Sink.poll_cases polled with ⟨-, item, buffer, queued, polled⟩ | ⟨-, -, -, none, -⟩ | ⟨failed, -⟩
      · rw [queued] at sent
        have valid := valid_of_sent sent
        refine .owing err (by rw [kept, signal]) (by simp [polled, valid]) (by rw [polled]; exact blocked) ?_
        rw [kept, polled]
        simpa using sent
      · simp [none] at blocked
      · simp [stage] at failed
  | failing err queued late signal stage buffer sent =>
    obtain ⟨kept, moved | polled⟩ := Emission.step_terminated signal stepped
    · rw [← kept] at signal
      rcases moved.buffer with ⟨item, -, -, entered⟩ | ⟨same, -⟩
      · refine .failing err queued (late ++ [item]) signal (moved.stage.trans stage) ?_ ?_
        · simp [entered, buffer]
        · rw [moved.output, kept, sent]
      · refine .failing err queued late signal (moved.stage.trans stage) (same.trans buffer) ?_
        rw [moved.output, kept, sent]
    · rcases Sink.poll_cases polled with ⟨-, item, rest, front, polled⟩ | ⟨-, empty, -, -⟩ | ⟨failed, -⟩
      · rw [← kept] at signal
        rw [buffer] at front
        cases queued with
        | nil =>
          obtain ⟨rfl, rfl⟩ := List.cons.inj front
          refine .failed err signal (by simp [polled, isError]) ?_
          rw [kept, polled, signals, ← sent]
          simp
        | cons first queued =>
          rw [List.cons_append] at front
          obtain ⟨rfl, rfl⟩ := List.cons.inj front
          refine .failing err queued late signal (by simp [polled, valid_of_sent sent]) (by rw [polled]) ?_
          rw [kept, polled]
          simpa using sent
      · simp [buffer] at empty
      · simp [stage] at failed
  | failed err signal stage seen =>
    obtain ⟨kept, moved | polled⟩ := Emission.step_terminated signal stepped
    · exact .failed err (by rw [kept, signal]) (by rw [moved.stage]; exact stage)
        (by rw [moved.output, kept, seen])
    · rcases Sink.poll_cases polled with ⟨reading, -⟩ | ⟨reading, -⟩ | ⟨-, polled⟩
      · exact absurd reading stage
      · exact absurd reading stage
      · exact .failed err (by rw [kept, signal]) (by simp [polled]) (by rw [polled, kept]; exact seen)

theorem Emission.Phase.fits (phase : w.Phase) : w.Fits := by
  cases phase with
  | emitting signal stage clones sends sent =>
    simp only [Emission.Fits, signal]
    exact ⟨stage, w.sink.buffer, sent⟩
  | completed signal clones blocked stage sent drained =>
    simp only [Emission.Fits, signal]
    refine ⟨⟨w.sink.buffer, by simpa [signals] using sent⟩, fun read => ?_⟩
    have returned : w.sink.stage = .returned := by
      cases final : w.sink.stage with
      | reading => exact absurd final read
      | failed => exact absurd final stage
      | returned => rfl
    simpa [signals, drained returned] using sent
  | owing err signal stage blocked sent =>
    simp only [Emission.Fits, signal]
    exact ⟨⟨w.sink.buffer ++ [.error err], by simp [signals, ← sent]⟩, fun read => absurd stage read⟩
  | failing err queued late signal stage buffer sent =>
    simp only [Emission.Fits, signal]
    exact ⟨⟨queued ++ [.error err], by simp [signals, ← sent]⟩, fun read => absurd stage read⟩
  | failed err signal stage seen =>
    simp only [Emission.Fits, signal]
    exact ⟨⟨[], by simp [seen]⟩, fun _ => seen⟩

theorem Sink.hasSlot_of_empty (capacity : Option Nat) (empty : s.buffer = []) : s.hasSlot capacity = true := by
  cases capacity <;> simp [Sink.hasSlot, empty]

theorem Sink.quiet_cases
    (quiet : ∀ call : Call α ε, call.internal → w.step capacity call = none) :
    w.sink.stage = .returned ∨
      (w.sink.stage = .reading ∧ w.sink.buffer = [] ∧ w.sink.blocked = [] ∧ w.sink.clones ≠ []) := by
  have polled : w.sink.poll = none := by simpa [Emission.step] using quiet .poll trivial
  cases stage : w.sink.stage with
  | returned => exact .inl rfl
  | failed => simp [Sink.poll, stage] at polled
  | reading =>
    cases buffer : w.sink.buffer with
    | cons item rest => simp [Sink.poll, stage, buffer] at polled
    | nil =>
      have unblocked : w.sink.blocked = [] := by
        cases blocked : w.sink.blocked with
        | nil => rfl
        | cons first rest =>
          have resumed := quiet (.resume 0) trivial
          simp [Emission.step, Sink.resume, blocked, Sink.try_send, stage,
            Sink.hasSlot_of_empty capacity buffer] at resumed
      refine .inr ⟨rfl, rfl, unblocked, fun clones => ?_⟩
      simp [Sink.poll, stage, buffer, clones, unblocked] at polled

theorem Emission.Phase.settled (phase : w.Phase) : w.Settled capacity := by
  intro quiet
  have ends := Sink.quiet_cases quiet
  cases phase with
  | emitting signal stage clones sends sent =>
    obtain ⟨-, empty, -⟩ := ends.resolve_left (by simp [stage])
    simpa [signal, empty] using sent
  | completed signal clones blocked stage sent drained =>
    have returned := ends.resolve_right (fun waits => waits.2.2.2 clones)
    simpa [signal, returned, signals, drained returned] using sent
  | owing err signal stage blocked sent =>
    obtain ⟨-, -, none, -⟩ := ends.resolve_left (by simp [stage])
    simp [none] at blocked
  | failing err queued late signal stage buffer sent =>
    obtain ⟨-, empty, -⟩ := ends.resolve_left (by simp [stage])
    simp [empty] at buffer
  | failed err signal stage seen =>
    have returned := ends.resolve_right (fun waits => stage waits.1)
    simpa [signal, returned] using seen

def Stage.weight : Stage → Nat
  | .reading => 2
  | .failed => 1
  | .returned => 0

def Sink.measure (s : Sink α ε) : Nat := 2 * s.blocked.length + s.buffer.length + s.stage.weight

theorem Sink.poll_lowers (polled : s.poll = some s') : s'.measure < s.measure := by
  rcases Sink.poll_cases polled with ⟨reading, item, buffer, queued, rfl⟩ | ⟨reading, -, -, -, rfl⟩ |
    ⟨failed, rfl⟩
  · cases isError item <;> simp [Sink.measure, queued, reading, Stage.weight]
  · simp [Sink.measure, reading, Stage.weight]
  · simp [Sink.measure, failed, Stage.weight]

theorem Sink.resume_lowers {index : Nat} {item : Except ε α} {entered : Bool}
    (resumed : s.resume capacity index = some (s', item, entered)) : s'.measure < s.measure := by
  obtain ⟨borrower, found, resumed⟩ := Sink.resume_cases resumed
  have inside : index < s.blocked.length := (List.getElem?_eq_some_iff.mp found).1
  rcases resumed with ⟨-, -, rfl⟩ | ⟨-, -, -, rfl⟩
  · simp [Sink.measure, List.length_eraseIdx_of_lt inside]
    omega
  · simp [Sink.measure, List.length_eraseIdx_of_lt inside]
    omega

theorem Emission.internal_lowers (inside : call.internal) (stepped : w.step capacity call = some w') :
    w'.sink.measure < w.sink.measure := by
  cases call with
  | resume index =>
    obtain ⟨⟨sink, item, entered⟩, resumed, rfl⟩ := Option.map_eq_some_iff.mp stepped
    exact Sink.resume_lowers resumed
  | poll =>
    obtain ⟨sink, polled, rfl⟩ := Option.map_eq_some_iff.mp stepped
    exact Sink.poll_lowers polled
  | clone | next | send | error | complete | drop => exact inside.elim

end Phases

def Emission.Obeys (capacity : Option Nat) (w : Emission α ε) : Prop :=
  w.Fits ∧ w.Settled capacity ∧
    ∀ calls : List (Call α ε), (∀ call ∈ calls, call.internal) →
      ∀ rest, run (Emission.step capacity) w calls = some rest → calls.length ≤ w.sink.measure

theorem terminal_contract (capacity : Option Nat) (calls : List (Call α ε))
    (admitted : Along (Emission.step capacity) (Emission.Admits capacity) .create calls) :
    Always (Emission.step capacity) (Emission.Obeys capacity) .create calls := by
  have phases : Always (Emission.step capacity) Emission.Phase .create calls :=
    Along.always Emission.Phase (fun w call w' admits phase stepped => phase.step admits stepped)
      Emission.create_phase admitted
  refine phases.mono fun w phase => ⟨phase.fits, phase.settled, fun inner inside rest ran => ?_⟩
  exact Along.length_le (fun _ => True) (fun w => w.sink.measure) (P := fun _ call => call.internal)
    (fun w call w' inside _ stepped => ⟨trivial, Emission.internal_lowers inside stepped⟩) trivial
    (along_of_forall (fun call member _ => inside call member) w) ran

-- A sink with one slot, a `send` that waits, and an error that finds the slot taken.
theorem terminal_contract_one_slot :
    Always (Emission.step (some 1)) (Emission.Obeys (some 1))
      (Emission.create : Emission Nat String)
      [.clone 0 1, .next 0 1, .send 1 2, .poll, .resume 0, .error 0 "failed", .next 1 3, .complete 1,
        .poll, .resume 0, .poll, .poll] :=
  terminal_contract (some 1) _ (by decide)

-- A clone that completes the stream while another is left ends nothing, and a `send` that waits for
-- the slot that an error needs comes before the error.
theorem emissions_after_terminal :
    (∃ w, run (Emission.step none) (Emission.create : Emission Nat String)
        [.clone 0 1, .complete 0, .next 1 7, .poll] = some w ∧
      w.history = { accepted := [], signal := some none } ∧ w.sink.output = [.ok 7] ∧ ¬ w.Fits) ∧
    ∃ w, run (Emission.step (some 1)) (Emission.create : Emission Nat String)
        [.clone 0 1, .next 0 1, .send 1 2, .error 0 "failed", .poll, .resume 0, .poll] = some w ∧
      w.history = { accepted := [1], signal := some (some "failed") } ∧
      w.sink.output = [.ok 1, .ok 2] ∧ ¬ w.Fits := by
  refine ⟨⟨_, rfl, rfl, rfl, ?_⟩, ⟨_, rfl, rfl, rfl, ?_⟩⟩
  · rintro ⟨fits, -⟩
    have seen : [Except.ok 7] <+: ([] : List (Except String Nat)) := fits
    simp at seen
  · rintro ⟨fits, -⟩
    have seen : [Except.ok 1, .ok 2] <+: [Except.ok 1, .error "failed"] := fits
    simp at seen

end Firefly.Reactive
