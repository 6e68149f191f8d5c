import Firefly.Eda.Delivery
import Firefly.Eda.Listener
import Firefly.Shared.Runs

set_option autoImplicit false

namespace Firefly.Eda

open InMemory RoundRobin Runs

section Selection

variable {H : Type} {topic : String} {members : String → List (Subscription H)} {order : List String}
  {cursors : String × String → Option Usize} {sub : Subscription H} {broker next : InMemoryBroker H}
  {queue : List (Subscription H)}

theorem pickMembers_length : (pickMembers topic members cursors order).2.length ≤ order.length := by
  induction order generalizing cursors with
  | nil => rfl
  | cons group rest ih =>
    have later := @ih (Function.update cursors (topic, group) (some (cursorOf cursors topic group + 1)))
    simp only [pickMembers, List.length_append, List.length_cons]
    have one := Option.length_toList_le (o := (members group)[(cursorOf cursors topic group).toNat %
      (members group).length]?)
    omega

theorem mem_pickMembers (picked : sub ∈ (pickMembers topic members cursors order).2) :
    ∃ group, sub ∈ members group := by
  induction order generalizing cursors with
  | nil => simp [pickMembers] at picked
  | cons group rest ih =>
    rcases List.mem_append.mp picked with here | later
    · exact ⟨group, mem_of_mem_pick here⟩
    · exact ih later

theorem selectHandlers_known (selected : broker.selectHandlers topic order = .ok (next, queue)) :
    next.subscriptions = broker.subscriptions ∧ ∀ sub ∈ queue, sub ∈ broker.subscriptions := by
  obtain ⟨plain, members, -⟩ := matching_collected broker topic
  unfold InMemoryBroker.selectHandlers at selected
  split at selected
  · cases selected
  · obtain ⟨rfl, rfl⟩ := Prod.mk.inj (Except.ok.inj selected)
    refine ⟨rfl, fun sub among => ?_⟩
    rcases List.mem_append.mp among with own | grouped
    · rw [plain] at own
      exact List.mem_of_mem_filter own
    · obtain ⟨group, picked⟩ := mem_pickMembers grouped
      rw [members] at picked
      exact List.mem_of_mem_filter picked

theorem selectHandlers_length (groups : order.Perm (broker.matching topic).groups)
    (selected : broker.selectHandlers topic order = .ok (next, queue)) :
    queue.length ≤ broker.subscriptions.length := by
  have few := (matching_collected broker topic).few
  unfold InMemoryBroker.selectHandlers at selected
  split at selected
  · cases selected
  · obtain ⟨-, rfl⟩ := Prod.mk.inj (Except.ok.inj selected)
    calc ((broker.matching topic).toInvoke ++ _).length
        ≤ (broker.matching topic).toInvoke.length + order.length := by
          rw [List.length_append]
          exact Nat.add_le_add_left pickMembers_length _
      _ = (broker.matching topic).toInvoke.length + (broker.matching topic).groups.length := by
          rw [groups.length_eq]
      _ ≤ broker.subscriptions.length := few

end Selection

section Work

variable {subs : List (Subscription ListenerPolicy)} {event : Event} {frame dlq : Frame}

def tries (subs : List (Subscription ListenerPolicy)) : Nat := (subs.map (·.handler.retries)).sum + 1

theorem retries_lt_tries {sub : Subscription ListenerPolicy} (among : sub ∈ subs) :
    sub.handler.retries < tries subs := by
  have small := List.le_sum_of_mem (List.mem_map_of_mem (f := (·.handler.retries)) among)
  rw [tries]
  omega

def turn (subs : List (Subscription ListenerPolicy)) : Nat := tries subs * (subs.length + 1)

def work (subs : List (Subscription ListenerPolicy)) : List Frame → Nat
  | [frame] => frame.queue.length * turn subs - frame.attempt
  | [dlq, frame] =>
    (frame.queue.length - 1) * turn subs + (dlq.queue.length * tries subs - dlq.attempt)
  | _ => 0

structure Live (subs : List (Subscription ListenerPolicy)) (frame : Frame) : Prop where
  present : frame.queue ≠ []
  known : ∀ sub ∈ frame.queue, sub ∈ subs
  attempt : frame.attempt < tries subs

inductive Shape (subs : List (Subscription ListenerPolicy)) (event : Event) : List Frame → Prop
  | done : Shape subs event []
  | own {frame : Frame} (same : frame.event = event) (live : Live subs frame) :
      Shape subs event [frame]
  | letter {dlq frame : Frame} (same : frame.event = event) (live : Live subs frame)
      (above : Live subs dlq) : Shape subs event [dlq, frame]

theorem Live.next {sub : Subscription ListenerPolicy} {queue : List (Subscription ListenerPolicy)} (live : Live subs frame)
    (tail : frame.queue.tail = sub :: queue) :
    Live subs { frame with queue := sub :: queue, attempt := 0 } where
  present := by simp
  known := fun other among => live.known other (List.mem_of_mem_tail (tail ▸ among))
  attempt := by simp [tries]

theorem length_tail {sub : Subscription ListenerPolicy} {queue : List (Subscription ListenerPolicy)}
    (tail : frame.queue.tail = sub :: queue) : (sub :: queue).length = frame.queue.length - 1 := by
  rw [← tail, List.length_tail]

theorem turn_pos (subs : List (Subscription ListenerPolicy)) : tries subs ≤ turn subs :=
  Nat.le_mul_of_pos_right _ (Nat.succ_pos _)

theorem returnOk_own (same : frame.event = event) (live : Live subs frame) :
    Shape subs event (returnOk [frame]) ∧
      work subs (returnOk [frame]) ≤ (frame.queue.length - 1) * turn subs := by
  cases tail : frame.queue.tail with
  | nil =>
    have empty : returnOk [frame] = [] := by simp [returnOk, tail]
    rw [empty]
    exact ⟨.done, Nat.zero_le _⟩
  | cons sub queue =>
    have next : returnOk [frame] = [{ frame with queue := sub :: queue, attempt := 0 }] := by
      simp [returnOk, tail]
    rw [next]
    refine ⟨.own same (live.next tail), ?_⟩
    rw [work, length_tail tail]
    omega

theorem returnOk_letter (same : frame.event = event) (live : Live subs frame)
    (above : Live subs dlq) : Shape subs event (returnOk [dlq, frame]) ∧
      work subs (returnOk [dlq, frame]) ≤
        (frame.queue.length - 1) * turn subs + (dlq.queue.length - 1) * tries subs := by
  cases tail : dlq.queue.tail with
  | nil =>
    have empty : returnOk [dlq, frame] = returnOk [frame] := by simp [returnOk, tail]
    rw [empty]
    obtain ⟨shape, less⟩ := returnOk_own same live
    exact ⟨shape, by omega⟩
  | cons sub queue =>
    have next : returnOk [dlq, frame] =
        [{ dlq with queue := sub :: queue, attempt := 0 }, frame] := by
      simp [returnOk, tail]
    rw [next]
    refine ⟨.letter same live (above.next tail), ?_⟩
    rw [work, length_tail tail]
    omega

theorem work_own (live : Live subs frame) :
    (frame.queue.length - 1) * turn subs + turn subs - frame.attempt = work subs [frame] ∧
      frame.attempt < turn subs := by
  have some_left := List.length_pos_iff.mpr live.present
  obtain ⟨others, counted⟩ := Nat.exists_eq_add_of_le' some_left
  have enough := live.attempt.trans_le (turn_pos subs)
  refine ⟨?_, enough⟩
  rw [work, counted, Nat.add_sub_cancel, Nat.succ_mul]

theorem work_letter (frame : Frame) (above : Live subs dlq) :
    (frame.queue.length - 1) * turn subs +
        ((dlq.queue.length - 1) * tries subs + tries subs - dlq.attempt) = work subs [dlq, frame] := by
  have some_left := List.length_pos_iff.mpr above.present
  obtain ⟨others, counted⟩ := Nat.exists_eq_add_of_le' some_left
  rw [work, counted, Nat.add_sub_cancel, Nat.succ_mul]

theorem Shape.returnOk {stack : List Frame} (shape : Shape subs event stack) (busy : stack ≠ []) :
    Shape subs event (returnOk stack) ∧ work subs (returnOk stack) < work subs stack := by
  cases shape with
  | done => exact absurd rfl busy
  | own same live =>
    obtain ⟨shape, less⟩ := returnOk_own same live
    obtain ⟨left, enough⟩ := work_own live
    exact ⟨shape, by omega⟩
  | @letter dlq frame same live above =>
    obtain ⟨shape, less⟩ := returnOk_letter same live above
    have left : _ = work subs [dlq, frame] := work_letter _ above
    have tried := above.attempt
    exact ⟨shape, by omega⟩

theorem Live.retry (live : Live subs frame) {sub : Subscription ListenerPolicy} {queue : List (Subscription ListenerPolicy)}
    (head : frame.queue = sub :: queue) (again : frame.attempt < sub.handler.retries) :
    Live subs { frame with attempt := frame.attempt + 1 } where
  present := live.present
  known := live.known
  attempt := by
    have bound := retries_lt_tries (live.known sub (head ▸ List.mem_cons_self))
    show frame.attempt + 1 < tries subs
    omega

theorem Shape.retry {rest : List Frame} (shape : Shape subs event (frame :: rest))
    {sub : Subscription ListenerPolicy} {queue : List (Subscription ListenerPolicy)} (head : frame.queue = sub :: queue)
    (again : frame.attempt < sub.handler.retries) :
    Shape subs event ({ frame with attempt := frame.attempt + 1 } :: rest) ∧
      work subs ({ frame with attempt := frame.attempt + 1 } :: rest) < work subs (frame :: rest) := by
  cases shape with
  | own same live =>
    have live' := live.retry head again
    obtain ⟨left, enough⟩ := work_own live
    obtain ⟨left', enough'⟩ := work_own live'
    refine ⟨.own same live', ?_⟩
    rw [← left, ← left']
    show (frame.queue.length - 1) * turn subs + turn subs - (frame.attempt + 1) < _
    omega
  | @letter _ below same live above =>
    have above' := above.retry head again
    have left := work_letter below above
    have left' := work_letter below above'
    have tried := above.attempt
    refine ⟨.letter same live above', ?_⟩
    rw [← left, ← left']
    show _ + ((frame.queue.length - 1) * tries subs + tries subs - (frame.attempt + 1)) < _
    omega

end Work

section Steps

variable {subs : List (Subscription ListenerPolicy)} {event : Event} {s s' : State}

structure Settled (subs : List (Subscription ListenerPolicy)) (event : Event) (s : State) : Prop where
  subscriptions : s.broker.subscriptions = subs
  names : NamesFirst event s
  shape : Shape subs event s.stack

theorem names_letter (original : Event) (topic code : String) :
    (deadLetterEvent original topic code).headers[HEADER_ORIGINAL_TOPIC]? = some original.topic := by
  have apart : ¬ compare HEADER_EXCEPTION HEADER_ORIGINAL_TOPIC = .eq := by decide
  rw [deadLetterEvent, Std.TreeMap.getElem?_insert, if_neg apart, Std.TreeMap.getElem?_insert_self]

@[simp] theorem capture_broker (sub : Subscription ListenerPolicy) (frame : Frame) (err : FireflyError) :
    (s.capture sub frame err).broker = s.broker := by
  unfold State.capture
  split <;> rfl

@[simp] theorem capture_stack (sub : Subscription ListenerPolicy) (frame : Frame) (err : FireflyError) :
    (s.capture sub frame err).stack = s.stack := by
  unfold State.capture
  split <;> rfl

@[simp] theorem capture_routed (sub : Subscription ListenerPolicy) (frame : Frame) (err : FireflyError) :
    (s.capture sub frame err).routed = s.routed := by
  unfold State.capture
  split <;> rfl

theorem publish_letter {frame : Frame} (known : s.broker.subscriptions = subs)
    (stack : s.stack = [frame]) (same : frame.event = event) (live : Live subs frame)
    (dlq : Event) {order : List String} (groups : order.Perm (s.broker.matching dlq.topic).groups) :
    Shape subs event (s.publish dlq order).stack ∧
      work subs (s.publish dlq order).stack < work subs [frame] := by
  obtain ⟨left, enough⟩ := work_own live
  cases selected : s.broker.selectHandlers dlq.topic order with
  | error err =>
    have stack' : (s.publish dlq order).stack = [] := by simp [State.publish, selected]
    rw [stack']
    refine ⟨.done, ?_⟩
    show 0 < _
    omega
  | ok chosen =>
    obtain ⟨next, queue⟩ := chosen
    have few := selectHandlers_length groups selected
    have among := (selectHandlers_known selected).2
    rw [known] at few among
    cases queue with
    | nil =>
      have stack' : (s.publish dlq order).stack = returnOk [frame] := by
        simp [State.publish, State.proceed, selected, stack]
      rw [stack']
      obtain ⟨shape, less⟩ := returnOk_own same live
      exact ⟨shape, by omega⟩
    | cons sub queue =>
      have stack' : (s.publish dlq order).stack =
          [{ event := dlq, queue := sub :: queue, attempt := 0 }, frame] := by
        simp [State.publish, State.proceed, selected, stack]
      have above : Live subs { event := dlq, queue := sub :: queue, attempt := 0 } :=
        ⟨by simp, among, by simp [tries]⟩
      rw [stack']
      refine ⟨.letter same live above, ?_⟩
      have turns : (sub :: queue).length * tries subs ≤ subs.length * tries subs :=
        Nat.mul_le_mul_right _ few
      have whole : turn subs = subs.length * tries subs + tries subs := by
        rw [turn, Nat.mul_succ, Nat.mul_comm]
      have tried := live.attempt
      show (frame.queue.length - 1) * turn subs + ((sub :: queue).length * tries subs - 0) < _
      omega

theorem publish_keeps (dlq : Event) (order : List String) :
    (s.publish dlq order).broker.subscriptions = s.broker.subscriptions ∧
      (s.publish dlq order).routed = s.routed := by
  unfold State.publish
  split
  next => exact ⟨rfl, rfl⟩
  next broker queue selected => exact ⟨(selectHandlers_known selected).1, rfl⟩

theorem Settled.proceed (settled : Settled subs event s) {stack : List Frame}
    (shape : Shape subs event stack) : Settled subs event (s.proceed stack) :=
  ⟨settled.subscriptions, settled.names, shape⟩

-- A step under the condition keeps the shape of the stack and leaves less to do.
theorem Settled.step {choice : Choice} (settled : Settled subs event s)
    (first : FirstOnly s choice) (stepped : step s choice = some s') :
    Settled subs event s' ∧ work subs s'.stack < work subs s.stack := by
  have shape := settled.shape
  unfold Eda.step at stepped
  split at stepped
  next => cases stepped
  next frame rest stack =>
    split at stepped
    next => cases stepped
    next sub queue head =>
      have busy : s.stack ≠ [] := by simp [stack]
      split at stepped
      next =>
        obtain rfl := Option.some.inj stepped
        obtain ⟨shape', less⟩ := shape.returnOk busy
        exact ⟨settled.proceed shape', less⟩
      next err outcome =>
        split at stepped
        next again =>
          obtain rfl := Option.some.inj stepped
          rw [stack] at shape
          obtain ⟨shape', less⟩ := shape.retry head again
          exact ⟨⟨settled.subscriptions, settled.names, shape'⟩, by rw [stack]; exact less⟩
        next exhausted =>
          unfold exhaust at stepped
          dsimp only at stepped
          split at stepped
          next topic routes =>
            split at stepped
            next groups =>
              obtain rfl := Option.some.inj stepped
              -- the condition: this is the event itself
              have own : s.stack.length = 1 := by
                apply first
                unfold deadLetterOf
                cases frame
                subst head
                simp [stack, outcome, exhausted, routes]
              obtain rfl : rest = [] := by simpa [stack] using own
              rw [stack] at shape ⊢
              cases shape with
              | own same live =>
                obtain ⟨shape', less⟩ := publish_letter
                  (s := { s.capture sub frame err with
                    routed := (s.capture sub frame err).routed ++
                      [deadLetterEvent frame.event topic err.code] })
                  (by simpa using settled.subscriptions) (by simpa using stack) same live
                  (deadLetterEvent frame.event topic err.code) groups
                refine ⟨⟨by simpa [publish_keeps] using settled.subscriptions, ?_, shape'⟩, less⟩
                intro dlq among
                have among' : dlq ∈ s.routed ++ [deadLetterEvent frame.event topic err.code] := by
                  simpa [publish_keeps] using among
                rcases List.mem_append.mp among' with earlier | now
                · exact settled.names dlq earlier
                · obtain rfl := List.mem_singleton.mp now
                  rw [names_letter, same]
            next => cases stepped
          next =>
            split at stepped
            next =>
              obtain rfl := Option.some.inj stepped
              obtain ⟨shape', less⟩ := shape.returnOk busy
              rw [capture_stack]
              exact ⟨⟨by simpa [State.proceed] using settled.subscriptions, by
                simpa [State.proceed, NamesFirst] using settled.names, shape'⟩, less⟩
            next =>
              obtain rfl := Option.some.inj stepped
              refine ⟨⟨by simpa using settled.subscriptions, by
                simpa [NamesFirst] using settled.names, .done⟩, ?_⟩
              have less := (shape.returnOk busy).2
              show 0 < work subs s.stack
              omega

theorem start_settled (broker : InMemoryBroker ListenerPolicy) (event : Event) (order : List String) :
    Settled broker.subscriptions event (start broker event order) := by
  refine ⟨(publish_keeps event order).1, by simp [NamesFirst, start, publish_keeps], ?_⟩
  unfold start State.publish
  dsimp only
  split
  next => exact .done
  next next queue selected =>
    cases queue with
    | nil => exact .done
    | cons sub queue =>
      exact .own rfl ⟨by simp, (selectHandlers_known selected).2, by simp [tries]⟩

end Steps

theorem dead_lettering_terminates (broker : InMemoryBroker ListenerPolicy) (event : Event) (order : List String) :
    ∃ limit, ∀ choices, Along step FirstOnly (start broker event order) choices →
      Always step (NamesFirst event) (start broker event order) choices ∧
      ∀ s', run step (start broker event order) choices = some s' → choices.length ≤ limit := by
  have initial := start_settled broker event order
  refine ⟨work broker.subscriptions (start broker event order).stack, fun choices along => ?_⟩
  constructor
  · have always := along.always (Settled broker.subscriptions event)
      (fun s choice s' first settled stepped => (settled.step first stepped).1) initial
    exact always.mono fun s settled => settled.names
  · intro s' ran
    exact along.length_le (Settled broker.subscriptions event)
      (fun s => work broker.subscriptions s.stack)
      (fun s choice s' first settled stepped => settled.step first stepped) initial ran

def orderListener (matcher : String → Bool) : Subscription ListenerPolicy where
  matcher
  group := none
  handler := { retries := 0, deadLetterTopic := some "orders.DLT", deadLetterStore := false }

def orderBroker (matcher : String → Bool) : InMemoryBroker ListenerPolicy where
  subscriptions := [orderListener matcher]
  groupCursors := fun _ => none
  closed := false

def created : Event where
  id := "e1"
  eventType := "OrderCreated"
  source := "orders"
  topic := "orders.created"
  correlationId := ""
  headers := ∅
  payload := none
  key := none

def boom : Choice where
  outcome := .error { code := "INTERNAL", detail := "boom" }
  order := []

theorem dead_lettering_terminates_exact : Always step (NamesFirst created)
    (start (orderBroker (· == "orders.created")) created []) [boom] := by
  obtain ⟨limit, terminates⟩ :=
    dead_lettering_terminates (orderBroker (· == "orders.created")) created []
  refine (terminates [boom] ⟨fun _ => ?_, fun _ _ => trivial⟩).1
  rfl

def everyOrder (topic : String) : Bool := "orders.".toList.isPrefixOf topic.toList

def Endless (s : State) : Prop :=
  s.broker.subscriptions = [orderListener everyOrder] ∧ s.broker.closed = false ∧
    ∃ event rest, s.stack = { event, queue := [orderListener everyOrder], attempt := 0 } :: rest

theorem endless_step {s : State} (endless : Endless s) :
    ∃ s', step s boom = some s' ∧ Endless s' := by
  obtain ⟨known, opened, event, rest, stack⟩ := endless
  have matching : s.broker.matching "orders.DLT" =
      { Matches.new with toInvoke := [orderListener everyOrder] } := by
    rw [InMemoryBroker.matching, known]
    rfl
  have selected : s.broker.selectHandlers "orders.DLT" [] =
      .ok (s.broker, [orderListener everyOrder]) := by
    rw [InMemoryBroker.selectHandlers, if_neg (by simp [opened]), matching]
    rfl
  let dlq := deadLetterEvent event "orders.DLT" "INTERNAL"
  refine ⟨{ s with routed := s.routed ++ [dlq] }.publish dlq [], ?_, ?_⟩
  · simp [step, stack, boom, orderListener, exhaust, State.capture, matching, Matches.new, dlq]
  · have published : { s with routed := s.routed ++ [dlq] }.publish dlq [] =
        { s with routed := s.routed ++ [dlq] }.proceed
          ({ event := dlq, queue := [orderListener everyOrder], attempt := 0 } :: s.stack) := by
      simp [State.publish, State.proceed, dlq, deadLetterEvent, selected]
    rw [published]
    exact ⟨known, opened, dlq, s.stack, rfl⟩

theorem dead_letters_recurse :
    (∀ limit, ∃ choices s', run step (start (orderBroker everyOrder) created []) choices = some s' ∧
      limit < choices.length) ∧
    ¬ Always step (NamesFirst created) (start (orderBroker everyOrder) created []) [boom, boom] := by
  constructor
  · intro limit
    have further : ∀ count, ∃ s', run step (start (orderBroker everyOrder) created [])
        (List.replicate count boom) = some s' ∧ Endless s' := by
      intro count
      induction count with
      | zero => exact ⟨_, rfl, rfl, rfl, created, [], rfl⟩
      | succ count ih =>
        obtain ⟨s, ran, endless⟩ := ih
        obtain ⟨s', stepped, endless'⟩ := endless_step endless
        refine ⟨s', ?_, endless'⟩
        rw [List.replicate_succ', run_concat, ran]
        exact stepped
    obtain ⟨s', ran, -⟩ := further (limit + 1)
    exact ⟨_, s', ran, by simp⟩
  · intro always
    let dlq := deadLetterEvent created "orders.DLT" "INTERNAL"
    obtain ⟨s, ran, routed⟩ : ∃ s, run step (start (orderBroker everyOrder) created [])
        [boom, boom] = some s ∧ s.routed = [dlq, deadLetterEvent dlq "orders.DLT" "INTERNAL"] :=
      ⟨_, rfl, rfl⟩
    have named := always _ [] (List.append_nil _).symm s ran
      (deadLetterEvent dlq "orders.DLT" "INTERNAL") (by simp [routed])
    rw [names_letter] at named
    simp [dlq, deadLetterEvent, created] at named

end Firefly.Eda
