import Firefly.Eda.Broker
import Firefly.Shared.RoundRobin

set_option autoImplicit false

namespace Firefly.Eda.InMemory

open RoundRobin

variable {H : Type}

section Matching

variable {topic group : String} {sub : Subscription H} {subs : List (Subscription H)}
  {found : Matches H} {broker : InMemoryBroker H}

def ungrouped (topic : String) (subs : List (Subscription H)) : List (Subscription H) :=
  subs.filter fun sub => sub.matcher topic ∧ sub.group = none

def membersOf (topic group : String) (subs : List (Subscription H)) : List (Subscription H) :=
  subs.filter fun sub => sub.matcher topic ∧ sub.group = some group

structure Collected (topic : String) (subs : List (Subscription H)) (found : Matches H) : Prop where
  plain : found.toInvoke = ungrouped topic subs
  members : ∀ group, found.groupMatches group = membersOf topic group subs
  groups : ∀ group, group ∈ found.groups ↔ membersOf topic group subs ≠ []
  distinct : found.groups.Nodup
  few : found.toInvoke.length + found.groups.length ≤ subs.length

theorem Collected.note (collected : Collected topic subs found) (sub : Subscription H) :
    Collected topic (subs ++ [sub]) (found.note topic sub) := by
  obtain ⟨plain, members, groups, distinct, few⟩ := collected
  unfold Matches.note
  cases hit : sub.matcher topic with
  | false => exact ⟨by simp [plain, ungrouped, hit], by simp [members, membersOf, hit],
      by simp [groups, membersOf, hit], distinct,
      by simpa using few.trans (Nat.le_succ _)⟩
  | true =>
    cases grouped : sub.group with
    | none =>
      exact ⟨by simp [plain, ungrouped, hit, grouped], by simp [members, membersOf, grouped],
        by simp [groups, membersOf, grouped], distinct, by simp; omega⟩
    | some own =>
      refine ⟨by simp [plain, ungrouped, grouped], fun group => ?_, fun group => ?_, ?_, ?_⟩
      · by_cases same : group = own
        · simp [same, members, membersOf, hit, grouped]
        · simp [same, members, membersOf, grouped, Ne.symm same]
      · by_cases same : group = own
        · by_cases known : own ∈ found.groups <;> simp [same, known, membersOf, hit, grouped]
        · by_cases known : own ∈ found.groups <;>
            simpa [same, known, membersOf, grouped, Ne.symm same] using groups group
      · by_cases known : own ∈ found.groups
        · simpa [known] using distinct
        · simp only [Bool.not_true, Bool.false_eq_true, if_false, known]
          exact List.nodup_append.mpr ⟨distinct, by simp, by grind⟩
      · by_cases known : own ∈ found.groups <;> simp [known] <;> omega

theorem matching_collected (broker : InMemoryBroker H) (topic : String) :
    Collected topic broker.subscriptions (broker.matching topic) := by
  have all : ∀ (rest : List (Subscription H)) {seen found}, Collected topic seen found →
      Collected topic (seen ++ rest) (rest.foldl (Matches.note topic) found) := by
    intro rest
    induction rest with
    | nil => intro seen found collected; simpa using collected
    | cons sub rest ih =>
      intro seen found collected
      simpa using ih (collected.note sub)
  have none_yet : Collected topic [] (Matches.new : Matches H) :=
    ⟨rfl, fun _ => rfl, fun _ => by simp [Matches.new, membersOf], List.nodup_nil,
      le_rfl⟩
  exact all broker.subscriptions none_yet

theorem group_of_mem (among : sub ∈ membersOf topic group subs) : sub.group = some group := by
  have kept : sub.matcher topic = true ∧ sub.group = some group := by
    simpa using (List.mem_filter.mp among).2
  exact kept.2

end Matching

section Picking

variable {topic group : String} {members : String → List (Subscription H)} {order : List String}
  {cursors : String × String → Option Usize}

theorem cursorOf_pickMembers (once : order.Nodup) (other : String) (group : String) :
    cursorOf (pickMembers topic members cursors order).1 other group =
      if other = topic ∧ group ∈ order then cursorOf cursors topic group + 1
      else cursorOf cursors other group := by
  induction order generalizing cursors with
  | nil => simp [pickMembers]
  | cons first rest ih =>
    obtain ⟨fresh, once⟩ := List.nodup_cons.mp once
    simp only [pickMembers, ih once, List.mem_cons]
    by_cases own : other = topic
    · by_cases same : group = first
      · simp [own, same, fresh, cursorOf]
      · simp [own, same, cursorOf]
    · simp [own, cursorOf]

theorem pickMembers_share (once : order.Nodup)
    (own : ∀ group, ∀ sub ∈ members group, sub.group = some group) (group : String) :
    (pickMembers topic members cursors order).2.filter (fun sub => sub.group = some group) =
      if group ∈ order then pick (members group) (cursorOf cursors topic group).toNat else [] := by
  induction order generalizing cursors with
  | nil => simp [pickMembers]
  | cons first rest ih =>
    obtain ⟨fresh, once⟩ := List.nodup_cons.mp once
    have mine : ∀ sub ∈ pick (members first) (cursorOf cursors topic first).toNat,
        sub.group = some first := fun sub picked => own first sub (mem_of_mem_pick picked)
    simp only [pickMembers, List.filter_append, ih once]
    change (pick (members first) _).filter _ ++ _ = _
    by_cases same : group = first
    · have all := List.filter_eq_self.mpr fun sub picked => decide_eq_true (mine sub picked)
      simp [same, fresh, all]
    · have nobody : (pick (members first) (cursorOf cursors topic first).toNat).filter
          (fun sub => sub.group = some group) = [] :=
        List.filter_eq_nil_iff.mpr fun sub picked => by simp [mine sub picked, Ne.symm same]
      rw [nobody]
      simp [same, cursorOf]

theorem pickMembers_grouped (own : ∀ group, ∀ sub ∈ members group, sub.group = some group) :
    (pickMembers topic members cursors order).2.filter (fun sub => sub.group = none) = [] := by
  induction order generalizing cursors with
  | nil => rfl
  | cons first rest ih =>
    have nobody : (pick (members first) (cursorOf cursors topic first).toNat).filter
        (fun sub => sub.group = none) = [] :=
      List.filter_eq_nil_iff.mpr fun sub picked => by simp [own first sub (mem_of_mem_pick picked)]
    simp only [pickMembers, List.filter_append, ih, List.append_nil]
    exact nobody

end Picking

section Calls

variable {glob : String → Except String (String → Bool)}
  {invoke : H → Event → Except FireflyError Unit} {broker next : InMemoryBroker H} {call : Call H}
  {reply : Reply H} {event : Event} {order : List String}

def InMemoryBroker.members (broker : InMemoryBroker H) (topic group : String) : List (Subscription H) :=
  membersOf topic group broker.subscriptions

def InMemoryBroker.cursor (broker : InMemoryBroker H) (topic group : String) : Usize :=
  cursorOf broker.groupCursors topic group

def Reply.share (reply : Reply H) (group : Option String) : List (Subscription H) :=
  reply.ran.filter fun sub => sub.group = group

theorem dispatch_succeed (succeed : ∀ handler event, invoke handler event = .ok ()) (event : Event)
    (toInvoke : List (Subscription H)) :
    dispatch invoke event toInvoke = { ran := toInvoke, result := .ok () } := by
  induction toInvoke with
  | nil => rfl
  | cons sub rest ih => simp [dispatch, succeed, ih]

structure Published (broker : InMemoryBroker H) (topic : String) (next : InMemoryBroker H)
    (reply : Reply H) : Prop where
  result : reply.result = .ok ()
  plain : reply.share none = ungrouped topic broker.subscriptions
  grouped : ∀ group, reply.share (some group) =
    pick (broker.members topic group) (broker.cursor topic group).toNat
  subscriptions : next.subscriptions = broker.subscriptions
  closed : next.closed = broker.closed
  cursors : ∀ other group, next.cursor other group =
    if other = topic ∧ broker.members topic group ≠ [] then broker.cursor topic group + 1
    else broker.cursor other group

theorem publish_open (succeed : ∀ handler event, invoke handler event = .ok ())
    (opened : broker.closed = false) (all : order.Perm (broker.matching event.topic).groups) :
    Published broker event.topic (broker.publish invoke event order).1
      (broker.publish invoke event order).2 := by
  obtain ⟨plain, members, groups, distinct, -⟩ := matching_collected broker event.topic
  have once : order.Nodup := all.nodup_iff.mpr distinct
  have own : ∀ group, ∀ sub ∈ (broker.matching event.topic).groupMatches group,
      sub.group = some group := by
    intro group sub among
    rw [members] at among
    exact group_of_mem among
  have listed : ∀ group, group ∈ order ↔ broker.members event.topic group ≠ [] :=
    fun group => all.mem_iff.trans (groups group)
  have plain_only : ∀ group, (ungrouped event.topic broker.subscriptions).filter
      (fun sub => sub.group = some group) = [] := by
    intro group
    refine List.filter_eq_nil_iff.mpr fun sub kept => ?_
    have none_here : sub.matcher event.topic = true ∧ sub.group = none := by
      simpa using (List.mem_filter.mp kept).2
    simp [none_here.2]
  have plain_all : (ungrouped event.topic broker.subscriptions).filter
      (fun sub => sub.group = none) = ungrouped event.topic broker.subscriptions := by
    refine List.filter_eq_self.mpr fun sub kept => ?_
    have none_here : sub.matcher event.topic = true ∧ sub.group = none := by
      simpa using (List.mem_filter.mp kept).2
    simp [none_here.2]
  simp only [InMemoryBroker.publish, InMemoryBroker.selectHandlers, opened, Bool.false_eq_true,
    if_false, dispatch_succeed succeed]
  refine ⟨rfl, ?_, fun group => ?_, rfl, opened ▸ rfl, fun other group => ?_⟩
  · rw [Reply.share, List.filter_append, plain, plain_all, pickMembers_grouped own, List.append_nil]
  · rw [Reply.share, List.filter_append, plain, plain_only, pickMembers_share once own, members,
      List.nil_append]
    split
    · rfl
    · rename_i unlisted
      have nobody : broker.members event.topic group = [] := not_not.mp (mt (listed group).mpr unlisted)
      rw [nobody, pick_nil]
  · exact (cursorOf_pickMembers once other group).trans
      (if_congr (and_congr_right fun _ => listed group) rfl rfl)

-- A closed broker has no subscription left.
def Tidy (broker : InMemoryBroker H) : Prop := broker.closed = true → broker.subscriptions = []

theorem publish_closed (closed : broker.closed = true) (event : Event) (order : List String) :
    broker.publish invoke event order = (broker, { ran := [], result := .error .closed }) := by
  simp [InMemoryBroker.publish, InMemoryBroker.selectHandlers, closed]

theorem Tidy.members (tidy : Tidy broker) (closed : broker.closed = true) (topic group : String) :
    broker.members topic group = [] := by
  simp [InMemoryBroker.members, membersOf, tidy closed]

variable (glob) in
theorem addSubscription_keeps (broker : InMemoryBroker H) (topic : String) (group : Option String)
    (handler : H) :
    (broker.addSubscription glob topic group handler).1.groupCursors = broker.groupCursors ∧
      (broker.addSubscription glob topic group handler).1.closed = broker.closed ∧
      (broker.closed = true →
        (broker.addSubscription glob topic group handler).1.subscriptions = broker.subscriptions) := by
  rw [InMemoryBroker.addSubscription]
  split
  · exact ⟨rfl, rfl, fun _ => rfl⟩
  · split
    · exact ⟨rfl, rfl, fun _ => rfl⟩
    · rename_i opened
      exact ⟨rfl, rfl, fun closed => absurd closed opened⟩

theorem Tidy.answer (succeed : ∀ handler event, invoke handler event = .ok ()) (tidy : Tidy broker)
    (answered : broker.answer glob invoke call = some (next, reply)) : Tidy next := by
  cases call with
  | subscribe topic handler =>
    obtain ⟨-, closed, subscriptions⟩ := addSubscription_keeps glob broker topic none handler
    obtain ⟨rfl, -⟩ := Prod.ext_iff.mp (Option.some.inj answered)
    exact fun now => (subscriptions (closed ▸ now)).trans (tidy (closed ▸ now))
  | subscribeGroup topic group handler =>
    obtain ⟨-, closed, subscriptions⟩ :=
      addSubscription_keeps glob broker topic (some group) handler
    obtain ⟨rfl, -⟩ := Prod.ext_iff.mp (Option.some.inj answered)
    exact fun now => (subscriptions (closed ▸ now)).trans (tidy (closed ▸ now))
  | publish event order =>
    simp only [InMemoryBroker.answer, Option.ite_none_right_eq_some] at answered
    obtain ⟨all, answered⟩ := answered
    obtain ⟨rfl, -⟩ := Prod.ext_iff.mp (Option.some.inj answered)
    intro now
    cases closed : broker.closed with
    | true => simpa [publish_closed closed] using tidy closed
    | false => simp [(publish_open succeed closed all).closed, closed] at now
  | close =>
    obtain ⟨rfl, -⟩ := Prod.ext_iff.mp (Option.some.inj answered)
    exact fun _ => rfl

end Calls

section Runs

variable (glob : String → Except String (String → Bool))

def Call.publishesTo (topic : String) : Call H → Bool
  | .publish event _ => event.topic = topic
  | _ => false

def Entry.share (topic group : String) (entry : Entry H) : List (Subscription H) :=
  if entry.call.publishesTo topic then entry.reply.share (some group) else []

def Entry.Delivered (entry : Entry H) : Prop :=
  ∀ event order, entry.call = .publish event order → entry.before.closed = false →
    entry.reply.result = .ok () ∧
    entry.reply.share none = ungrouped event.topic entry.before.subscriptions ∧
    ∀ group, (entry.before.members event.topic group = [] → entry.reply.share (some group) = []) ∧
      (entry.before.members event.topic group ≠ [] →
        ∃ member ∈ entry.before.members event.topic group, entry.reply.share (some group) = [member])

def Fair (log : List (Entry H)) : Prop :=
  ∀ earlier window later, log = earlier ++ window ++ later → ∀ topic group members,
    (∀ entry ∈ window, entry.before.members topic group = members) →
    window.countP (fun entry => entry.call.publishesTo topic) = members.length →
    (window.flatMap (Entry.share topic group)).Perm members

def ClosedAfter (log : List (Entry H)) : Prop :=
  ∀ earlier closing later, log = earlier ++ closing :: later → closing.call = .close →
    ∀ entry ∈ later, entry.call ≠ .close →
      entry.reply.result = .error .closed ∧ entry.reply.ran = []

structure Delivers (log : List (Entry H)) : Prop where
  delivered : ∀ entry ∈ log, entry.Delivered
  fair : Fair log
  closed : ClosedAfter log

/-- Once the broker is closed only patterns that compile are subscribed to, and a cursor only wraps
around where the members of the group divide its range. -/
def Allowed (broker : InMemoryBroker H) : Call H → Prop
  | .subscribe topic _ | .subscribeGroup topic _ _ =>
    broker.closed = true → ∃ matcher, glob topic = .ok matcher
  | .publish event _ => ∀ group, (broker.cursor event.topic group).toNat = 2 ^ 64 - 1 →
      (broker.members event.topic group).length ∣ 2 ^ 64
  | .close => True

variable {glob} {invoke : H → Event → Except FireflyError Unit} {broker next : InMemoryBroker H}
  {call : Call H} {calls : List (Call H)} {reply : Reply H} {log earlier later : List (Entry H)}
  {topic group : String} {members : List (Subscription H)}

theorem serve_cons (served : broker.serve glob invoke (call :: calls) = some log) :
    ∃ next reply rest, broker.answer glob invoke call = some (next, reply) ∧
      next.serve glob invoke calls = some rest ∧ log = ⟨broker, call, reply⟩ :: rest := by
  obtain ⟨⟨next, reply⟩, answered, continued⟩ := Option.bind_eq_some_iff.mp served
  obtain ⟨rest, rest_served, rfl⟩ := Option.map_eq_some_iff.mp continued
  exact ⟨next, reply, rest, answered, rest_served, rfl⟩

theorem serve_before {entry : Entry H} (served : broker.serve glob invoke calls = some (entry :: log)) :
    entry.before = broker := by
  cases calls with
  | nil => simp [InMemoryBroker.serve] at served
  | cons call calls =>
    obtain ⟨_, _, _, _, _, split⟩ := serve_cons served
    rw [(List.cons.inj split).1]

theorem serve_prefix (served : broker.serve glob invoke calls = some (earlier ++ later)) :
    ∃ first, broker.serve glob invoke first = some earlier := by
  induction earlier generalizing broker calls with
  | nil => exact ⟨[], rfl⟩
  | cons entry earlier ih =>
    cases calls with
    | nil => simp [InMemoryBroker.serve] at served
    | cons call calls =>
      obtain ⟨next, reply, rest, answered, rest_served, split⟩ := serve_cons served
      obtain ⟨rfl, rfl⟩ := List.cons.inj split
      obtain ⟨first, first_served⟩ := ih rest_served
      exact ⟨call :: first, by simp [InMemoryBroker.serve, answered, first_served]⟩

section Succeeding

variable (succeed : ∀ handler event, invoke handler event = .ok ())
include succeed

theorem serve_suffix (tidy : Tidy broker)
    (served : broker.serve glob invoke calls = some (earlier ++ later)) :
    ∃ mid rest, Tidy mid ∧ mid.serve glob invoke rest = some later := by
  induction earlier generalizing broker calls with
  | nil => exact ⟨broker, calls, tidy, served⟩
  | cons entry earlier ih =>
    cases calls with
    | nil => simp [InMemoryBroker.serve] at served
    | cons call calls =>
      obtain ⟨next, reply, rest, answered, rest_served, split⟩ := serve_cons served
      obtain ⟨rfl, rfl⟩ := List.cons.inj split
      exact ih (tidy.answer succeed answered) rest_served

theorem answer_share (tidy : Tidy broker)
    (answered : broker.answer glob invoke call = some (next, reply)) (topic group : String) :
    Entry.share topic group ⟨broker, call, reply⟩ =
      if call.publishesTo topic then
        pick (broker.members topic group) (broker.cursor topic group).toNat
      else [] := by
  cases call with
  | publish event order =>
    simp only [InMemoryBroker.answer, Option.ite_none_right_eq_some] at answered
    obtain ⟨all, answered⟩ := answered
    obtain ⟨-, rfl⟩ := Prod.ext_iff.mp (Option.some.inj answered)
    by_cases same : event.topic = topic
    · subst same
      cases closed : broker.closed with
      | true => simp [Entry.share, publish_closed closed, Reply.share, tidy.members closed]
      | false => simp [Entry.share, Call.publishesTo, (publish_open succeed closed all).grouped]
    · simp [Entry.share, Call.publishesTo, same]
  | _ => rfl

theorem answer_cursor (tidy : Tidy broker)
    (answered : broker.answer glob invoke call = some (next, reply)) (open_still : call ≠ .close)
    (allowed : Allowed glob broker call) (some_member : broker.members topic group ≠ []) :
    (next.cursor topic group).toNat ≡
      (broker.cursor topic group).toNat + (if call.publishesTo topic then 1 else 0)
        [MOD (broker.members topic group).length] := by
  cases call with
  | subscribe pattern handler =>
    obtain ⟨cursors, -⟩ := addSubscription_keeps glob broker pattern none handler
    obtain ⟨rfl, -⟩ := Prod.ext_iff.mp (Option.some.inj answered)
    simp [InMemoryBroker.cursor, cursors, Call.publishesTo, Nat.ModEq.refl]
  | subscribeGroup pattern own handler =>
    obtain ⟨cursors, -⟩ := addSubscription_keeps glob broker pattern (some own) handler
    obtain ⟨rfl, -⟩ := Prod.ext_iff.mp (Option.some.inj answered)
    simp [InMemoryBroker.cursor, cursors, Call.publishesTo, Nat.ModEq.refl]
  | publish event order =>
    simp only [InMemoryBroker.answer, Option.ite_none_right_eq_some] at answered
    obtain ⟨all, answered⟩ := answered
    obtain ⟨rfl, -⟩ := Prod.ext_iff.mp (Option.some.inj answered)
    have opened : broker.closed = false := by
      by_contra closed
      exact some_member (tidy.members (by simpa using closed) topic group)
    rw [(publish_open succeed opened all).cursors]
    by_cases same : event.topic = topic
    · subst same
      simp only [some_member, ne_eq, not_false_eq_true, and_self, if_true, Call.publishesTo,
        decide_true]
      by_cases top : (broker.cursor event.topic group).toNat = 2 ^ 64 - 1
      · -- The cursor starts again from zero, which is as good as `2 ^ 64` here.
        have wrapped : (broker.cursor event.topic group + 1).toNat = 0 := by
          rw [UInt64.toNat_add, top]
          rfl
        rw [wrapped, top]
        exact ((Nat.modEq_zero_iff_dvd.mpr (allowed group top))).symm
      · have below := (broker.cursor event.topic group).toNat_lt
        rw [UInt64.toNat_add, UInt64.toNat_one, Nat.mod_eq_of_lt (by omega)]
    · simp [same, Ne.symm same, Call.publishesTo, Nat.ModEq.refl]
  | close => exact absurd rfl open_still

theorem window_share (tidy : Tidy broker) (served : broker.serve glob invoke calls = some log)
    (allowed : ∀ entry ∈ log, Allowed glob entry.before entry.call)
    (same : ∀ entry ∈ log, entry.before.members topic group = members) :
    log.flatMap (Entry.share topic group) =
      picks members (broker.cursor topic group).toNat
        (log.countP fun entry => entry.call.publishesTo topic) := by
  induction calls generalizing broker log with
  | nil =>
    obtain rfl : [] = log := Option.some.inj served
    rfl
  | cons call calls ih =>
    obtain ⟨next, reply, rest, answered, rest_served, rfl⟩ := serve_cons served
    have here : broker.members topic group = members := same _ List.mem_cons_self
    have tidy_next := tidy.answer succeed answered
    have later := ih tidy_next rest_served (fun entry among => allowed entry (by simp [among]))
      (fun entry among => same entry (by simp [among]))
    have turns : picks members (next.cursor topic group).toNat
          (rest.countP fun entry => entry.call.publishesTo topic) =
        picks members ((broker.cursor topic group).toNat + if call.publishesTo topic then 1 else 0)
          (rest.countP fun entry => entry.call.publishesTo topic) := by
      by_cases nobody : members = []
      · simp [nobody]
      · by_cases closing : call = .close
        · -- Nothing follows: the members would have gone with the subscriptions.
          cases rest with
          | nil => rfl
          | cons entry rest =>
            have after := same entry (by simp)
            rw [serve_before rest_served] at after
            subst closing
            obtain ⟨rfl, -⟩ := Prod.ext_iff.mp (Option.some.inj answered)
            exact absurd after.symm nobody
        · apply picks_congr
          rw [← here]
          exact answer_cursor succeed tidy answered closing (allowed _ List.mem_cons_self) (here ▸ nobody)
    rw [List.flatMap_cons, later, answer_share succeed tidy answered, here, List.countP_cons, turns]
    cases call.publishesTo topic with
    | true => rfl
    | false => rfl

theorem answered_of_mem (tidy : Tidy broker) (served : broker.serve glob invoke calls = some log)
    {entry : Entry H} (among : entry ∈ log) :
    ∃ next, entry.before.answer glob invoke entry.call = some (next, entry.reply) := by
  obtain ⟨earlier, later, rfl⟩ := List.append_of_mem among
  obtain ⟨mid, rest, -, mid_served⟩ := serve_suffix succeed tidy served
  cases rest with
  | nil => simp [InMemoryBroker.serve] at mid_served
  | cons call rest =>
    obtain ⟨next, reply, _, answered, _, split⟩ := serve_cons mid_served
    obtain ⟨rfl, -⟩ := List.cons.inj split
    exact ⟨next, answered⟩

theorem serve_delivered (tidy : Tidy broker) (served : broker.serve glob invoke calls = some log)
    {entry : Entry H} (among : entry ∈ log) : entry.Delivered := by
  intro event order publishing opened
  obtain ⟨next, answered⟩ := answered_of_mem succeed tidy served among
  rw [publishing] at answered
  simp only [InMemoryBroker.answer, Option.ite_none_right_eq_some] at answered
  obtain ⟨all, answered⟩ := answered
  obtain ⟨-, replied⟩ := Prod.ext_iff.mp (Option.some.inj answered)
  have published := publish_open succeed opened all
  rw [replied] at published
  refine ⟨published.result, published.plain, fun group => ⟨fun nobody => ?_, fun some_member => ?_⟩⟩
  · rw [published.grouped, nobody, pick_nil]
  · rw [published.grouped]
    exact pick_single some_member

theorem serve_fair (tidy : Tidy broker) (served : broker.serve glob invoke calls = some log)
    (allowed : ∀ entry ∈ log, Allowed glob entry.before entry.call) : Fair log := by
  intro earlier window later split topic group members same cycle
  subst split
  obtain ⟨first, first_served⟩ := serve_prefix served
  obtain ⟨mid, rest, mid_tidy, mid_served⟩ := serve_suffix succeed tidy first_served
  have inside : ∀ entry ∈ window, Allowed glob entry.before entry.call :=
    fun entry among => allowed entry (by simp [among])
  rw [window_share succeed mid_tidy mid_served inside same, cycle]
  exact picks_cycle members _

end Succeeding

theorem answer_closed (closed : broker.closed = true) (allowed : Allowed glob broker call)
    (answered : broker.answer glob invoke call = some (next, reply)) :
    next.closed = true ∧ (call ≠ .close → reply.result = .error .closed ∧ reply.ran = []) := by
  cases call with
  | subscribe pattern handler =>
    obtain ⟨matcher, compiled⟩ := allowed closed
    simp only [InMemoryBroker.answer, InMemoryBroker.addSubscription, compiled, closed, if_true] at answered
    obtain ⟨rfl, rfl⟩ := Prod.ext_iff.mp (Option.some.inj answered)
    exact ⟨closed, fun _ => ⟨rfl, rfl⟩⟩
  | subscribeGroup pattern own handler =>
    obtain ⟨matcher, compiled⟩ := allowed closed
    simp only [InMemoryBroker.answer, InMemoryBroker.addSubscription, compiled, closed, if_true] at answered
    obtain ⟨rfl, rfl⟩ := Prod.ext_iff.mp (Option.some.inj answered)
    exact ⟨closed, fun _ => ⟨rfl, rfl⟩⟩
  | publish event order =>
    simp only [InMemoryBroker.answer, publish_closed closed, Option.ite_none_right_eq_some] at answered
    obtain ⟨rfl, rfl⟩ := Prod.ext_iff.mp (Option.some.inj answered.2)
    exact ⟨closed, fun _ => ⟨rfl, rfl⟩⟩
  | close =>
    obtain ⟨rfl, -⟩ := Prod.ext_iff.mp (Option.some.inj answered)
    exact ⟨rfl, fun open_still => absurd rfl open_still⟩

theorem serve_closed (closed : broker.closed = true)
    (served : broker.serve glob invoke calls = some log)
    (allowed : ∀ entry ∈ log, Allowed glob entry.before entry.call) :
    ∀ entry ∈ log, entry.call ≠ .close → entry.reply.result = .error .closed ∧ entry.reply.ran = [] := by
  induction calls generalizing broker log with
  | nil =>
    obtain rfl : [] = log := Option.some.inj served
    simp
  | cons call calls ih =>
    obtain ⟨next, reply, rest, answered, rest_served, rfl⟩ := serve_cons served
    obtain ⟨closed_next, refused⟩ := answer_closed closed (allowed _ List.mem_cons_self) answered
    have later := ih closed_next rest_served fun entry among => allowed entry (by simp [among])
    intro entry among
    rcases List.mem_cons.mp among with rfl | among
    · exact refused
    · exact later entry among

theorem serve_closed_after (succeed : ∀ handler event, invoke handler event = .ok ())
    (tidy : Tidy broker) (served : broker.serve glob invoke calls = some log)
    (allowed : ∀ entry ∈ log, Allowed glob entry.before entry.call) : ClosedAfter log := by
  intro earlier closing later split closes entry among
  subst split
  obtain ⟨mid, rest, -, mid_served⟩ := serve_suffix succeed tidy served
  cases rest with
  | nil => simp [InMemoryBroker.serve] at mid_served
  | cons call rest =>
    obtain ⟨next, reply, after, answered, later_served, split⟩ := serve_cons mid_served
    obtain ⟨rfl, rfl⟩ := List.cons.inj split
    subst closes
    obtain ⟨rfl, -⟩ := Prod.ext_iff.mp (Option.some.inj answered)
    exact serve_closed rfl later_served (fun entry among => allowed entry (by simp [among])) entry among

end Runs

theorem delivers_whenever (glob : String → Except String (String → Bool))
    (invoke : H → Event → Except FireflyError Unit)
    (succeed : ∀ handler event, invoke handler event = .ok ()) (calls : List (Call H))
    (log : List (Entry H)) (served : InMemoryBroker.new.serve glob invoke calls = some log)
    (allowed : ∀ entry ∈ log, Allowed glob entry.before entry.call) : Delivers log := by
  have tidy : Tidy (InMemoryBroker.new : InMemoryBroker H) := fun _ => rfl
  exact
    { delivered := fun entry among => serve_delivered succeed tidy served among
      fair := serve_fair succeed tidy served allowed
      closed := serve_closed_after succeed tidy served allowed }

def orderGlob (pattern : String) : Except String (String → Bool) :=
  if pattern = "[" then .error "error parsing glob '[': unclosed character class; missing ']'"
  else if pattern = "orders.*" then .ok fun topic => "orders.".toList.isPrefixOf topic.toList
  else .ok fun topic => topic = pattern

def placed : Event where
  id := "e-1"
  eventType := "OrderPlaced"
  source := "orders"
  topic := "orders.placed"
  correlationId := ""
  headers := ∅
  payload := none
  key := none

def workers : List (Call Nat) :=
  [.subscribeGroup "orders.*" "workers" 1, .subscribeGroup "orders.placed" "workers" 2,
    .publish placed ["workers"], .publish placed ["workers"], .close, .publish placed []]

theorem delivers_workers : ∃ log, InMemoryBroker.new.serve orderGlob (fun _ _ => .ok ()) workers = some log ∧
    log.map (fun entry => entry.reply.ran.map (·.handler)) = [[], [], [1], [2], [], []] ∧ Delivers log := by
  refine ⟨_, rfl, by decide, delivers_whenever orderGlob (fun _ _ => .ok ()) (fun _ _ => rfl) workers _ rfl ?_⟩
  intro entry among
  fin_cases among
  · exact fun _ => ⟨_, rfl⟩
  · exact fun _ => ⟨_, rfl⟩
  · intro group top
    have zero : (0 : Usize).toNat = 2 ^ 64 - 1 := top
    exact absurd zero (by decide)
  · intro group top
    have moved : (cursorOf (Function.update (fun _ => none) ("orders.placed", "workers") (some (0 + 1)))
        "orders.placed" group).toNat = 2 ^ 64 - 1 := top
    by_cases own : group = "workers" <;> simp [cursorOf, own] at moved
  · trivial
  · intro group top
    have zero : (0 : Usize).toNat = 2 ^ 64 - 1 := top
    exact absurd zero (by decide)

theorem pattern_refused_after_close : ¬ ∀ (calls : List (Call Nat)) (log : List (Entry Nat)),
    InMemoryBroker.new.serve orderGlob (fun _ _ => .ok ()) calls = some log → Delivers log := by
  intro always
  have closed := (always [.close, .subscribe "[" 0] _ rfl).closed [] _ _ rfl rfl _ List.mem_cons_self
    (by simp)
  exact absurd closed.1 (by decide)

end Firefly.Eda.InMemory
