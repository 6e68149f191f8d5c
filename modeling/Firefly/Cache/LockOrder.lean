import Firefly.Cache.MemoryContract

set_option autoImplicit false

namespace Firefly.Cache.LockOrder

open Recency Runs

-- The counter is an atomic of 64 bits.
def nextSeq (cache : MemoryAdapter) : Nat × MemoryAdapter :=
  (cache.accessSeq, { cache with accessSeq := (cache.accessSeq + 1) % 2 ^ 64 })

inductive Waiting where
  | get (key : String) (seq : Nat)
  | set (key : String) (value : List UInt8) (exp : Option Nat) (seq : Nat)
  | setIfAbsent (key : String) (value : List UInt8) (ttl : Option Nat) (seq : Nat)
  | exists (key : String)
  | delete (key : String)
  | deletePrefix (start : String)
  | clear
deriving DecidableEq, Repr

def unlocked (now : Nat) (cache : MemoryAdapter) : MemoryCall → Waiting × MemoryAdapter
  | .get key =>
    let (seq, cache) := nextSeq cache
    (.get key seq, cache)
  | .set key value ttl =>
    let exp := deadline now ttl
    let (seq, cache) := nextSeq cache
    (.set key value exp seq, cache)
  | .setIfAbsent key value ttl =>
    let (seq, cache) := nextSeq cache
    (.setIfAbsent key value ttl seq, cache)
  | .exists key => (.exists key, cache)
  | .delete key => (.delete key, cache)
  | .deletePrefix start => (.deletePrefix start, cache)
  | .clear => (.clear, cache)

def insert (cache : MemoryAdapter) (key : String) (entry : MemEntry) : MemoryAdapter :=
  { cache with
    entries := MemoryAdapter.enforceBound cache.maxEntries (cache.entries.insert key entry) }

def locked (now : Nat) (cache : MemoryAdapter) : Waiting → Answer × MemoryAdapter
  | .get key seq =>
    match cache.entries[key]? with
    | none => (.missing, cache)
    | some entry =>
      if !entry.expired now then
        (.found entry.value,
          { cache with entries := cache.entries.insert key { entry with lastAccess := seq } })
      else (.missing, { cache with entries := cache.entries.erase key })
  | .set key value exp seq => (.done, insert cache key { value, exp, lastAccess := seq })
  | .setIfAbsent key value ttl seq =>
    match cache.entries[key]? with
    | some entry =>
      if !entry.expired now then (.flag false, cache)
      else (.flag true, insert cache key { value, exp := deadline now ttl, lastAccess := seq })
    | none => (.flag true, insert cache key { value, exp := deadline now ttl, lastAccess := seq })
  | .exists key => cache.perform now (.exists key)
  | .delete key => cache.perform now (.delete key)
  | .deletePrefix start => cache.perform now (.deletePrefix start)
  | .clear => cache.perform now .clear

theorem locked_unlocked (now : Nat) (cache : MemoryAdapter) (call : MemoryCall)
    (room : cache.accessSeq + 1 < 2 ^ 64) :
    locked now (unlocked now cache call).2 (unlocked now cache call).1 = cache.perform now call := by
  have counted : (cache.accessSeq + 1) % 2 ^ 64 = cache.accessSeq + 1 := Nat.mod_eq_of_lt room
  cases call with
  | get key =>
    simp only [unlocked, nextSeq, counted, locked, MemoryAdapter.perform, MemoryAdapter.get]
    cases cache.entries[key]? with
    | none => rfl
    | some entry => cases expiry : entry.expired now <;> simp [expiry]
  | set key value ttl =>
    simp only [unlocked, nextSeq, counted]
    rfl
  | setIfAbsent key value ttl =>
    simp only [unlocked, nextSeq, counted, locked, MemoryAdapter.perform, MemoryAdapter.setIfAbsent]
    cases cache.entries[key]? with
    | none => rfl
    | some entry =>
      cases expiry : entry.expired now
      · simp [expiry]
      · simp only [expiry, Bool.not_true]
        rfl
  | _ => rfl

def recorded (now : Nat) (cache : MemoryAdapter) : Waiting → Option (String × MemEntry)
  | .get key seq =>
    (cache.entries[key]?.filter (!MemEntry.expired now ·)).map fun entry =>
      (key, { entry with lastAccess := seq })
  | .set key value exp seq => some (key, { value, exp, lastAccess := seq })
  | .setIfAbsent key value ttl seq =>
    if cache.entries[key]?.any (!MemEntry.expired now ·) then none
    else some (key, { value, exp := deadline now ttl, lastAccess := seq })
  | _ => none

structure Write where
  key : String
  entry : MemEntry
  held : Std.TreeMap String MemEntry
  kept : Std.TreeMap String MemEntry
  accesses : List String

structure State where
  cache : MemoryAdapter
  now : Nat
  tasks : Nat → Option Waiting
  accesses : List String
  writes : List Write

def start (bound : Nat) : State :=
  { cache := MemoryAdapter.withMaxEntries bound, now := 0, tasks := fun _ => none, accesses := [],
    writes := [] }

def written (s : State) (waiting : Waiting) (accesses : List String) : Option Write :=
  match waiting with
  | .set .. | .setIfAbsent .. =>
    (recorded s.now s.cache waiting).map fun (key, entry) =>
      { key, entry, accesses
        held := s.cache.entries.insert key entry
        kept := (locked s.now s.cache waiting).2.entries }
  | _ => none

inductive Choice where
  | call (task : Nat) (call : MemoryCall)
  | lock (task : Nat)
  | pass (duration : Nat)
deriving DecidableEq, Repr

def step (s : State) : Choice → Option State
  | .call task call =>
    -- a task makes one call after the other
    if (s.tasks task).isSome then some s
    else
      let (waiting, cache) := unlocked s.now s.cache call
      some { s with cache, tasks := Function.update s.tasks task (some waiting) }
  | .lock task =>
    match s.tasks task with
    | none => some s
    | some waiting =>
      let accesses := s.accesses ++ ((recorded s.now s.cache waiting).map (·.1)).toList
      some { s with
        cache := (locked s.now s.cache waiting).2
        tasks := Function.update s.tasks task none
        accesses
        writes := s.writes ++ (written s waiting accesses).toList }
  | .pass duration => some { s with now := s.now + duration }

structure Write.Visible (bound : Nat) (write : Write) : Prop where
  present : write.kept[write.key]? = some write.entry
  evicted : if write.held.size ≤ bound then write.kept = write.held
    else ∃ victim ∈ write.held, write.kept = write.held.erase victim ∧
      ∀ other ∈ write.held, other ≠ victim → UsedBefore write.accesses victim other

def Newest (cache : MemoryAdapter) (key : String) (entry : MemEntry) : Prop :=
  ∀ (other : String) (held : MemEntry), cache.entries[other]? = some held → other ≠ key →
    held.lastAccess < entry.lastAccess

def InOrder (s : State) : Choice → Prop
  | .lock task => ∀ waiting ∈ s.tasks task, ∀ access ∈ recorded s.now s.cache waiting,
      Newest s.cache access.1 access.2
  | _ => True

instance (cache : MemoryAdapter) (key : String) (entry : MemEntry) :
    Decidable (Newest cache key entry) :=
  decidable_of_iff (∀ pair ∈ cache.entries.toList, pair.1 ≠ key →
    pair.2.lastAccess < entry.lastAccess) (by
      simp [Newest, Std.TreeMap.mem_toList_iff_getElem?_eq_some])

instance (s : State) : ∀ choice, Decidable (InOrder s choice)
  | .lock task => inferInstanceAs (Decidable (∀ waiting ∈ s.tasks task,
      ∀ access ∈ recorded s.now s.cache waiting, Newest s.cache access.1 access.2))
  | .call .. => isTrue trivial
  | .pass .. => isTrue trivial

/-- `order` lists the entries by their stamps, and also by their last recorded accesses. -/
structure Ordered (bound : Nat) (cache : MemoryAdapter) (accesses : List String)
    (order : List (String × MemEntry)) : Prop where
  limit : cache.maxEntries = some bound
  tracks : ∃ next, Tracks MemEntry.lastAccess cache.entries next order
  follows : Follows accesses order
  within : cache.entries.size ≤ bound

section Section

variable {bound now : Nat} {cache : MemoryAdapter} {accesses : List String}
  {order : List (String × MemEntry)} {key : String} {entry : MemEntry}

theorem Ordered.touched (ordered : Ordered bound cache accesses order)
    (newest : Newest cache key entry) :
    (∃ next, Tracks MemEntry.lastAccess (cache.entries.insert key entry) next
        (touch key entry order)) ∧
      Follows (accesses ++ [key]) (touch key entry order) := by
  obtain ⟨next, tracks⟩ := ordered.tracks
  refine ⟨⟨_, tracks.insert_newest key ?_⟩, ordered.follows.touch key entry⟩
  rintro ⟨other, held⟩ member apart
  exact newest other held ((tracks.holds other held).mp member) apart

theorem Ordered.removed (ordered : Ordered bound cache accesses order)
    {entries : Std.TreeMap String MemEntry} {fewer : List (String × MemEntry)}
    (sub : fewer.Sublist order)
    (tracks : ∀ next, Tracks MemEntry.lastAccess cache.entries next order →
      Tracks MemEntry.lastAccess entries next fewer) :
    Ordered bound { cache with entries } accesses fewer := by
  obtain ⟨next, before⟩ := ordered.tracks
  refine ⟨ordered.limit, ⟨next, tracks next before⟩, ordered.follows.sublist sub, ?_⟩
  calc entries.size = fewer.length := (tracks next before).size_eq
    _ ≤ order.length := sub.length_le
    _ = cache.entries.size := before.size_eq.symm
    _ ≤ bound := ordered.within

theorem Ordered.erased (ordered : Ordered bound cache accesses order) (key : String) :
    Ordered bound { cache with entries := cache.entries.erase key } accesses (without key order) :=
  ordered.removed List.filter_sublist fun _ tracks => tracks.erase key

theorem Ordered.hit (ordered : Ordered bound cache accesses order)
    (newest : Newest cache key entry) (stored : key ∈ cache.entries) :
    Ordered bound { cache with entries := cache.entries.insert key entry } (accesses ++ [key])
      (touch key entry order) := by
  obtain ⟨tracks, follows⟩ := ordered.touched newest
  refine ⟨ordered.limit, tracks, follows, ?_⟩
  rw [Std.TreeMap.size_insert, if_pos (Std.TreeMap.contains_iff_mem.mpr stored)]
  exact ordered.within

theorem insert_overflows (positive : 0 < bound) (ordered : Ordered bound cache accesses order)
    (newest : Newest cache key entry)
    (overflow : bound < (cache.entries.insert key entry).size) :
    ∃ first rest, touch key entry order = first :: rest ∧ rest.length = bound ∧
      first.1 ≠ key := by
  obtain ⟨⟨next, tracks⟩, -⟩ := ordered.touched newest
  have size : (touch key entry order).length = bound + 1 := by
    have grown : (cache.entries.insert key entry).size ≤ cache.entries.size + 1 :=
      Std.TreeMap.size_insert_le
    have within := ordered.within
    rw [← tracks.size_eq]
    omega
  cases others : without key order with
  | nil => simp [touch, others] at size; omega
  | cons first rest =>
    refine ⟨first, rest ++ [(key, entry)], by simp [touch, others], ?_, ?_⟩
    · simpa [touch, others] using size
    · have member : first ∈ without key order := by simp [others]
      exact (mem_without.mp member).2

theorem insert_ordered (positive : 0 < bound) (ordered : Ordered bound cache accesses order)
    (newest : Newest cache key entry) :
    ∃ order', Ordered bound (insert cache key entry) (accesses ++ [key]) order' := by
  obtain ⟨⟨next, tracks⟩, follows⟩ := ordered.touched newest
  by_cases room : (cache.entries.insert key entry).size ≤ bound
  · have kept : (insert cache key entry).entries = cache.entries.insert key entry := by
      rw [insert, ordered.limit]
      exact MemoryAdapter.evict_of_le room _
    exact ⟨_, ordered.limit, ⟨next, by rwa [kept]⟩, follows, by rwa [kept]⟩
  · obtain ⟨first, rest, order_eq, full, -⟩ :=
      insert_overflows positive ordered newest (Nat.lt_of_not_le room)
    rw [order_eq] at tracks follows
    obtain ⟨kept, left⟩ := SideBySide.enforceBound_full tracks full
    have entries : (insert cache key entry).entries =
        (cache.entries.insert key entry).erase first.1 := by
      rw [insert, ordered.limit]
      exact kept
    refine ⟨rest, ordered.limit, ⟨next, by rwa [entries]⟩,
      follows.sublist (List.sublist_cons_self _ _), ?_⟩
    rw [entries, left.size_eq, full]

theorem insert_visible (positive : 0 < bound) (ordered : Ordered bound cache accesses order)
    (newest : Newest cache key entry) :
    Write.Visible bound
      { key, entry
        held := cache.entries.insert key entry
        kept := (insert cache key entry).entries
        accesses := accesses ++ [key] } := by
  obtain ⟨⟨next, tracks⟩, follows⟩ := ordered.touched newest
  by_cases room : (cache.entries.insert key entry).size ≤ bound
  · have kept : (insert cache key entry).entries = cache.entries.insert key entry := by
      rw [insert, ordered.limit]
      exact MemoryAdapter.evict_of_le room _
    refine ⟨?_, ?_⟩
    · simp [kept]
    · rw [if_pos room]
      exact kept
  · obtain ⟨first, rest, order_eq, full, apart⟩ :=
      insert_overflows positive ordered newest (Nat.lt_of_not_le room)
    rw [order_eq] at tracks follows
    have kept : (insert cache key entry).entries =
        (cache.entries.insert key entry).erase first.1 := by
      rw [insert, ordered.limit]
      exact (SideBySide.enforceBound_full tracks full).1
    have stored (pair : String × MemEntry) (member : pair ∈ first :: rest) :
        pair.1 ∈ cache.entries.insert key entry := by
      have held := (tracks.holds pair.1 pair.2).mp member
      exact Std.TreeMap.mem_iff_isSome_getElem?.mpr (by simp [held])
    refine ⟨?_, ?_⟩
    · simp [kept, apart]
    · rw [if_neg room]
      refine ⟨first.1, stored first List.mem_cons_self, kept, ?_⟩
      intro other member other_apart
      obtain ⟨held, found⟩ := Option.isSome_iff_exists.mp
        (Std.TreeMap.mem_iff_isSome_getElem?.mp member)
      rcases List.mem_cons.mp ((tracks.holds other held).mpr found) with same | later
      · exact absurd (congrArg Prod.fst same) other_apart
      · exact List.rel_of_pairwise_cons follows.sorted later

def accessed (now : Nat) (cache : MemoryAdapter) (waiting : Waiting) : List String :=
  ((recorded now cache waiting).map (·.1)).toList

theorem get_ordered (ordered : Ordered bound cache accesses order) (key : String) (seq : Nat)
    (newest : ∀ access ∈ recorded now cache (.get key seq), Newest cache access.1 access.2) :
    ∃ order', Ordered bound (locked now cache (.get key seq)).2
      (accesses ++ accessed now cache (.get key seq)) order' := by
  cases stored : cache.entries[key]? with
  | none => exact ⟨order, by simpa [locked, accessed, recorded, stored] using ordered⟩
  | some entry =>
    cases expiry : entry.expired now with
    | true =>
      have erased := ordered.erased key
      exact ⟨_, by simpa [locked, accessed, recorded, stored, expiry, Option.filter] using erased⟩
    | false =>
      have present : key ∈ cache.entries :=
        Std.TreeMap.mem_iff_isSome_getElem?.mpr (by simp [stored])
      have hit := ordered.hit (newest (key, { entry with lastAccess := seq })
        (by simp [recorded, stored, expiry, Option.filter])) present
      exact ⟨_, by simpa [locked, accessed, recorded, stored, expiry, Option.filter] using hit⟩

theorem setIfAbsent_cases (now : Nat) (cache : MemoryAdapter) (key : String) (value : List UInt8)
    (ttl : Option Nat) (seq : Nat) :
    recorded now cache (.setIfAbsent key value ttl seq) = none ∧
        locked now cache (.setIfAbsent key value ttl seq) = (.flag false, cache) ∨
      recorded now cache (.setIfAbsent key value ttl seq) =
          some (key, { value, exp := deadline now ttl, lastAccess := seq }) ∧
        locked now cache (.setIfAbsent key value ttl seq) =
          (.flag true, insert cache key { value, exp := deadline now ttl, lastAccess := seq }) := by
  cases stored : cache.entries[key]? with
  | none => simp [recorded, locked, stored]
  | some entry => cases expiry : entry.expired now <;> simp [recorded, locked, stored, expiry]

theorem locked_ordered (positive : 0 < bound) (ordered : Ordered bound cache accesses order)
    (waiting : Waiting)
    (newest : ∀ access ∈ recorded now cache waiting, Newest cache access.1 access.2) :
    ∃ order', Ordered bound (locked now cache waiting).2
      (accesses ++ accessed now cache waiting) order' := by
  cases waiting with
  | get key seq => exact get_ordered ordered key seq newest
  | set key value exp seq => exact insert_ordered positive ordered (newest _ rfl)
  | setIfAbsent key value ttl seq =>
    rcases setIfAbsent_cases now cache key value ttl seq with ⟨kept, same⟩ | ⟨stored, inserted⟩
    · exact ⟨order, by simpa [accessed, kept, same] using ordered⟩
    · rw [accessed, stored, inserted]
      exact insert_ordered positive ordered (newest _ stored)
  | «exists» key =>
    simp only [locked, accessed, recorded, Option.map_none, Option.toList_none, List.append_nil,
      MemoryAdapter.perform, MemoryAdapter.exists']
    cases cache.entries[key]? with
    | none => exact ⟨order, ordered⟩
    | some entry =>
      cases expiry : entry.expired now with
      | false => exact ⟨order, by simpa [expiry] using ordered⟩
      | true => exact ⟨_, by simpa [expiry] using ordered.erased key⟩
  | delete key =>
    simp only [accessed, recorded, Option.map_none, Option.toList_none, List.append_nil]
    exact ⟨_, ordered.erased key⟩
  | deletePrefix start =>
    have filtered := ordered.removed (List.filter_sublist (p := fun pair : String × MemEntry =>
      !startsWith pair.1 start)) fun _ tracks => tracks.filter fun key _ => !startsWith key start
    simp only [accessed, recorded, Option.map_none, Option.toList_none, List.append_nil]
    exact ⟨_, filtered⟩
  | clear =>
    simp only [accessed, recorded, Option.map_none, Option.toList_none, List.append_nil]
    exact ⟨_, ordered.removed (List.nil_sublist order) fun _ _ => tracks_empty⟩

end Section

theorem written_visible {bound : Nat} (positive : 0 < bound) {s : State} {waiting : Waiting}
    {order : List (String × MemEntry)} (ordered : Ordered bound s.cache s.accesses order)
    (newest : ∀ access ∈ recorded s.now s.cache waiting, Newest s.cache access.1 access.2)
    {write : Write}
    (wrote : written s waiting (s.accesses ++ accessed s.now s.cache waiting) = some write) :
    write.Visible bound := by
  cases waiting with
  | set key value exp seq =>
    obtain rfl := Option.some.inj wrote
    exact insert_visible positive ordered (newest _ rfl)
  | setIfAbsent key value ttl seq =>
    rcases setIfAbsent_cases s.now s.cache key value ttl seq with ⟨kept, -⟩ | ⟨stored, inserted⟩
    · simp [written, kept] at wrote
    · simp only [written, accessed, stored, inserted] at wrote
      obtain rfl := Option.some.inj wrote
      exact insert_visible positive ordered (newest _ stored)
  | _ => simp [written] at wrote

structure Inv (bound : Nat) (s : State) : Prop where
  ordered : ∃ order, Ordered bound s.cache s.accesses order
  visible : ∀ write ∈ s.writes, write.Visible bound

theorem inv_start {bound : Nat} (positive : 0 < bound) : Inv bound (start bound) where
  ordered := ⟨[], by simp [start, MemoryAdapter.withMaxEntries, positive], ⟨0, tracks_empty⟩,
    ⟨by simp, by simp⟩, by simp [start, MemoryAdapter.withMaxEntries]⟩
  visible := by simp [start]

theorem unlocked_entries (now : Nat) (cache : MemoryAdapter) (call : MemoryCall) :
    (unlocked now cache call).2.entries = cache.entries ∧
      (unlocked now cache call).2.maxEntries = cache.maxEntries := by
  cases call <;> exact ⟨rfl, rfl⟩

theorem step_inv {bound : Nat} (positive : 0 < bound) (s : State) (choice : Choice) (s' : State)
    (in_order : InOrder s choice) (inv : Inv bound s) (stepped : step s choice = some s') :
    Inv bound s' := by
  obtain ⟨order, ordered⟩ := inv.ordered
  cases choice with
  | call task call =>
    simp only [step] at stepped
    split at stepped
    · obtain rfl := Option.some.inj stepped
      exact inv
    · obtain rfl := Option.some.inj stepped
      obtain ⟨entries, limit⟩ := unlocked_entries s.now s.cache call
      refine ⟨⟨order, ?_, ?_, ordered.follows, ?_⟩, inv.visible⟩
      · exact limit.trans ordered.limit
      · simpa only [entries] using ordered.tracks
      · simpa only [entries] using ordered.within
  | lock task =>
    simp only [step] at stepped
    split at stepped
    · obtain rfl := Option.some.inj stepped
      exact inv
    · rename_i waiting waits
      obtain rfl := Option.some.inj stepped
      have newest := in_order waiting waits
      refine ⟨locked_ordered positive ordered waiting newest, ?_⟩
      intro write member
      rcases List.mem_append.mp member with before | last
      · exact inv.visible write before
      · exact written_visible positive ordered newest (Option.mem_toList.mp last)
  | pass duration =>
    obtain rfl := Option.some.inj stepped
    exact ⟨inv.ordered, inv.visible⟩

theorem writes_visible (bound : Nat) (positive : 0 < bound) (choices : List Choice)
    (in_order : Along step InOrder (start bound) choices) (s : State)
    (ran : run step (start bound) choices = some s) : ∀ write ∈ s.writes, write.Visible bound :=
  (run_invariant_along (Inv bound) (step_inv positive) (inv_start positive) in_order ran).visible

theorem later_writer_stays :
    ∃ s, run step (start 1) [.call 0 (.set "a" [1] none), .call 1 (.set "b" [2] none), .lock 0,
        .lock 1] = some s ∧
      s.writes.length = 2 ∧ ∀ write ∈ s.writes, write.Visible 1 :=
  ⟨_, rfl, rfl, writes_visible 1 (by decide) [.call 0 (.set "a" [1] none),
    .call 1 (.set "b" [2] none), .lock 0, .lock 1] (by decide) _ rfl⟩

theorem late_writer_evicted :
    ¬ ∀ (bound : Nat), 0 < bound → ∀ (choices : List Choice) (s : State),
      run step (start bound) choices = some s → ∀ write ∈ s.writes, write.Visible bound := by
  intro visible
  have last := visible 1 (by decide) [.call 0 (.set "a" [1] none), .call 1 (.set "b" [2] none),
    .lock 1, .lock 0] _ rfl _ (List.mem_cons_of_mem _ List.mem_cons_self)
  exact absurd last.present (by decide)

end Firefly.Cache.LockOrder
