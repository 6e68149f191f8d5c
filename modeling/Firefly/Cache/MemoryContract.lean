import Firefly.Cache.Memory

set_option autoImplicit false

namespace Firefly.Cache

open Recency Runs

structure Slot where
  value : List UInt8
  exp : Option Nat
deriving DecidableEq, Repr

def MemEntry.slot (entry : MemEntry) : Slot :=
  { value := entry.value, exp := entry.exp }

abbrev Slots := List (String × Slot)

namespace Slots

def live (now : Nat) (slots : Slots) : Slots :=
  slots.filter fun pair => !pastDeadline now pair.2.exp

def store (bound now : Nat) (key : String) (value : List UInt8) (ttl : Option Nat)
    (slots : Slots) : Slots :=
  let slots := touch key { value, exp := deadline now ttl } slots
  if slots.length > bound then slots.tail else slots

def perform (bound now : Nat) (slots : Slots) (call : MemoryCall) : Answer × Slots :=
  let slots := slots.live now
  match call with
  | .get key =>
    match lookup key slots with
    | some slot => (.found slot.value, touch key slot slots)
    | none => (.missing, slots)
  | .set key value ttl => (.done, slots.store bound now key value ttl)
  | .setIfAbsent key value ttl =>
    match lookup key slots with
    | some _ => (.flag false, slots)
    | none => (.flag true, slots.store bound now key value ttl)
  | .exists key => (.flag (lookup key slots).isSome, slots)
  | .delete key => (.done, without key slots)
  | .deletePrefix start =>
    (.count (slots.filter fun pair => startsWith pair.1 start).length,
      slots.filter fun pair => !startsWith pair.1 start)
  | .clear => (.done, [])

end Slots

structure SideBySide where
  now : Nat
  cache : MemoryAdapter
  slots : Slots
  answers : List (Answer × Answer)

namespace SideBySide

def start (bound : Nat) : SideBySide :=
  { now := 0, cache := MemoryAdapter.withMaxEntries bound, slots := [], answers := [] }

def step (bound : Nat) (s : SideBySide) (choice : MemoryCall × Nat) : Option SideBySide :=
  let now := s.now + choice.2
  let (answer, cache) := s.cache.perform now choice.1
  let (expected, slots) := s.slots.perform bound now choice.1
  some { now, cache, slots, answers := s.answers ++ [(answer, expected)] }

def view (now : Nat) (cache : MemoryAdapter) (key : String) : Option Slot :=
  (cache.entries[key]?.filter (!MemEntry.expired now ·)).map MemEntry.slot

def Agree (s : SideBySide) : Prop :=
  (∀ pair ∈ s.answers, pair.1 = pair.2) ∧
    ∀ key, view s.now s.cache key = lookup key s.slots

/-- A full cache pushes out an entry that is past its deadline, or holds none that is. -/
def Orderly (bound now : Nat) (cache : MemoryAdapter) : MemoryCall → Prop
  | .set key _ _ | .setIfAbsent key _ _ =>
    cache.entries[key]? = none → bound ≤ cache.entries.size →
      (∀ pair, MemoryAdapter.victim cache.entries = some pair → pair.2.expired now = true) ∨
        ∀ (other : String) (entry : MemEntry), cache.entries[other]? = some entry →
          entry.expired now = false
  | .deletePrefix start =>
    ∀ (key : String) (entry : MemEntry), cache.entries[key]? = some entry → startsWith key start →
      entry.expired now = false
  | _ => True

end SideBySide

namespace MemoryAdapter

theorem evict_of_le {max : Nat} {entries : Std.TreeMap String MemEntry}
    (within : entries.size ≤ max) (turns : Nat) : evict max turns entries = entries := by
  cases turns with
  | zero => rfl
  | succ turns => rw [evict, if_neg (Nat.not_lt_of_le within)]

theorem evict_size (max : Nat) (entries : Std.TreeMap String MemEntry) (turns : Nat)
    (enough : entries.size ≤ max + turns) : (evict max turns entries).size ≤ max := by
  induction turns generalizing entries with
  | zero => exact enough
  | succ turns ih =>
    rw [evict]
    split
    · rename_i exceeds
      split
      · rename_i key entry oldest
        have stored : key ∈ entries := by
          have held := Std.TreeMap.mem_toList_iff_getElem?_eq_some.mp (List.argmin_mem oldest)
          exact Std.TreeMap.mem_iff_isSome_getElem?.mpr (by simp [held])
        apply ih
        rw [Std.TreeMap.size_erase, if_pos (Std.TreeMap.contains_iff_mem.mpr stored)]
        omega
      · rename_i none_left
        have empty := List.argmin_eq_none.mp none_left
        rw [← Std.TreeMap.length_toList, empty]
        exact Nat.zero_le max
    · rename_i within
      exact Nat.le_of_not_lt within

theorem enforceBound_size (max : Nat) (entries : Std.TreeMap String MemEntry) :
    (enforceBound (some max) entries).size ≤ max :=
  evict_size max entries entries.size (Nat.le_add_left _ _)

end MemoryAdapter

namespace SideBySide

def fresh (now : Nat) (pair : String × MemEntry) : Bool :=
  !pair.2.expired now

def standing (now : Nat) (order : List (String × MemEntry)) : Slots :=
  (order.filter (fresh now)).map (Prod.map id MemEntry.slot)

structure Coupled (bound now : Nat) (cache : MemoryAdapter) (slots : Slots)
    (order : List (String × MemEntry)) : Prop where
  limit : cache.maxEntries = some bound
  tracks : Tracks MemEntry.lastAccess cache.entries cache.accessSeq order
  within : cache.entries.size ≤ bound
  slots_eq : slots = standing now order

variable {bound now : Nat} {cache : MemoryAdapter} {slots : Slots}
  {order : List (String × MemEntry)}

theorem deadline_fresh (now : Nat) (ttl : Option Nat) :
    pastDeadline now (deadline now ttl) = false := by
  cases ttl with
  | none => rfl
  | some duration => by_cases none : duration = 0 <;> simp [deadline, pastDeadline, Option.filter, none]

theorem standing_later (now elapsed : Nat) (order : List (String × MemEntry)) :
    (standing now order).live (now + elapsed) = standing (now + elapsed) order := by
  have still (pair : String × MemEntry) (later : fresh (now + elapsed) pair = true) :
      fresh now pair = true := by
    rcases pair with ⟨key, value, exp, lastAccess⟩
    cases exp with
    | none => rfl
    | some exp =>
      simp only [fresh, MemEntry.expired, pastDeadline, Bool.not_eq_true', decide_eq_false_iff_not]
        at later ⊢
      omega
  have same : (fun pair : String × Slot => !pastDeadline (now + elapsed) pair.2.exp) ∘
      Prod.map id MemEntry.slot = fresh (now + elapsed) := rfl
  rw [standing, Slots.live, List.filter_map, same, List.filter_filter, standing]
  congr 1
  apply List.filter_congr
  intro pair _
  cases later : fresh (now + elapsed) pair with
  | false => rfl
  | true => rw [still pair later]; rfl

theorem lookup_standing (tracks : Tracks MemEntry.lastAccess cache.entries cache.accessSeq order)
    (now : Nat) (key : String) : lookup key (standing now order) = view now cache key := by
  have kept := tracks.filter fun _ entry => !entry.expired now
  rw [standing, lookup_map, view]
  congr 1
  have found := kept.lookup_eq key
  rw [Std.TreeMap.getElem?_filter'] at found
  exact found

theorem Coupled.view_eq (coupled : Coupled bound now cache slots order) (key : String) :
    view now cache key = lookup key slots := by
  rw [coupled.slots_eq, lookup_standing coupled.tracks]

def Matched (bound now : Nat) (left : Answer × MemoryAdapter) (right : Answer × Slots) : Prop :=
  left.1 = right.1 ∧ ∃ order, Coupled bound now left.2 right.2 order

theorem standing_without {key : String} (gone : ∀ pair ∈ order, pair.1 = key → fresh now pair = false) :
    standing now (without key order) = standing now order := by
  rw [standing, without_filter, standing]
  congr 1
  rw [without, List.filter_eq_self]
  intro pair member
  obtain ⟨stored, alive⟩ := List.mem_filter.mp member
  by_contra same
  simp only [decide_eq_true_eq, Decidable.not_not] at same
  rw [gone pair stored same] at alive
  exact Bool.false_ne_true alive

theorem standing_touch {key : String} {entry : MemEntry} (alive : entry.expired now = false) :
    standing now (touch key entry order) = touch key entry.slot (standing now order) := by
  have kept : fresh now (key, entry) = true := by simp [fresh, alive]
  rw [standing, touch_filter kept, ← touch_map, standing]

theorem Coupled.stamped (coupled : Coupled bound now cache slots order) :
    Coupled bound now { cache with accessSeq := cache.accessSeq + 1 } slots order :=
  ⟨coupled.limit, coupled.tracks.later (Nat.le_succ _), coupled.within, coupled.slots_eq⟩

theorem Coupled.erased (coupled : Coupled bound now cache slots order) (key : String) :
    Coupled bound now (cache.delete key) (without key slots) (without key order) where
  limit := coupled.limit
  tracks := coupled.tracks.erase key
  within := Std.TreeMap.size_erase_le.trans coupled.within
  slots_eq := by rw [coupled.slots_eq, standing, without_map, standing, without_filter]

theorem Coupled.collected {key : String} {entry : MemEntry}
    (coupled : Coupled bound now cache slots order) (stored : cache.entries[key]? = some entry)
    (dead : entry.expired now = true) :
    Coupled bound now (cache.delete key) slots (without key order) where
  limit := coupled.limit
  tracks := coupled.tracks.erase key
  within := Std.TreeMap.size_erase_le.trans coupled.within
  slots_eq := by
    rw [coupled.slots_eq, standing_without]
    rintro ⟨other, held⟩ member rfl
    have same : some held = some entry := ((coupled.tracks.holds _ _).mp member).symm.trans stored
    rw [Option.some.inj same]
    simp [fresh, dead]

theorem Coupled.hit {key : String} {entry : MemEntry}
    (coupled : Coupled bound now cache slots order) (stored : cache.entries[key]? = some entry)
    (alive : entry.expired now = false) :
    Coupled bound now
      { cache with
        accessSeq := cache.accessSeq + 1
        entries := cache.entries.insert key { entry with lastAccess := cache.accessSeq } }
      (touch key entry.slot slots)
      (touch key { entry with lastAccess := cache.accessSeq } order) where
  limit := coupled.limit
  tracks := coupled.tracks.insert key rfl
  within := by
    have present : cache.entries.contains key = true := by
      simp [Std.TreeMap.contains_eq_isSome_getElem?, stored]
    rw [Std.TreeMap.size_insert, if_pos present]
    exact coupled.within
  slots_eq := by
    rw [coupled.slots_eq, standing_touch (show ({ entry with lastAccess := cache.accessSeq } :
      MemEntry).expired now = false from alive)]
    rfl

section Views

variable {key : String} {entry : MemEntry}

theorem view_none (absent : cache.entries[key]? = none) : view now cache key = none := by
  simp [view, absent]

theorem view_fresh (stored : cache.entries[key]? = some entry) (alive : entry.expired now = false) :
    view now cache key = some entry.slot := by
  simp [view, stored, alive, Option.filter]

theorem view_expired (stored : cache.entries[key]? = some entry)
    (dead : entry.expired now = true) : view now cache key = none := by
  simp [view, stored, dead, Option.filter]

end Views

theorem get_matched (coupled : Coupled bound now cache slots order) (live : slots.live now = slots)
    (key : String) :
    Matched bound now (cache.perform now (.get key)) (slots.perform bound now (.get key)) := by
  have seen := coupled.view_eq key
  cases stored : cache.entries[key]? with
  | none =>
    rw [view_none stored] at seen
    simp only [Matched, MemoryAdapter.perform, MemoryAdapter.get, stored, Slots.perform, live,
      ← seen]
    exact ⟨trivial, order, coupled.stamped⟩
  | some entry =>
    cases expiry : entry.expired now with
    | false =>
      rw [view_fresh stored expiry] at seen
      simp only [Matched, MemoryAdapter.perform, MemoryAdapter.get, stored, Slots.perform, live,
        ← seen, expiry]
      exact ⟨rfl, _, coupled.hit stored expiry⟩
    | true =>
      rw [view_expired stored expiry] at seen
      simp only [Matched, MemoryAdapter.perform, MemoryAdapter.get, stored, Slots.perform, live,
        ← seen, expiry]
      exact ⟨rfl, _, coupled.stamped.collected stored expiry⟩

theorem exists_matched (coupled : Coupled bound now cache slots order)
    (live : slots.live now = slots) (key : String) :
    Matched bound now (cache.perform now (.exists key)) (slots.perform bound now (.exists key)) := by
  have seen := coupled.view_eq key
  cases stored : cache.entries[key]? with
  | none =>
    rw [view_none stored] at seen
    simp only [Matched, MemoryAdapter.perform, MemoryAdapter.exists', stored, Slots.perform, live,
      ← seen]
    exact ⟨rfl, order, coupled⟩
  | some entry =>
    cases expiry : entry.expired now with
    | false =>
      rw [view_fresh stored expiry] at seen
      simp only [Matched, MemoryAdapter.perform, MemoryAdapter.exists', stored, Slots.perform,
        live, ← seen, expiry]
      exact ⟨rfl, order, coupled⟩
    | true =>
      rw [view_expired stored expiry] at seen
      simp only [Matched, MemoryAdapter.perform, MemoryAdapter.exists', stored, Slots.perform,
        live, ← seen, expiry]
      exact ⟨rfl, _, coupled.collected stored expiry⟩

theorem standing_length_le (now : Nat) (order : List (String × MemEntry)) :
    (standing now order).length ≤ order.length := by
  rw [standing, List.length_map]
  exact List.length_filter_le _ _

theorem standing_cons_expired {first : String × MemEntry} {rest : List (String × MemEntry)}
    (dead : first.2.expired now = true) : standing now (first :: rest) = standing now rest := by
  rw [standing, List.filter_cons_of_neg (by simp [fresh, dead]), standing]

theorem standing_all {order : List (String × MemEntry)}
    (alive : ∀ pair ∈ order, pair.2.expired now = false) :
    standing now order = order.map (Prod.map id MemEntry.slot) := by
  rw [standing, List.filter_eq_self.mpr]
  intro pair member
  simp [fresh, alive pair member]

theorem enforceBound_full {entries : Std.TreeMap String MemEntry} {next : Nat}
    {first : String × MemEntry} {rest : List (String × MemEntry)}
    (tracks : Tracks MemEntry.lastAccess entries next (first :: rest))
    (full : rest.length = bound) :
    MemoryAdapter.enforceBound (some bound) entries = entries.erase first.1 ∧
      Tracks MemEntry.lastAccess (entries.erase first.1) next rest := by
  have left := tracks.erase first.1
  rw [tracks.without_head] at left
  have size := tracks.size_eq
  have oldest : MemoryAdapter.victim entries = some first := tracks.oldest
  refine ⟨?_, left⟩
  rw [MemoryAdapter.enforceBound, size, List.length_cons, MemoryAdapter.evict,
    if_pos (by rw [size, List.length_cons, full]; exact Nat.lt_succ_self bound), oldest]
  apply MemoryAdapter.evict_of_le
  rw [left.size_eq, full]

def inserted (now : Nat) (cache : MemoryAdapter) (value : List UInt8) (ttl : Option Nat) :
    MemEntry :=
  { value, exp := deadline now ttl, lastAccess := cache.accessSeq }

section Insert

variable (key : String) (value : List UInt8) (ttl : Option Nat)

theorem inserted_fresh (now : Nat) (cache : MemoryAdapter) :
    (inserted now cache value ttl).expired now = false :=
  deadline_fresh now ttl

theorem standing_inserted (cache : MemoryAdapter) (order : List (String × MemEntry)) :
    standing now (touch key (inserted now cache value ttl) order) =
      touch key { value, exp := deadline now ttl } (standing now order) :=
  standing_touch (inserted_fresh value ttl now cache)

theorem Coupled.inserted_tracks (coupled : Coupled bound now cache slots order) :
    Tracks MemEntry.lastAccess (cache.entries.insert key (inserted now cache value ttl))
      (cache.accessSeq + 1) (touch key (inserted now cache value ttl) order) :=
  coupled.tracks.insert key rfl

theorem set_coupled (coupled : Coupled bound now cache slots order)
    {order' : List (String × MemEntry)} {slots' : Slots}
    (tracks : Tracks MemEntry.lastAccess (MemoryAdapter.enforceBound (some bound)
      (cache.entries.insert key (inserted now cache value ttl))) (cache.accessSeq + 1) order')
    (same : slots' = standing now order') :
    Coupled bound now (cache.set now key value ttl) slots' order' := by
  have entries : (cache.set now key value ttl).entries = MemoryAdapter.enforceBound (some bound)
      (cache.entries.insert key (inserted now cache value ttl)) := by
    rw [← coupled.limit]
    rfl
  refine ⟨coupled.limit, ?_, ?_, same⟩
  · rw [entries]
    exact tracks
  · rw [entries]
    exact MemoryAdapter.enforceBound_size bound _

theorem set_roomy (coupled : Coupled bound now cache slots order)
    (room : cache.entries[key]? = none → cache.entries.size < bound) :
    Coupled bound now (cache.set now key value ttl) (slots.store bound now key value ttl)
      (touch key (inserted now cache value ttl) order) := by
  have tracks := coupled.inserted_tracks key value ttl
  have fits : (cache.entries.insert key (inserted now cache value ttl)).size ≤ bound := by
    rw [Std.TreeMap.size_insert, Std.TreeMap.contains_eq_isSome_getElem?]
    cases stored : cache.entries[key]? with
    | none => simpa using room stored
    | some entry => simpa using coupled.within
  have few : (touch key { value, exp := deadline now ttl } slots).length ≤ bound := by
    rw [coupled.slots_eq, ← standing_inserted key value ttl cache]
    exact (standing_length_le _ _).trans (tracks.size_eq ▸ fits)
  apply set_coupled key value ttl coupled
  · rw [MemoryAdapter.enforceBound, MemoryAdapter.evict_of_le fits]
    exact tracks
  · rw [Slots.store, if_neg (Nat.not_lt_of_le few), coupled.slots_eq, standing_inserted]

variable {key : String} {first : String × MemEntry} {rest : List (String × MemEntry)}

theorem touch_absent (coupled : Coupled bound now cache slots (first :: rest))
    (absent : cache.entries[key]? = none) (entry : MemEntry) :
    touch key entry (first :: rest) = first :: (rest ++ [(key, entry)]) := by
  have all : without key (first :: rest) = first :: rest := by
    rw [without, List.filter_eq_self]
    intro pair member
    have held := (coupled.tracks.holds pair.1 pair.2).mp member
    rw [decide_eq_true_iff]
    rintro rfl
    rw [absent] at held
    cases held
  rw [touch, all, List.cons_append]

theorem set_full (coupled : Coupled bound now cache slots (first :: rest))
    (absent : cache.entries[key]? = none) (full : bound ≤ cache.entries.size) :
    Tracks MemEntry.lastAccess (MemoryAdapter.enforceBound (some bound)
        (cache.entries.insert key (inserted now cache value ttl))) (cache.accessSeq + 1)
      (rest ++ [(key, inserted now cache value ttl)]) ∧
      (rest ++ [(key, inserted now cache value ttl)]).length = bound := by
  have tracks := coupled.inserted_tracks key value ttl
  rw [touch_absent coupled absent] at tracks
  have size := coupled.tracks.size_eq
  have within := coupled.within
  have length : (rest ++ [(key, inserted now cache value ttl)]).length = bound := by
    rw [List.length_append, List.length_singleton]
    rw [List.length_cons] at size
    omega
  obtain ⟨evicted, left⟩ := enforceBound_full tracks length
  rw [evicted]
  exact ⟨left, length⟩

theorem store_eq (coupled : Coupled bound now cache slots (first :: rest))
    (absent : cache.entries[key]? = none) :
    touch key { value, exp := deadline now ttl } slots =
      standing now (first :: (rest ++ [(key, inserted now cache value ttl)])) := by
  rw [coupled.slots_eq, ← standing_inserted key value ttl cache, touch_absent coupled absent]

theorem set_expired (coupled : Coupled bound now cache slots (first :: rest))
    (absent : cache.entries[key]? = none) (full : bound ≤ cache.entries.size)
    (dead : first.2.expired now = true) :
    Coupled bound now (cache.set now key value ttl) (slots.store bound now key value ttl)
      (rest ++ [(key, inserted now cache value ttl)]) := by
  obtain ⟨tracks, length⟩ := set_full value ttl coupled absent full
  apply set_coupled key value ttl coupled tracks
  have slots_eq := store_eq value ttl coupled absent
  rw [standing_cons_expired dead] at slots_eq
  have few := standing_length_le now (rest ++ [(key, inserted now cache value ttl)])
  rw [Slots.store, slots_eq, if_neg (Nat.not_lt_of_le (few.trans length.le))]

theorem set_all_fresh (coupled : Coupled bound now cache slots (first :: rest))
    (absent : cache.entries[key]? = none) (full : bound ≤ cache.entries.size)
    (alive : ∀ pair ∈ first :: rest, pair.2.expired now = false) :
    Coupled bound now (cache.set now key value ttl) (slots.store bound now key value ttl)
      (rest ++ [(key, inserted now cache value ttl)]) := by
  obtain ⟨tracks, length⟩ := set_full value ttl coupled absent full
  apply set_coupled key value ttl coupled tracks
  have all (pair : String × MemEntry)
      (member : pair ∈ first :: (rest ++ [(key, inserted now cache value ttl)])) :
      pair.2.expired now = false := by
    rw [← List.cons_append] at member
    rcases List.mem_append.mp member with before | last
    · exact alive pair before
    · rw [List.mem_singleton.mp last]
      exact inserted_fresh value ttl now cache
  have slots_eq := store_eq value ttl coupled absent
  rw [standing_all all] at slots_eq
  rw [Slots.store, slots_eq, if_pos (by simp [← length]), List.map_cons, List.tail_cons,
    standing_all fun pair member => all pair (List.mem_cons_of_mem first member)]

theorem first_evicted (coupled : Coupled bound now cache slots (first :: rest))
    (absent : cache.entries[key]? = none)
    {after : MemoryAdapter} {slots' : Slots} {entry : MemEntry}
    (coupled' : Coupled bound now after slots' (rest ++ [(key, entry)])) :
    after.entries[first.1]? = none := by
  have stored := (coupled.tracks.holds first.1 first.2).mp List.mem_cons_self
  by_contra held
  obtain ⟨other, held⟩ := Option.ne_none_iff_exists'.mp held
  rcases List.mem_append.mp ((coupled'.tracks.holds first.1 other).mpr held) with before | last
  · have twice := coupled.tracks.key_eq (List.mem_cons_of_mem first before) List.mem_cons_self rfl
    exact (List.nodup_cons.mp coupled.tracks.nodup).1 (twice ▸ before)
  · have same : first.1 = key := congrArg Prod.fst (List.mem_singleton.mp last)
    rw [same, absent] at stored
    cases stored

theorem set_divergent (coupled : Coupled bound now cache slots (first :: rest))
    (absent : cache.entries[key]? = none) (full : bound ≤ cache.entries.size)
    (alive : first.2.expired now = false)
    {dead : String × MemEntry} (member : dead ∈ rest) (gone : dead.2.expired now = true) :
    view now (cache.set now key value ttl) first.1 ≠
      lookup first.1 (slots.store bound now key value ttl) := by
  obtain ⟨tracks, length⟩ := set_full value ttl coupled absent full
  have after := set_coupled key value ttl coupled tracks rfl
  have slots_eq := store_eq value ttl coupled absent
  have few : (standing now (first :: (rest ++ [(key, inserted now cache value ttl)]))).length <
      (first :: (rest ++ [(key, inserted now cache value ttl)])).length := by
    rw [standing, List.length_map, List.length_filter_lt_length_iff_exists]
    exact ⟨dead, by simp [member], by simp [fresh, gone]⟩
  rw [List.length_cons, length] at few
  have kept : standing now (first :: (rest ++ [(key, inserted now cache value ttl)])) =
      (first.1, first.2.slot) ::
        standing now (rest ++ [(key, inserted now cache value ttl)]) := by
    rw [standing, List.filter_cons_of_pos (by simp [fresh, alive])]
    rfl
  rw [view_none (first_evicted coupled absent after), Slots.store, slots_eq,
    if_neg (Nat.not_lt_of_le (Nat.le_of_lt_succ few)), kept, lookup]
  simp

end Insert

theorem set_iff (positive : 0 < bound) (coupled : Coupled bound now cache slots order)
    (key : String) (value : List UInt8) (ttl : Option Nat) :
    (Orderly bound now cache (.set key value ttl) → ∃ order', Coupled bound now
      (cache.set now key value ttl) (slots.store bound now key value ttl) order') ∧
    ((∀ other, view now (cache.set now key value ttl) other =
      lookup other (slots.store bound now key value ttl)) →
      Orderly bound now cache (.set key value ttl)) := by
  by_cases room : cache.entries[key]? = none → cache.entries.size < bound
  · refine ⟨fun _ => ⟨_, set_roomy key value ttl coupled room⟩, ?_⟩
    intro _ absent full
    exact absurd (room absent) (Nat.not_lt_of_le full)
  · obtain ⟨absent, full⟩ : cache.entries[key]? = none ∧ bound ≤ cache.entries.size := by
      simpa using room
    cases order with
    | nil =>
      have empty := coupled.tracks.size_eq
      simp only [List.length_nil] at empty
      omega
    | cons first rest =>
      have oldest : MemoryAdapter.victim cache.entries = some first := coupled.tracks.oldest
      have stored (pair : String × MemEntry) (member : pair ∈ first :: rest) :
          cache.entries[pair.1]? = some pair.2 := (coupled.tracks.holds _ _).mp member
      constructor
      · intro orderly
        rcases orderly absent full with dead | alive
        · exact ⟨_, set_expired value ttl coupled absent full (dead first oldest)⟩
        · exact ⟨_, set_all_fresh value ttl coupled absent full fun pair member =>
            alive pair.1 pair.2 (stored pair member)⟩
      · intro same _ _
        cases expiry : first.2.expired now with
        | true =>
          left
          intro pair victim
          rw [oldest] at victim
          rw [← Option.some.inj victim, expiry]
        | false =>
          right
          intro other entry held
          by_contra gone
          rw [Bool.not_eq_false] at gone
          rcases List.mem_cons.mp ((coupled.tracks.holds other entry).mpr held) with here | later
          · rw [← here] at expiry
            exact Bool.false_ne_true (expiry.symm.trans gone)
          · exact set_divergent value ttl coupled absent full expiry later gone (same first.1)

theorem delete_prefix_iff (coupled : Coupled bound now cache slots order) (start : String) :
    Coupled bound now (cache.deletePrefix start).2
        (slots.filter fun pair => !startsWith pair.1 start)
        (order.filter fun pair => !startsWith pair.1 start) ∧
      ((cache.deletePrefix start).1 = (slots.filter fun pair => startsWith pair.1 start).length ↔
        Orderly bound now cache (.deletePrefix start)) := by
  have removed := (coupled.tracks.filter fun key _ => startsWith key start).size_eq
  have left := coupled.tracks.filter fun key _ => !startsWith key start
  have covered (keep : String → Bool) : (standing now order).filter (fun pair => keep pair.1) =
      standing now (order.filter fun pair => keep pair.1) := by
    rw [standing, List.filter_map, standing, List.filter_filter, List.filter_filter]
    congr 1
    apply List.filter_congr
    intro pair _
    exact Bool.and_comm _ _
  constructor
  · refine ⟨coupled.limit, left, ?_, ?_⟩
    · exact Std.TreeMap.size_filter_le_size.trans coupled.within
    · rw [coupled.slots_eq, covered fun key => !startsWith key start]
  · rw [coupled.slots_eq, covered fun key => startsWith key start, standing, List.length_map]
    show (cache.entries.filter fun key _ => startsWith key start).size = _ ↔ _
    rw [removed, eq_comm, List.length_filter_eq_length_iff]
    constructor
    · intro all key entry stored matching
      have alive := all (key, entry)
        (List.mem_filter.mpr ⟨(coupled.tracks.holds key entry).mpr stored, matching⟩)
      simpa [fresh] using alive
    · intro orderly pair member
      obtain ⟨stored, matching⟩ := List.mem_filter.mp member
      simp [fresh, orderly pair.1 pair.2 ((coupled.tracks.holds _ _).mp stored) matching]

theorem perform_iff (positive : 0 < bound) (coupled : Coupled bound now cache slots order)
    (live : slots.live now = slots) (call : MemoryCall) :
    (Orderly bound now cache call →
      Matched bound now (cache.perform now call) (slots.perform bound now call)) ∧
    ((cache.perform now call).1 = (slots.perform bound now call).1 →
      (∀ other, view now (cache.perform now call).2 other =
        lookup other (slots.perform bound now call).2) → Orderly bound now cache call) := by
  cases call with
  | get key => exact ⟨fun _ => get_matched coupled live key, fun _ _ => trivial⟩
  | «exists» key => exact ⟨fun _ => exists_matched coupled live key, fun _ _ => trivial⟩
  | set key value ttl =>
    obtain ⟨forward, backward⟩ := set_iff positive coupled key value ttl
    simp only [Slots.perform, live]
    exact ⟨fun orderly => ⟨rfl, forward orderly⟩, fun _ same => backward same⟩
  | setIfAbsent key value ttl =>
    have seen := coupled.view_eq key
    cases stored : cache.entries[key]? with
    | none =>
      rw [view_none stored] at seen
      obtain ⟨forward, backward⟩ := set_iff positive coupled key value ttl
      simp only [MemoryAdapter.perform, MemoryAdapter.setIfAbsent, stored, Slots.perform, live,
        ← seen]
      exact ⟨fun orderly => ⟨rfl, forward orderly⟩, fun _ same => backward same⟩
    | some entry =>
      have present (absent : cache.entries[key]? = none) : cache.entries.size < bound := by
        rw [stored] at absent
        cases absent
      have orderly : Orderly bound now cache (.setIfAbsent key value ttl) :=
        fun absent full => absurd (present absent) (Nat.not_lt_of_le full)
      refine ⟨fun _ => ?_, fun _ _ => orderly⟩
      cases expiry : entry.expired now with
      | false =>
        rw [view_fresh stored expiry] at seen
        simp only [Matched, MemoryAdapter.perform, MemoryAdapter.setIfAbsent, stored,
          Slots.perform, live, ← seen, expiry]
        exact ⟨rfl, order, coupled.stamped⟩
      | true =>
        rw [view_expired stored expiry] at seen
        simp only [Matched, MemoryAdapter.perform, MemoryAdapter.setIfAbsent, stored,
          Slots.perform, live, ← seen, expiry]
        exact ⟨rfl, _, set_roomy key value ttl coupled present⟩
  | delete key =>
    refine ⟨fun _ => ?_, fun _ _ => trivial⟩
    simp only [Matched, MemoryAdapter.perform, Slots.perform, live]
    exact ⟨trivial, _, coupled.erased key⟩
  | deletePrefix start =>
    obtain ⟨after, counts⟩ := delete_prefix_iff coupled start
    simp only [Matched, MemoryAdapter.perform, Slots.perform, live, Answer.count.injEq]
    exact ⟨fun orderly => ⟨counts.mpr orderly, _, after⟩, fun same _ => counts.mp same⟩
  | clear =>
    refine ⟨fun _ => ⟨rfl, [], coupled.limit, tracks_empty, ?_, rfl⟩, fun _ _ => trivial⟩
    simp [MemoryAdapter.perform, MemoryAdapter.clear]

theorem coupled_start (positive : 0 < bound) :
    ∃ order, Coupled bound 0 (MemoryAdapter.withMaxEntries bound) [] order :=
  ⟨[], by simp [MemoryAdapter.withMaxEntries, positive], tracks_empty,
    by simp [MemoryAdapter.withMaxEntries], rfl⟩

theorem Coupled.later (coupled : Coupled bound now cache slots order) (elapsed : Nat) :
    Coupled bound (now + elapsed) cache (slots.live (now + elapsed)) order :=
  ⟨coupled.limit, coupled.tracks, coupled.within,
    by rw [coupled.slots_eq, standing_later]⟩

theorem perform_live (bound now : Nat) (slots : Slots) (call : MemoryCall) :
    (slots.live now).perform bound now call = slots.perform bound now call := by
  have twice : (slots.live now).live now = slots.live now := by
    simp [Slots.live, List.filter_filter]
  cases call <;> simp only [Slots.perform, twice]

theorem agree_iff_orderly (bound : Nat) (positive : 0 < bound)
    (calls : List (MemoryCall × Nat)) :
    Always (step bound) Agree (start bound) calls ↔
      Along (step bound) (fun s choice => Orderly bound (s.now + choice.2) s.cache choice.1)
        (start bound) calls := by
  apply always_iff_along (I := fun s => ∃ order, Coupled bound s.now s.cache s.slots order)
  · rintro s ⟨call, elapsed⟩ ⟨order, coupled⟩ ⟨answers, -⟩
    have now := coupled.later elapsed
    have live : (s.slots.live (s.now + elapsed)).live (s.now + elapsed) =
        s.slots.live (s.now + elapsed) := by simp [Slots.live, List.filter_filter]
    obtain ⟨forward, backward⟩ := perform_iff positive now live call
    rw [perform_live] at forward backward
    refine ⟨_, rfl, ⟨?_, ?_⟩, fun orderly => (forward orderly).2⟩
    · rintro ⟨all, views⟩
      apply backward _ views
      exact all _ (List.mem_append_right _ (List.mem_singleton_self _))
    · intro orderly
      obtain ⟨same, order', coupled'⟩ := forward orderly
      refine ⟨?_, coupled'.view_eq⟩
      intro pair member
      rcases List.mem_append.mp member with before | last
      · exact answers pair before
      · rw [List.mem_singleton.mp last]
        exact same
  · exact coupled_start positive
  · refine ⟨by simp [start], ?_⟩
    intro key
    obtain ⟨order, coupled⟩ := coupled_start positive
    exact coupled.view_eq key

theorem fresh_of_all {now : Nat} {entries : Std.TreeMap String MemEntry}
    (all : (entries.toList.all fun pair => !pair.2.expired now) = true) {key : String}
    {entry : MemEntry} (held : entries[key]? = some entry) : entry.expired now = false := by
  have among := Std.TreeMap.mem_toList_iff_getElem?_eq_some.mpr held
  simpa using List.all_eq_true.mp all _ among

-- The expired entry makes room, and then the oldest of those that are alive.
def evictions : List (MemoryCall × Nat) :=
  [(.set "a" [1] (some 5), 0), (.set "b" [2] none, 0), (.set "c" [3] none, 10),
    (.set "d" [4] none, 0), (.get "b", 0), (.get "d", 0)]

theorem agree_with_evictions : Always (step 2) Agree (start 2) evictions := by
  rw [agree_iff_orderly 2 (by decide)]
  refine ⟨fun _ full => absurd full (by decide), fun _ first => ?_⟩
  obtain rfl := Option.some.inj first
  refine ⟨fun _ full => absurd full (by decide), fun _ second => ?_⟩
  obtain rfl := Option.some.inj second
  refine ⟨fun _ _ => .inl fun pair oldest => ?_, fun _ third => ?_⟩
  · obtain rfl := Option.some.inj oldest
    decide
  obtain rfl := Option.some.inj third
  refine ⟨fun _ _ => .inr fun key entry held => fresh_of_all (by decide) held, fun _ fourth => ?_⟩
  exact ⟨trivial, fun _ _ => ⟨trivial, fun _ _ => trivial⟩⟩

theorem live_entry_evicted :
    ∃ s, run (step 2) (start 2)
        [(.set "a" [1] none, 0), (.set "b" [2] (some 5), 0), (.set "c" [3] none, 10),
          (.get "a", 0)] = some s ∧
      s.answers.getLast? = some (.missing, .found [1]) ∧ ¬ Agree s := by
  refine ⟨_, rfl, by decide, ?_⟩
  rintro ⟨same, -⟩
  exact absurd (same (.missing, .found [1]) (by decide)) (by decide)

end SideBySide

end Firefly.Cache
