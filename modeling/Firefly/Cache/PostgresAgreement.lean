import Firefly.Cache.Memory

set_option autoImplicit false

-- A table keeps expired rows until they are overwritten or deleted; the unbounded memory cache
-- drops an expired entry when it meets it.

namespace Firefly.Cache.Postgres

open Runs

structure Row where
  value : List UInt8
  expiresAt : Option Nat
deriving DecidableEq

-- The primary key is the cache key.
abbrev Table := Std.TreeMap String Row

-- `expires_at IS NULL OR expires_at > now`
def Row.live (now : Nat) (row : Row) : Bool := row.expiresAt.all fun expiry => now < expiry

def likeEscape (start : List Char) : List Char :=
  start.flatMap fun c => if c = '%' ∨ c = '_' ∨ c = '\\' then ['\\', c] else [c]

-- `LIKE .. ESCAPE '\'`
def like : List Char → List Char → Bool
  | [], text => text.isEmpty
  | '\\' :: c :: pattern, text => text.head? = some c && like pattern text.tail
  | '%' :: pattern, text => text.tails.any fun rest => like pattern rest
  | '_' :: pattern, text => !text.isEmpty && like pattern text.tail
  | c :: pattern, text => text.head? = some c && like pattern text.tail

def startsWith (start : String) (key : String) : Bool :=
  like (likeEscape start.toList ++ ['%']) key.toList

def perform (now : Nat) (table : Table) : MemoryCall → Answer × Table
  | .get key =>
    (((table[key]?.filter (Row.live now)).map fun row => .found row.value).getD .missing, table)
  | .set key value ttl => (.done, table.insert key ⟨value, deadline now ttl⟩)
  -- `ON CONFLICT (cache_key) DO NOTHING`
  | .setIfAbsent key value ttl =>
    if key ∈ table then (.flag false, table) else (.flag true, table.insert key ⟨value, deadline now ttl⟩)
  | .exists key => (.flag (table[key]?.filter (Row.live now)).isSome, table)
  | .delete key => (.done, table.erase key)
  | .deletePrefix start =>
    (.count (table.filter fun key _ => startsWith start key).size,
      table.filter fun key _ => !startsWith start key)
  | .clear => (.done, ∅)

theorem like_percent (text : List Char) : like ['%'] text = true := by
  simp only [like, List.any_eq_true, List.mem_tails]
  exact ⟨[], List.nil_suffix, rfl⟩

theorem like_escaped (start text : List Char) :
    like (likeEscape start ++ ['%']) text = start.isPrefixOf text := by
  induction start generalizing text with
  | nil => simpa [likeEscape] using like_percent text
  | cons c start ih =>
    have rest : likeEscape (c :: start) ++ ['%'] =
        (if c = '%' ∨ c = '_' ∨ c = '\\' then ['\\', c] else [c]) ++ (likeEscape start ++ ['%']) := by
      simp [likeEscape]
    rw [rest]
    have head : like ((if c = '%' ∨ c = '_' ∨ c = '\\' then ['\\', c] else [c]) ++ (likeEscape start ++ ['%']))
        text = (text.head? = some c && like (likeEscape start ++ ['%']) text.tail) := by
      split
      · simp [like]
      · next plain =>
        obtain ⟨percent, underscore, backslash⟩ : c ≠ '%' ∧ c ≠ '_' ∧ c ≠ '\\' := by simpa using plain
        rw [List.singleton_append, like]
        all_goals simp_all
    rw [head, ih]
    cases text with
    | nil => simp
    | cons d text =>
      by_cases same : c = d
      · simp [same]
      · simp [List.isPrefixOf, same, Ne.symm same]

theorem startsWith_eq (start key : String) : startsWith start key = Cache.startsWith key start :=
  like_escaped start.toList key.toList

structure Pair where
  now : Nat := 0
  table : Table := ∅
  cache : MemoryAdapter := {}
  answers : List (Answer × Answer) := []

def Pair.step (p : Pair) (choice : MemoryCall × Nat) : Option Pair :=
  let now := p.now + choice.2
  let (answer, table) := perform now p.table choice.1
  let (expected, cache) := p.cache.perform now choice.1
  some { now, table, cache, answers := p.answers ++ [(answer, expected)] }

def Pair.Alike (p : Pair) : Prop := ∀ pair ∈ p.answers, pair.1 = pair.2

def Clear (now : Nat) (table : Table) (cache : MemoryAdapter) : MemoryCall → Prop
  | .get key | .exists key => ∀ row, table[key]? = some row → row.expiresAt ≠ some now
  | .setIfAbsent key _ _ => ∀ row, table[key]? = some row → pastDeadline now row.expiresAt = false
  | .deletePrefix start => ∀ key ∈ table, Cache.startsWith key start → key ∈ cache.entries
  | _ => True

/-- Of an expired row the memory cache may have dropped the entry. -/
inductive Held (now : Nat) : Option Row → Option MemEntry → Prop
  | absent : Held now none none
  | both {value : List UInt8} {exp : Option Nat} {seq : Nat} :
    Held now (some ⟨value, exp⟩) (some ⟨value, exp, seq⟩)
  | dropped {row : Row} (past : pastDeadline now row.expiresAt = true) : Held now (some row) none

structure Coupled (now : Nat) (table : Table) (cache : MemoryAdapter) : Prop where
  unbounded : cache.maxEntries = none
  held : ∀ key : String, Held now table[key]? cache.entries[key]?

section Coupled

variable {now : Nat} {table : Table} {cache : MemoryAdapter} {key : String}

theorem pastDeadline_later {exp : Option Nat} (past : pastDeadline now exp = true) (elapsed : Nat) :
    pastDeadline (now + elapsed) exp = true := by
  cases exp with
  | none => exact past
  | some expiry =>
    simp only [pastDeadline, decide_eq_true_eq] at past ⊢
    omega

theorem Held.later {row : Option Row} {entry : Option MemEntry} (held : Held now row entry) (elapsed : Nat) :
    Held (now + elapsed) row entry := by
  cases held with
  | absent => exact .absent
  | both => exact .both
  | dropped past => exact .dropped (pastDeadline_later past elapsed)

theorem Held.drop {row : Option Row} {entry : MemEntry} (held : Held now row (some entry))
    (expired : entry.expired now = true) : Held now row none := by
  cases held with
  | both => exact .dropped expired

theorem Held.touch {row : Option Row} {entry : MemEntry} (held : Held now row (some entry)) (seq : Nat) :
    Held now row (some { entry with lastAccess := seq }) := by
  cases held with
  | both => exact .both

theorem Coupled.later (coupled : Coupled now table cache) (elapsed : Nat) :
    Coupled (now + elapsed) table cache :=
  ⟨coupled.unbounded, fun key => (coupled.held key).later elapsed⟩

theorem Coupled.collect (coupled : Coupled now table cache) {entry : MemEntry}
    (stored : cache.entries[key]? = some entry) (expired : entry.expired now = true) :
    Coupled now table { cache with entries := cache.entries.erase key } where
  unbounded := coupled.unbounded
  held other := by
    by_cases same : key = other
    · subst same
      have held := coupled.held key
      rw [stored] at held
      simpa using held.drop expired
    · simpa [Std.TreeMap.getElem?_erase, same] using coupled.held other

theorem Coupled.touch (coupled : Coupled now table cache) {entry : MemEntry}
    (stored : cache.entries[key]? = some entry) (seq : Nat) :
    Coupled now table { cache with entries := cache.entries.insert key { entry with lastAccess := seq } } where
  unbounded := coupled.unbounded
  held other := by
    by_cases same : key = other
    · subst same
      have held := coupled.held key
      rw [stored] at held
      simpa using held.touch seq
    · simpa [Std.TreeMap.getElem?_insert, same] using coupled.held other

theorem Coupled.stamp (coupled : Coupled now table cache) (seq : Nat) :
    Coupled now table { cache with accessSeq := seq } :=
  ⟨coupled.unbounded, coupled.held⟩

theorem Coupled.insert (coupled : Coupled now table cache) (key : String) (value : List UInt8)
    (ttl : Option Nat) (seq : Nat) :
    Coupled now (table.insert key ⟨value, deadline now ttl⟩) (cache.insert now key value ttl seq) where
  unbounded := coupled.unbounded
  held other := by
    simp only [MemoryAdapter.insert, MemoryAdapter.enforceBound, coupled.unbounded]
    by_cases same : key = other
    · subst same
      simpa using Held.both
    · simpa [Std.TreeMap.getElem?_insert, same] using coupled.held other

theorem Coupled.erase (coupled : Coupled now table cache) (key : String) :
    Coupled now (table.erase key) (cache.delete key) where
  unbounded := coupled.unbounded
  held other := by
    by_cases same : key = other
    · subst same
      simpa [MemoryAdapter.delete] using Held.absent
    · simpa [MemoryAdapter.delete, Std.TreeMap.getElem?_erase, same] using coupled.held other

theorem Coupled.filter (coupled : Coupled now table cache) (keep : String → Bool) :
    Coupled now (table.filter fun key _ => keep key)
      { cache with entries := cache.entries.filter fun key _ => keep key } where
  unbounded := coupled.unbounded
  held other := by
    have whole {α : Type} (o : Option α) : o.filter (fun _ => true) = o := by cases o <;> rfl
    simp only [Std.TreeMap.getElem?_filter']
    cases keep other with
    | true => simpa only [whole] using coupled.held other
    | false => simpa using Held.absent

theorem Coupled.mem (coupled : Coupled now table cache) (stored : key ∈ cache.entries) : key ∈ table := by
  rw [← Std.TreeMap.isSome_getElem?_iff_mem] at stored ⊢
  have held := coupled.held key
  generalize table[key]? = row at held ⊢
  generalize cache.entries[key]? = entry at held stored
  cases held <;> simp_all

-- The table has the keys of the memory cache, so that equal counts are those of the same keys.
theorem Coupled.count_iff (coupled : Coupled now table cache) (counts : String → Bool) :
    (table.filter fun key _ => counts key).size = (cache.entries.filter fun key _ => counts key).size ↔
      ∀ key ∈ table, counts key → key ∈ cache.entries := by
  rw [← Std.TreeMap.length_keys, ← Std.TreeMap.length_keys, Std.TreeMap.keys_filter_key,
    Std.TreeMap.keys_filter_key]
  have within : cache.entries.keys.filter counts ⊆ table.keys.filter counts := by
    intro key member
    obtain ⟨inside, counted⟩ := List.mem_filter.mp member
    exact List.mem_filter.mpr ⟨Std.TreeMap.mem_keys.mpr (coupled.mem (Std.TreeMap.mem_keys.mp inside)), counted⟩
  have distinct := List.subperm_of_subset (List.Nodup.filter counts Std.TreeMap.nodup_keys) within
  constructor
  · intro same key stored counted
    have all := (distinct.perm_of_length_le same.le).mem_iff (a := key)
    have member : key ∈ table.keys.filter counts :=
      List.mem_filter.mpr ⟨Std.TreeMap.mem_keys.mpr stored, counted⟩
    exact Std.TreeMap.mem_keys.mp (List.mem_filter.mp (all.mpr member)).1
  · intro all
    refine le_antisymm (List.Subperm.length_le ?_) distinct.length_le
    refine List.subperm_of_subset (List.Nodup.filter counts Std.TreeMap.nodup_keys) fun key member => ?_
    obtain ⟨inside, counted⟩ := List.mem_filter.mp member
    exact List.mem_filter.mpr
      ⟨Std.TreeMap.mem_keys.mpr (all key (Std.TreeMap.mem_keys.mp inside) counted), counted⟩

theorem live_iff {row : Row} (apart : row.expiresAt ≠ some now) :
    row.live now = !pastDeadline now row.expiresAt := by
  cases expiry : row.expiresAt with
  | none => simp [Row.live, pastDeadline, expiry]
  | some exp =>
    have : exp ≠ now := by simpa [expiry] using apart
    simp only [Row.live, pastDeadline, expiry, Option.all_some]
    rw [← decide_not, decide_eq_decide]
    omega

theorem ne_now_of_past {exp : Option Nat} (past : pastDeadline now exp = true) : exp ≠ some now := by
  rintro rfl
  simp [pastDeadline] at past

theorem Row.live_of_past {row : Row} (past : pastDeadline now row.expiresAt = true) : row.live now = false := by
  rw [live_iff (ne_now_of_past past), past]
  rfl

theorem Coupled.found (coupled : Coupled now table cache) (key : String) :
    (table[key]? = none ∧ cache.entries[key]? = none) ∨
    (∃ row, table[key]? = some row ∧ cache.entries[key]? = none ∧ pastDeadline now row.expiresAt = true) ∨
    ∃ value exp seq, table[key]? = some ⟨value, exp⟩ ∧ cache.entries[key]? = some ⟨value, exp, seq⟩ := by
  have held := coupled.held key
  generalize table[key]? = row at held ⊢
  generalize cache.entries[key]? = entry at held ⊢
  cases held with
  | absent => exact .inl ⟨rfl, rfl⟩
  | dropped past => exact .inr (.inl ⟨_, rfl, rfl, past⟩)
  | both => exact .inr (.inr ⟨_, _, _, rfl, rfl⟩)

theorem Coupled.read (coupled : Coupled now table cache) (key : String) :
    (table[key]?.filter (Row.live now) = none ∧ cache.entries[key]? = none ∧
      ∀ row, table[key]? = some row → row.expiresAt ≠ some now) ∨
    ∃ value exp seq, table[key]? = some ⟨value, exp⟩ ∧ cache.entries[key]? = some ⟨value, exp, seq⟩ := by
  obtain ⟨row, entry⟩ | ⟨row, stored, entry, past⟩ | both := coupled.found key
  · exact .inl ⟨by simp [row], entry, by simp [row]⟩
  · have unread : table[key]?.filter (Row.live now) = none := by
      simp [stored, Option.filter, row.live_of_past past]
    refine .inl ⟨unread, entry, fun other found => ?_⟩
    obtain rfl : row = other := by simpa [stored] using found
    exact ne_now_of_past past
  · exact .inr both

def Exact (now : Nat) (table : Table) (cache : MemoryAdapter) (call : MemoryCall) : Prop :=
  ((Postgres.perform now table call).1 = (cache.perform now call).1 ↔ Clear now table cache call) ∧
    (Clear now table cache call →
      Coupled now (Postgres.perform now table call).2 (cache.perform now call).2)

theorem Coupled.get (coupled : Coupled now table cache) (key : String) : Exact now table cache (.get key) := by
  obtain ⟨unread, entry, apart⟩ | ⟨value, exp, seq, stored, entry⟩ := coupled.read key
  · simp only [Exact, Clear, Postgres.perform, MemoryAdapter.perform, MemoryAdapter.get, unread, entry]
    exact ⟨⟨fun _ => apart, fun _ => rfl⟩, fun _ => coupled.stamp _⟩
  · simp only [Exact, Clear, Postgres.perform, MemoryAdapter.perform, MemoryAdapter.get, stored, entry]
    by_cases apart : exp = some now
    · simp [apart, Option.filter, Row.live, MemEntry.expired, pastDeadline]
    · have live : Row.live now ⟨value, exp⟩ = !pastDeadline now exp := live_iff apart
      cases past : pastDeadline now exp with
      | true =>
        have collected := (coupled.stamp (cache.accessSeq + 1)).collect entry past
        simpa [Option.filter, live, past, MemEntry.expired, apart] using collected
      | false =>
        have touched := (coupled.stamp (cache.accessSeq + 1)).touch entry cache.accessSeq
        simpa [Option.filter, live, past, MemEntry.expired, apart] using touched

theorem Coupled.exists (coupled : Coupled now table cache) (key : String) :
    Exact now table cache (.exists key) := by
  obtain ⟨unread, entry, apart⟩ | ⟨value, exp, seq, stored, entry⟩ := coupled.read key
  · simp only [Exact, Clear, Postgres.perform, MemoryAdapter.perform, MemoryAdapter.exists', unread, entry]
    exact ⟨⟨fun _ => apart, fun _ => rfl⟩, fun _ => coupled⟩
  · simp only [Exact, Clear, Postgres.perform, MemoryAdapter.perform, MemoryAdapter.exists', stored, entry]
    by_cases apart : exp = some now
    · simp [apart, Option.filter, Row.live, MemEntry.expired, pastDeadline]
    · have live : Row.live now ⟨value, exp⟩ = !pastDeadline now exp := live_iff apart
      cases past : pastDeadline now exp with
      | true => simpa [Option.filter, live, past, MemEntry.expired, apart] using coupled.collect entry past
      | false => simpa [Option.filter, live, past, MemEntry.expired, apart] using coupled

theorem Coupled.setIfAbsent (coupled : Coupled now table cache) (key : String) (value : List UInt8)
    (ttl : Option Nat) : Exact now table cache (.setIfAbsent key value ttl) := by
  have inserted := (coupled.stamp (cache.accessSeq + 1)).insert key value ttl cache.accessSeq
  obtain ⟨row, entry⟩ | ⟨row, stored, entry, past⟩ | ⟨held, exp, seq, stored, entry⟩ := coupled.found key
  all_goals
    simp only [Exact, Clear, Postgres.perform, MemoryAdapter.perform, MemoryAdapter.setIfAbsent, entry,
      ← Std.TreeMap.isSome_getElem?_iff_mem]
  · simpa [row] using inserted
  · simp [stored, past]
  · cases past : pastDeadline now exp with
    | true => simp [stored, past, MemEntry.expired]
    | false => simpa [stored, past, MemEntry.expired] using coupled.stamp _

theorem Coupled.deletePrefix (coupled : Coupled now table cache) (start : String) :
    Exact now table cache (.deletePrefix start) := by
  simp only [Exact, Clear, Postgres.perform, MemoryAdapter.perform, MemoryAdapter.deletePrefix,
    startsWith_eq, Answer.count.injEq]
  exact ⟨coupled.count_iff _, fun _ => coupled.filter fun key => !Cache.startsWith key start⟩

theorem Coupled.exact (coupled : Coupled now table cache) (call : MemoryCall) : Exact now table cache call := by
  cases call with
  | get key => exact coupled.get key
  | «exists» key => exact coupled.exists key
  | setIfAbsent key value ttl => exact coupled.setIfAbsent key value ttl
  | deletePrefix start => exact coupled.deletePrefix start
  | set key value ttl =>
    exact ⟨⟨fun _ => trivial, fun _ => rfl⟩, fun _ =>
      (coupled.stamp (cache.accessSeq + 1)).insert key value ttl cache.accessSeq⟩
  | delete key => exact ⟨⟨fun _ => trivial, fun _ => rfl⟩, fun _ => coupled.erase key⟩
  | clear =>
    refine ⟨⟨fun _ => trivial, fun _ => rfl⟩, fun _ => ⟨coupled.unbounded, fun other => ?_⟩⟩
    simpa [Postgres.perform, MemoryAdapter.perform, MemoryAdapter.clear] using Held.absent

end Coupled

-- The row has expired, and still it is in the way.
example :
    let table : Table := (∅ : Table).insert "a" ⟨[1], some 5⟩
    let cache : MemoryAdapter := { entries := (∅ : Std.TreeMap String MemEntry).insert "a" ⟨[1], some 5, 0⟩ }
    (perform 9 table (.setIfAbsent "a" [2] none)).1 = .flag false ∧
      (cache.perform 9 (.setIfAbsent "a" [2] none)).1 = .flag true := by
  simp [perform, MemoryAdapter.perform, MemoryAdapter.setIfAbsent, MemEntry.expired, pastDeadline]

end Firefly.Cache.Postgres
