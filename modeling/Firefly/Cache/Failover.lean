import Firefly.Cache.Memory
import Firefly.Shared.Runs

set_option autoImplicit false

namespace Firefly.Cache

abbrev Entries := Std.TreeMap String (List UInt8)

namespace Adapter

def get (key : String) (entries : Entries) : Except CacheError (List UInt8) × Entries :=
  match entries[key]? with
  | some value => (.ok value, entries)
  | none => (.error .notFound, entries)

def set (key : String) (value : List UInt8) (entries : Entries) :
    Except CacheError Unit × Entries :=
  (.ok (), entries.insert key value)

def delete (key : String) (entries : Entries) : Except CacheError Unit × Entries :=
  (.ok (), entries.erase key)

def clear (_ : Entries) : Except CacheError Unit × Entries :=
  (.ok (), ∅)

def deletePrefix (start : String) (entries : Entries) : Except CacheError Nat × Entries :=
  (.ok (entries.filter fun key _ => startsWith key start).size,
    entries.filter fun key _ => !startsWith key start)

end Adapter

def isTransport (error : CacheError) : Bool :=
  !error.isNotFound

structure Outage where
  error : CacheError
  transport : isTransport error = true

structure FallbackAdapter where
  primary : Entries
  secondary : Entries

namespace FallbackAdapter

open Runs

-- A call that fails leaves the primary as it was.
def reached {α : Type} (outage : Option Outage) (call : Entries → Except CacheError α × Entries)
    (entries : Entries) : Except CacheError α × Entries :=
  match outage with
  | none => call entries
  | some outage => (.error outage.error, entries)

def get (outage : Option Outage) (cache : FallbackAdapter) (key : String) :
    Except CacheError (List UInt8) :=
  match (reached outage (Adapter.get key) cache.primary).1 with
  | .ok value => .ok value
  | .error error =>
    if !error.isNotFound && !isTransport error then .error error
    else (Adapter.get key cache.secondary).1

-- A call to both adapters: `missed` stands for what the primary did not answer.
def both {α : Type} (missed : α) (total : α → α → α)
    (call : Entries → Except CacheError α × Entries) (outage : Option Outage)
    (cache : FallbackAdapter) : Except CacheError α × FallbackAdapter :=
  let (answer, primary) := reached outage call cache.primary
  let second (first : α) :=
    let (answer, secondary) := call cache.secondary
    (answer.map (total first), { primary, secondary })
  match answer with
  | .ok first => second first
  | .error error =>
    if isTransport error then second missed
    else (.error error, { cache with primary })

def set (key : String) (value : List UInt8) :
    Option Outage → FallbackAdapter → Except CacheError Unit × FallbackAdapter :=
  both () (fun _ second => second) (Adapter.set key value)

def delete (key : String) :
    Option Outage → FallbackAdapter → Except CacheError Unit × FallbackAdapter :=
  both () (fun _ second => second) (Adapter.delete key)

def clear : Option Outage → FallbackAdapter → Except CacheError Unit × FallbackAdapter :=
  both () (fun _ second => second) Adapter.clear

def deletePrefix (start : String) :
    Option Outage → FallbackAdapter → Except CacheError Nat × FallbackAdapter :=
  both 0 (fun first second => first + second) (Adapter.deletePrefix start)

inductive Call where
  | get (key : String)
  | set (key : String) (value : List UInt8)
  | delete (key : String)
  | deletePrefix (start : String)
  | clear
deriving DecidableEq, Repr

def Call.leaves : Call → String → Option (Option (List UInt8))
  | .get _, _ => none
  | .set key value, other => if key = other then some (some value) else none
  | .delete key, other => if key = other then some none else none
  | .deletePrefix start, other => if startsWith other start then some none else none
  | .clear, _ => some none

def perform (outage : Option Outage) (cache : FallbackAdapter) :
    Call → Except CacheError Unit × FallbackAdapter
  | .get key => ((cache.get outage key).map fun _ => (), cache)
  | .set key value => set key value outage cache
  | .delete key => delete key outage cache
  | .deletePrefix start =>
    let (answer, cache) := deletePrefix start outage cache
    (answer.map fun _ => (), cache)
  | .clear => clear outage cache

structure Tracked where
  cache : FallbackAdapter
  last : String → Option (Option (List UInt8))

def start (cache : FallbackAdapter) : Tracked :=
  { cache, last := fun _ => none }

def step (s : Tracked) (choice : Call × Option Outage) : Option Tracked :=
  let (answer, cache) := perform choice.2 s.cache choice.1
  some
    { cache
      last := fun key =>
        match answer, choice.1.leaves key with
        | .ok (), some left => some left
        | _, _ => s.last key }

def answer : Option (List UInt8) → Except CacheError (List UInt8)
  | some value => .ok value
  | none => .error .notFound

def Coherent (s : Tracked) : Prop :=
  ∀ key left, s.last key = some left → ∀ outage, s.cache.get outage key = answer left

/-- A call that the primary fails covers no key at which the primary holds something else. -/
def Harmless (s : Tracked) (choice : Call × Option Outage) : Prop :=
  choice.2.isSome → ∀ key left, choice.1.leaves key = some left →
    ∀ held, s.cache.primary[key]? = some held → left = some held

def Call.applied (entries : Entries) : Call → Entries
  | .get _ => entries
  | .set key value => entries.insert key value
  | .delete key => entries.erase key
  | .deletePrefix start => entries.filter fun key _ => !startsWith key start
  | .clear => ∅

theorem applied_getElem (call : Call) (entries : Entries) (key : String) :
    (call.applied entries)[key]? = (call.leaves key).getD entries[key]? := by
  cases call with
  | get key' => rfl
  | set key' value =>
    by_cases same : key' = key <;>
      simp [Call.applied, Call.leaves, Std.TreeMap.getElem?_insert, same]
  | delete key' =>
    by_cases same : key' = key <;>
      simp [Call.applied, Call.leaves, Std.TreeMap.getElem?_erase, same]
  | deletePrefix start =>
    cases held : entries[key]? <;> by_cases covered : startsWith key start <;>
      simp [Call.applied, Call.leaves, held, covered]
  | clear => simp [Call.applied, Call.leaves]

theorem get_eq (outage : Option Outage) (cache : FallbackAdapter) (key : String) :
    cache.get outage key =
      answer ((if outage.isSome then none else cache.primary[key]?).or cache.secondary[key]?) := by
  have second : (Adapter.get key cache.secondary).1 = answer cache.secondary[key]? := by
    cases held : cache.secondary[key]? <;> simp [Adapter.get, held, answer]
  cases outage with
  | some outage =>
    have transport := outage.transport
    simp [get, reached, transport, second]
  | none =>
    cases held : cache.primary[key]? with
    | some value => simp [get, reached, Adapter.get, held, answer]
    | none => simp [get, reached, Adapter.get, held, CacheError.isNotFound, ← second]

theorem both_eq {α : Type} (missed : α) (total : α → α → α)
    {call : Entries → Except CacheError α × Entries} {next : Entries → Entries}
    (answers : ∀ entries, ∃ answer, call entries = (.ok answer, next entries))
    (outage : Option Outage) (cache : FallbackAdapter) :
    ∃ answer, both missed total call outage cache =
      (.ok answer,
        { primary := if outage.isSome then cache.primary else next cache.primary
          secondary := next cache.secondary }) := by
  obtain ⟨first, firstly⟩ := answers cache.primary
  obtain ⟨second, secondly⟩ := answers cache.secondary
  cases outage with
  | none =>
    exact ⟨total first second, by simp [both, reached, firstly, secondly, Except.map]⟩
  | some outage =>
    exact ⟨total missed second, by
      simp [both, reached, outage.transport, secondly, Except.map]⟩

theorem perform_eq (outage : Option Outage) (cache : FallbackAdapter) (call : Call) :
    (perform outage cache call).2 =
      { primary := if outage.isSome then cache.primary else call.applied cache.primary
        secondary := call.applied cache.secondary } ∧
      ∀ key left, call.leaves key = some left → (perform outage cache call).1 = .ok () := by
  cases call with
  | get key =>
    constructor
    · cases outage <;> rfl
    · intro key left leaves
      simp [Call.leaves] at leaves
  | set key value =>
    have answers (entries : Entries) : ∃ answer, Adapter.set key value entries =
        (.ok answer, Call.applied entries (.set key value)) := ⟨(), rfl⟩
    obtain ⟨answer, performed⟩ := both_eq () (fun _ second => second) answers outage cache
    simp [perform, set, performed]
  | delete key =>
    have answers (entries : Entries) : ∃ answer, Adapter.delete key entries =
        (.ok answer, Call.applied entries (.delete key)) := ⟨(), rfl⟩
    obtain ⟨answer, performed⟩ := both_eq () (fun _ second => second) answers outage cache
    simp [perform, delete, performed]
  | deletePrefix start =>
    have answers (entries : Entries) : ∃ answer, Adapter.deletePrefix start entries =
        (.ok answer, Call.applied entries (.deletePrefix start)) := ⟨_, rfl⟩
    obtain ⟨answer, performed⟩ :=
      both_eq 0 (fun first second => first + second) answers outage cache
    simp [perform, deletePrefix, performed, Except.map]
  | clear =>
    have answers (entries : Entries) : ∃ answer, Adapter.clear entries =
        (.ok answer, Call.applied entries .clear) := ⟨(), rfl⟩
    obtain ⟨answer, performed⟩ := both_eq () (fun _ second => second) answers outage cache
    simp [perform, clear, performed]

def Tracked.after (s : Tracked) (choice : Call × Option Outage) : Tracked :=
  { cache :=
      { primary := if choice.2.isSome then s.cache.primary else choice.1.applied s.cache.primary
        secondary := choice.1.applied s.cache.secondary }
    last := fun key => (choice.1.leaves key).or (s.last key) }

theorem step_eq (s : Tracked) (choice : Call × Option Outage) :
    step s choice = some (s.after choice) := by
  obtain ⟨cache, succeeds⟩ := perform_eq choice.2 s.cache choice.1
  rw [Tracked.after, ← cache]
  simp only [step, Option.some.injEq, Tracked.mk.injEq, true_and]
  funext key
  cases leaves : choice.1.leaves key with
  | none => simp
  | some left => simp [succeeds key left leaves]

theorem after_last {s : Tracked} {choice : Call × Option Outage} {key : String}
    {left : Option (List UInt8)} (written : (s.after choice).last key = some left) :
    choice.1.leaves key = some left ∨ choice.1.leaves key = none ∧ s.last key = some left := by
  cases leaves : choice.1.leaves key with
  | none => simpa [Tracked.after, leaves] using written
  | some now => simpa [Tracked.after, leaves] using written

def Recorded (s : Tracked) : Prop :=
  ∀ key left, s.last key = some left → s.cache.secondary[key]? = left

theorem coherent_iff {s : Tracked} (recorded : Recorded s) :
    Coherent s ↔ ∀ key left, s.last key = some left →
      ∀ held, s.cache.primary[key]? = some held → left = some held := by
  constructor
  · intro coherent key left written held primary
    have answered := coherent key left written none
    rw [get_eq, primary] at answered
    cases left with
    | none => simp [answer] at answered
    | some value =>
      simp only [Option.isSome_none, Bool.false_eq_true, if_false, Option.some_or, answer,
        Except.ok.injEq] at answered
      rw [answered]
  · intro level key left written outage
    rw [get_eq, recorded key left written]
    congr 1
    cases outage with
    | some outage => simp
    | none =>
      cases primary : s.cache.primary[key]? with
      | none => simp
      | some held => simp [level key left written held primary]

theorem recorded_after {s : Tracked} (recorded : Recorded s) (choice : Call × Option Outage) :
    Recorded (s.after choice) := by
  intro key left written
  show (choice.1.applied s.cache.secondary)[key]? = left
  rw [applied_getElem]
  rcases after_last written with leaves | ⟨leaves, before⟩
  · rw [leaves, Option.getD_some]
  · rw [leaves, Option.getD_none]
    exact recorded key left before

theorem coherent_after {s : Tracked} (recorded : Recorded s) (coherent : Coherent s)
    (choice : Call × Option Outage) : Coherent (s.after choice) ↔ Harmless s choice := by
  rw [coherent_iff (recorded_after recorded choice)]
  have level := (coherent_iff recorded).mp coherent
  cases down : choice.2 with
  | none =>
    -- The primary has had the call too: it holds what the call leaves.
    have same : (s.after choice).cache.primary = choice.1.applied s.cache.primary := by
      simp [Tracked.after, down]
    simp only [Harmless, down, Option.isSome_none, Bool.false_eq_true, false_imp_iff, iff_true]
    intro key left written held primary
    rw [same, applied_getElem] at primary
    rcases after_last written with leaves | ⟨leaves, before⟩
    · rw [leaves, Option.getD_some] at primary
      exact primary
    · rw [leaves, Option.getD_none] at primary
      exact level key left before held primary
  | some outage =>
    have same : (s.after choice).cache.primary = s.cache.primary := by
      simp [Tracked.after, down]
    rw [same]
    constructor
    · intro next_level _ key left leaves
      exact next_level key left (by simp [Tracked.after, leaves])
    · intro harmless key left written held primary
      rcases after_last written with leaves | ⟨-, before⟩
      · exact harmless (by simp [down]) key left leaves held primary
      · exact level key left before held primary

theorem coherent_start (cache : FallbackAdapter) :
    Recorded (start cache) ∧ Coherent (start cache) := by
  constructor
  · intro key left written
    simp [start] at written
  · intro key left written
    simp [start] at written

theorem coherent_run_iff (cache : FallbackAdapter) (calls : List (Call × Option Outage)) :
    Always step Coherent (start cache) calls ↔ Along step Harmless (start cache) calls := by
  apply always_iff_along (I := Recorded)
  · intro s choice recorded coherent
    exact ⟨_, step_eq s choice, coherent_after recorded coherent choice,
      fun _ => recorded_after recorded choice⟩
  · exact (coherent_start cache).1
  · exact (coherent_start cache).2

def refused : Outage :=
  { error := .backend "connection refused", transport := rfl }

theorem stale_after_outage :
    ∃ s, run step (start ⟨∅, ∅⟩) [(.set "k" [1], none), (.set "k" [2], some refused)] = some s ∧
      s.last "k" = some (some [2]) ∧ s.cache.get none "k" = .ok [1] ∧ ¬ Coherent s := by
  refine ⟨_, rfl, by decide, by decide, ?_⟩
  intro coherent
  exact absurd (coherent "k" (some [2]) (by decide) none) (by decide)

end FallbackAdapter

end Firefly.Cache
