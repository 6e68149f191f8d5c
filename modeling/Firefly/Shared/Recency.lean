import Mathlib

set_option autoImplicit false
set_option linter.unusedSectionVars false

/-!
# Order of last use

A map whose values carry a stamp, and its entries listed from the least to the most recently
stamped one.
-/

namespace Firefly.Recency

variable {κ ν : Type} [DecidableEq κ]

def lookup (key : κ) (order : List (κ × ν)) : Option ν :=
  (order.find? fun pair => pair.1 = key).map (·.2)

def without (key : κ) (order : List (κ × ν)) : List (κ × ν) :=
  order.filter fun pair => pair.1 ≠ key

def touch (key : κ) (value : ν) (order : List (κ × ν)) : List (κ × ν) :=
  without key order ++ [(key, value)]

theorem mem_without {key : κ} {order : List (κ × ν)} {pair : κ × ν} :
    pair ∈ without key order ↔ pair ∈ order ∧ pair.1 ≠ key := by
  simp [without]

theorem mem_touch {key : κ} {value : ν} {order : List (κ × ν)} {pair : κ × ν} :
    pair ∈ touch key value order ↔ pair ∈ order ∧ pair.1 ≠ key ∨ pair = (key, value) := by
  simp [touch, mem_without]

theorem without_filter (keep : κ × ν → Bool) (key : κ) (order : List (κ × ν)) :
    (without key order).filter keep = without key (order.filter keep) := by
  rw [without, without, List.filter_filter, List.filter_filter]
  congr 1
  funext pair
  exact Bool.and_comm _ _

theorem touch_filter {keep : κ × ν → Bool} {key : κ} {value : ν} (kept : keep (key, value) = true)
    (order : List (κ × ν)) :
    (touch key value order).filter keep = touch key value (order.filter keep) := by
  simp [touch, without_filter, kept]

section Map

variable {μ : Type} (f : ν → μ) (key : κ) (order : List (κ × ν))

theorem without_map :
    without key (order.map (Prod.map id f)) = (without key order).map (Prod.map id f) := by
  rw [without, without, List.filter_map]
  rfl

theorem touch_map (value : ν) :
    touch key (f value) (order.map (Prod.map id f)) =
      (touch key value order).map (Prod.map id f) := by
  simp [touch, without_map]

theorem lookup_map :
    lookup key (order.map (Prod.map id f)) = (lookup key order).map f := by
  have same : ((fun pair : κ × μ => decide (pair.1 = key)) ∘ Prod.map id f) =
      fun pair : κ × ν => decide (pair.1 = key) := rfl
  rw [lookup, lookup, List.find?_map, same]
  cases order.find? fun pair => pair.1 = key <;> rfl

end Map

section Tracks

variable [Ord κ] [Std.TransOrd κ] [Std.LawfulEqOrd κ]

structure Tracks (stamp : ν → Nat) (entries : Std.TreeMap κ ν) (next : Nat)
    (order : List (κ × ν)) : Prop where
  holds : ∀ key value, (key, value) ∈ order ↔ entries[key]? = some value
  sorted : order.Pairwise fun first second => stamp first.2 < stamp second.2
  below : ∀ pair ∈ order, stamp pair.2 < next

variable {stamp : ν → Nat} {entries : Std.TreeMap κ ν} {next : Nat} {order : List (κ × ν)}

theorem tracks_empty : Tracks stamp (∅ : Std.TreeMap κ ν) next [] :=
  ⟨by simp, by simp, by simp⟩

theorem Tracks.later {later : Nat} (tracks : Tracks stamp entries next order)
    (after : next ≤ later) : Tracks stamp entries later order :=
  ⟨tracks.holds, tracks.sorted, fun pair member => (tracks.below pair member).trans_le after⟩

theorem Tracks.nodup (tracks : Tracks stamp entries next order) : order.Nodup :=
  tracks.sorted.imp fun {first second} less same => by
    rw [same] at less
    exact less.false

theorem Tracks.key_eq (tracks : Tracks stamp entries next order) {first second : κ × ν}
    (here : first ∈ order) (there : second ∈ order) (same : first.1 = second.1) :
    first = second := by
  have one := (tracks.holds first.1 first.2).mp here
  have other := (tracks.holds second.1 second.2).mp there
  rw [same, other] at one
  exact Prod.ext same (Option.some.inj one).symm

theorem Tracks.lookup_eq (tracks : Tracks stamp entries next order) (key : κ) :
    lookup key order = entries[key]? := by
  cases found : order.find? fun pair => pair.1 = key with
  | some pair =>
    have own : pair.1 = key := by simpa using List.find?_some found
    have held := (tracks.holds pair.1 pair.2).mp (List.mem_of_find?_eq_some found)
    rw [lookup, found, ← own, held, Option.map_some]
  | none =>
    rw [lookup, found, Option.map_none]
    cases held : entries[key]? with
    | none => rfl
    | some value =>
      have absent := List.find?_eq_none.mp found (key, value) ((tracks.holds key value).mpr held)
      simp at absent

theorem Tracks.perm (tracks : Tracks stamp entries next order) : entries.toList.Perm order := by
  have distinct : entries.toList.Nodup := by
    apply Std.TreeMap.distinct_keys_toList.imp
    rintro first second apart rfl
    exact apart Std.ReflCmp.compare_self
  rw [List.perm_ext_iff_of_nodup distinct tracks.nodup]
  rintro ⟨key, value⟩
  rw [Std.TreeMap.mem_toList_iff_getElem?_eq_some, tracks.holds]

theorem Tracks.size_eq (tracks : Tracks stamp entries next order) :
    entries.size = order.length := by
  rw [← Std.TreeMap.length_toList, tracks.perm.length_eq]

theorem Tracks.filter (tracks : Tracks stamp entries next order) (keep : κ → ν → Bool) :
    Tracks stamp (entries.filter keep) next (order.filter fun pair => keep pair.1 pair.2) where
  holds key value := by
    simp [tracks.holds, Option.filter_eq_some_iff]
  sorted := tracks.sorted.filter _
  below pair member := tracks.below pair (List.mem_of_mem_filter member)

theorem Tracks.erase (tracks : Tracks stamp entries next order) (key : κ) :
    Tracks stamp (entries.erase key) next (without key order) where
  holds other value := by
    rw [mem_without, tracks.holds, Std.TreeMap.getElem?_erase]
    rcases eq_or_ne key other with rfl | apart
    · simp
    · simp [apart, apart.symm]
  sorted := tracks.sorted.filter _
  below pair member := tracks.below pair (mem_without.mp member).1

theorem Tracks.insert_newest (tracks : Tracks stamp entries next order) (key : κ) {value : ν}
    (newest : ∀ pair ∈ order, pair.1 ≠ key → stamp pair.2 < stamp value) :
    Tracks stamp (entries.insert key value) (stamp value + 1) (touch key value order) where
  holds other held := by
    rw [mem_touch, tracks.holds, Std.TreeMap.getElem?_insert]
    rcases eq_or_ne key other with rfl | apart
    · simp [eq_comm]
    · simp [apart, apart.symm]
  sorted := by
    rw [touch, List.pairwise_append]
    refine ⟨tracks.sorted.filter _, by simp, ?_⟩
    intro pair member last latest
    rw [List.mem_singleton.mp latest]
    exact newest pair (mem_without.mp member).1 (mem_without.mp member).2
  below pair member := by
    rcases mem_touch.mp member with ⟨before, apart⟩ | rfl
    · exact (newest pair before apart).trans (Nat.lt_succ_self _)
    · exact Nat.lt_succ_self _

theorem Tracks.insert (tracks : Tracks stamp entries next order) (key : κ) {value : ν}
    (stamped : stamp value = next) :
    Tracks stamp (entries.insert key value) (next + 1) (touch key value order) := by
  have newest : ∀ pair ∈ order, pair.1 ≠ key → stamp pair.2 < stamp value := by
    intro pair member _
    rw [stamped]
    exact tracks.below pair member
  rw [← stamped]
  exact tracks.insert_newest key newest

theorem Tracks.oldest (tracks : Tracks stamp entries next order) :
    entries.toList.argmin (fun pair => stamp pair.2) = order.head? := by
  cases order with
  | nil =>
    have empty : entries.toList = [] := List.perm_nil.mp tracks.perm
    rw [empty]
    rfl
  | cons first rest =>
    cases least : entries.toList.argmin (fun pair => stamp pair.2) with
    | none =>
      have empty := List.argmin_eq_none.mp least
      have perm := tracks.perm
      rw [empty] at perm
      exact absurd perm.symm (by simp)
    | some pair =>
      have member := tracks.perm.mem_iff.mp (List.argmin_mem least)
      have first_stored := tracks.perm.mem_iff.mpr (List.mem_cons_self : first ∈ first :: rest)
      have le := List.le_of_mem_argmin first_stored least
      rcases List.mem_cons.mp member with same | later
      · rw [same, List.head?_cons]
      · exact absurd le (Nat.not_le_of_lt (List.rel_of_pairwise_cons tracks.sorted later))

theorem Tracks.without_head {first : κ × ν} {rest : List (κ × ν)}
    (tracks : Tracks stamp entries next (first :: rest)) :
    without first.1 (first :: rest) = rest := by
  have apart (pair : κ × ν) (member : pair ∈ rest) : pair.1 ≠ first.1 := by
    intro same
    have twice := tracks.key_eq (List.mem_cons_of_mem first member) List.mem_cons_self same
    exact (List.nodup_cons.mp tracks.nodup).1 (twice ▸ member)
  rw [without, List.filter_cons_of_neg (by simp), List.filter_eq_self]
  intro pair member
  simpa using apart pair member

end Tracks

def UsedBefore (uses : List κ) (first second : κ) : Prop :=
  ∃ before after, uses = before ++ first :: after ∧ first ∉ after ∧ second ∈ after

structure Follows (uses : List κ) (order : List (κ × ν)) : Prop where
  used : ∀ pair ∈ order, pair.1 ∈ uses
  sorted : order.Pairwise fun first second => UsedBefore uses first.1 second.1

section Uses

variable {uses : List κ} {order : List (κ × ν)} {first second key : κ}

theorem UsedBefore.later (earlier : UsedBefore uses first second) (apart : first ≠ key) :
    UsedBefore (uses ++ [key]) first second := by
  obtain ⟨before, after, rfl, last, member⟩ := earlier
  exact ⟨before, after ++ [key], by simp, by simp [last, apart], by simp [member]⟩

theorem usedBefore_newest (used : first ∈ uses) (apart : first ≠ key) :
    UsedBefore (uses ++ [key]) first key := by
  -- the last use is the first one from the end
  obtain ⟨after, before, split, last⟩ := List.eq_append_cons_of_mem (List.mem_reverse.mpr used)
  have uses_eq : uses = before.reverse ++ first :: after.reverse := by
    rw [← List.reverse_reverse uses, split]
    simp
  exact ⟨before.reverse, after.reverse ++ [key], by simp [uses_eq], by simp [last, apart], by simp⟩

theorem Follows.sublist {fewer : List (κ × ν)} (follows : Follows uses order)
    (sub : fewer.Sublist order) : Follows uses fewer :=
  ⟨fun pair member => follows.used pair (sub.subset member), follows.sorted.sublist sub⟩

theorem Follows.touch (follows : Follows uses order) (key : κ) (value : ν) :
    Follows (uses ++ [key]) (touch key value order) where
  used pair member := by
    rcases mem_touch.mp member with ⟨before, -⟩ | rfl
    · exact List.mem_append_left _ (follows.used pair before)
    · simp
  sorted := by
    rw [Recency.touch, List.pairwise_append]
    refine ⟨?_, by simp, ?_⟩
    · have kept := follows.sorted.filter fun pair => decide (pair.1 ≠ key)
      apply kept.imp_of_mem
      intro earlier later member _ before
      exact before.later (mem_without.mp member).2
    · intro pair member last latest
      rw [List.mem_singleton.mp latest]
      have stored := mem_without.mp member
      exact usedBefore_newest (follows.used pair stored.1) stored.2

end Uses

end Firefly.Recency
