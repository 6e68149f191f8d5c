import Firefly.Shared.Runs
import Firefly.Shared.Tables
import Firefly.Orchestration.Dlq

set_option autoImplicit false

namespace Firefly.Orchestration.Dlq

open Runs

variable {τ : Type}

structure Ledger where
  retries : String → Nat
  gone : String → Bool

def Ledger.opening (store : MemoryDeadLetterStore τ) : Ledger where
  retries id := ((store.get id).map fun entry => entry.retryCount.toNat).getD 0
  gone _ := false

def Ledger.record (ledger : Ledger) : Event → Ledger
  | .captured id =>
    { retries := Function.update ledger.retries id 0
      gone := Function.update ledger.gone id false }
  | .marked id true =>
    { ledger with retries := Function.update ledger.retries id (ledger.retries id + 1) }
  | .deleted id true => { ledger with gone := Function.update ledger.gone id true }
  | .marked _ false | .deleted _ false => ledger

def Ledger.of (store : MemoryDeadLetterStore τ) (log : List Event) : Ledger :=
  log.foldl Ledger.record (Ledger.opening store)

@[simp] theorem Ledger.of_concat (store : MemoryDeadLetterStore τ) (log : List Event)
    (event : Event) : Ledger.of store (log ++ [event]) = (Ledger.of store log).record event := by
  simp [Ledger.of]

structure Agrees (ledger : Ledger) (store : MemoryDeadLetterStore τ) : Prop where
  retries : ∀ id entry, store.get id = some entry → entry.retryCount.toNat = ledger.retries id
  gone : ∀ id, ledger.gone id = true → store.get id = none

def Accounted (initial : MemoryDeadLetterStore τ) (s : State τ) : Prop :=
  Agrees (Ledger.of initial s.log) s.store

/-- When a call adds the entry it has read, the entry still stands there with the same count, and the
count is not the last one. -/
def Undisturbed (s : State τ) : Choice τ → Prop
  | .add caller => ∀ entry, s.callers caller = some entry →
      entry.retryCount.toNat + 1 < 2 ^ 32 ∧
        ∃ stored, s.store.get entry.id = some stored ∧ stored.retryCount = entry.retryCount
  | _ => True

-- An entry that a call has read is stored, or deleted since.
def Traced (initial : MemoryDeadLetterStore τ) (s : State τ) : Prop :=
  ∀ caller entry, s.callers caller = some entry →
    (s.store.get entry.id).isSome ∨ (Ledger.of initial s.log).gone entry.id = true

section Steps

variable {initial : MemoryDeadLetterStore τ} {ledger : Ledger} {store : MemoryDeadLetterStore τ}
  {s : State τ}

theorem retried_toNat (entry : DeadLetterEntry τ) :
    entry.retried.retryCount.toNat = (entry.retryCount.toNat + 1) % 2 ^ 32 := by
  simp [DeadLetterEntry.retried, UInt32.toNat_add]

theorem Agrees.captured (agrees : Agrees ledger store) (failure : DeadLetterCapture) (id : String)
    (now : τ) : Agrees (ledger.record (.captured id)) (store.add (capture failure id now)) := by
  constructor
  · intro other entry stored
    by_cases same : id = other
    · subst same
      simp only [MemoryDeadLetterStore.get_add, capture, if_true, Option.some.injEq] at stored
      subst stored
      simp [Ledger.record]
    · have before : store.get other = some entry := by simpa [capture, same] using stored
      simpa [Ledger.record, Ne.symm same] using agrees.retries other entry before
  · intro other gone
    by_cases same : id = other
    · subst same
      simp [Ledger.record] at gone
    · have before : ledger.gone other = true := by simpa [Ledger.record, Ne.symm same] using gone
      simpa [capture, same] using agrees.gone other before

theorem Agrees.deleted (agrees : Agrees ledger store) (id : String) :
    Agrees (ledger.record (.deleted id (store.delete id).1)) (store.delete id).2 := by
  have counts : (ledger.record (.deleted id (store.delete id).1)).retries = ledger.retries := by
    cases (store.delete id).1 <;> rfl
  constructor
  · intro other entry stored
    rw [MemoryDeadLetterStore.get_delete] at stored
    split at stored
    next => cases stored
    next =>
      rw [counts]
      exact agrees.retries other entry stored
  · intro other gone
    by_cases same : id = other
    · simp [same]
    · have before : ledger.gone other = true := by
        generalize (store.delete id).1 = result at gone
        cases result <;> simpa [Ledger.record, Ne.symm same] using gone
      simpa [same] using agrees.gone other before

-- Adding what was read agrees with the ledger exactly when nothing has come between.
theorem agrees_marked_iff (agrees : Agrees ledger store) {entry : DeadLetterEntry τ}
    (traced : (store.get entry.id).isSome ∨ ledger.gone entry.id = true) :
    Agrees (ledger.record (.marked entry.id true)) (store.add entry.retried) ↔
      entry.retryCount.toNat + 1 < 2 ^ 32 ∧
        ∃ stored, store.get entry.id = some stored ∧ stored.retryCount = entry.retryCount := by
  have small := entry.retryCount.toNat_lt
  constructor
  · intro after
    have counted := after.retries entry.id entry.retried (by simp)
    simp only [Ledger.record, Function.update_self, retried_toNat] at counted
    cases held : store.get entry.id with
    | none =>
      have gone : ledger.gone entry.id = true := by simpa [held] using traced
      simpa using after.gone entry.id gone
    | some stored =>
      have before := agrees.retries entry.id stored held
      have same : stored.retryCount.toNat = entry.retryCount.toNat ∧
          entry.retryCount.toNat + 1 < 2 ^ 32 := by omega
      exact ⟨same.2, stored, rfl, UInt32.toNat_inj.mp same.1⟩
  · rintro ⟨bound, stored, held, same⟩
    have before := agrees.retries entry.id stored held
    constructor
    · intro other found there
      by_cases marked : entry.id = other
      · subst marked
        obtain rfl : entry.retried = found := by simpa using there
        rw [retried_toNat, Nat.mod_eq_of_lt bound, ← same, before]
        simp [Ledger.record]
      · have kept : store.get other = some found := by simpa [marked] using there
        simpa [Ledger.record, Ne.symm marked] using agrees.retries other found kept
    · intro other gone
      have absent := agrees.gone other gone
      have marked : entry.id ≠ other := by
        rintro rfl
        simp [held] at absent
      simpa [marked] using absent

theorem traced_start (initial : MemoryDeadLetterStore τ) : Traced initial (start initial) := by
  intro caller entry held
  cases held

theorem accounted_start (initial : MemoryDeadLetterStore τ) : Accounted initial (start initial) := by
  constructor
  · intro id entry stored
    have here : initial.get id = some entry := stored
    simp [start, Ledger.of, Ledger.opening, here]
  · intro id gone
    simp [start, Ledger.of, Ledger.opening] at gone

theorem traced_perform (traced : Traced initial s) (choice : Choice τ) :
    Traced initial (s.perform choice) := by
  intro caller entry held
  cases choice with
  | capture other failure id now =>
    by_cases same : id = entry.id
    · simp [State.perform, capture, same]
    · have before := traced caller entry held
      simpa [State.perform, capture, same, Ledger.record, Ne.symm same] using before
  | markRetried other id =>
    simp only [State.perform] at held ⊢
    cases found : s.store.get id with
    | none =>
      simp only [found] at held ⊢
      simpa [Ledger.record] using traced caller entry held
    | some read =>
      simp only [found, Tables.update_eq_some] at held ⊢
      obtain ⟨rfl, rfl⟩ | ⟨-, before⟩ := held
      · rw [MemoryDeadLetterStore.id_of_get found, found]
        exact .inl rfl
      · exact traced caller entry before
  | add other =>
    cases pending : s.callers other with
    | none =>
      simp only [State.perform, pending] at held ⊢
      exact traced caller entry held
    | some added =>
      simp only [State.perform, pending, Tables.update_none_eq_some] at held ⊢
      have before := traced caller entry held.2
      by_cases same : added.id = entry.id
      · simp [same]
      · simpa [same, Ledger.record] using before
  | delete other id =>
    have before := traced caller entry held
    cases found : s.store.get id with
    | none =>
      by_cases same : id = entry.id
      · subst same
        simpa [State.perform, found, Ledger.record] using before
      · simpa [State.perform, found, Ledger.record, same] using before
    | some removed =>
      by_cases same : id = entry.id
      · subst same
        simp [State.perform, found, Ledger.record]
      · simpa [State.perform, found, Ledger.record, same, Ne.symm same] using before

theorem accounted_perform_iff (traced : Traced initial s) (accounted : Accounted initial s)
    (choice : Choice τ) : Accounted initial (s.perform choice) ↔ Undisturbed s choice := by
  cases choice with
  | capture caller failure id now =>
    simpa [Accounted, State.perform, Undisturbed] using accounted.captured failure id now
  | markRetried caller id =>
    cases found : s.store.get id <;>
      simpa [Accounted, State.perform, Undisturbed, found, Ledger.record] using accounted
  | add caller =>
    cases pending : s.callers caller with
    | none => simpa [Accounted, State.perform, Undisturbed, pending] using accounted
    | some entry =>
      have exactly := agrees_marked_iff accounted (traced caller entry pending)
      simpa [Accounted, State.perform, Undisturbed, pending] using exactly
  | delete caller id =>
    simpa [Accounted, State.perform, Undisturbed] using accounted.deleted id

theorem step_exact (s : State τ) (choice : Choice τ) (traced : Traced initial s)
    (accounted : Accounted initial s) :
    ∃ next, s.step choice = some next ∧ (Accounted initial next ↔ Undisturbed s choice) ∧
      (Undisturbed s choice → Traced initial next) := by
  have performed := accounted_perform_iff traced accounted choice
  have kept := traced_perform traced choice
  have waits : s.step choice = some s → (∀ caller, choice ≠ .add caller) →
      ∃ next, s.step choice = some next ∧ (Accounted initial next ↔ Undisturbed s choice) ∧
        (Undisturbed s choice → Traced initial next) := by
    intro stays other
    have free : Undisturbed s choice := by
      cases choice with
      | add caller => exact absurd rfl (other caller)
      | _ => trivial
    exact ⟨s, stays, by simp [accounted, free], fun _ => traced⟩
  have moves : s.step choice = some (s.perform choice) →
      ∃ next, s.step choice = some next ∧ (Accounted initial next ↔ Undisturbed s choice) ∧
        (Undisturbed s choice → Traced initial next) :=
    fun moved => ⟨_, moved, performed, fun _ => kept⟩
  cases choice with
  | add caller => exact moves rfl
  | capture caller failure id now | markRetried caller id | delete caller id =>
    cases busy : (s.callers caller).isSome with
    | true => exact waits (by simp [State.step, busy]) (by simp)
    | false => exact moves (by simp [State.step, busy])

end Steps

theorem accounted_iff (initial : MemoryDeadLetterStore τ) (choices : List (Choice τ)) :
    Always State.step (Accounted initial) (start initial) choices ↔
      Along State.step Undisturbed (start initial) choices :=
  always_iff_along step_exact choices (traced_start initial) (accounted_start initial)

def declined : DeadLetterEntry Nat :=
  capture
    { executionName := "orderSaga", correlationId := "cid-1", errorMessage := "payment_declined" } "e" 0

theorem both_marked_once :
    ∃ s, run State.step (start (MemoryDeadLetterStore.empty.add declined))
        [.markRetried 0 "e", .markRetried 1 "e", .add 0, .add 1] = some s ∧
      (∀ caller, s.callers caller = none) ∧
      ¬ Accounted (MemoryDeadLetterStore.empty.add declined) s := by
  have held : (MemoryDeadLetterStore.empty.add declined).get "e" = some declined := by
    simp [declined, capture]
  let final : State Nat :=
    { store := ((MemoryDeadLetterStore.empty.add declined).add declined.retried).add declined.retried
      callers := fun _ => none
      log := [.marked "e" true, .marked "e" true] }
  refine ⟨final, ?_, fun _ => rfl, ?_⟩
  · have idle : Function.update (Function.update (Function.update (Function.update
        (fun _ : Nat => (none : Option (DeadLetterEntry Nat))) 0 (some declined)) 1 (some declined))
        0 none) 1 none = fun _ => none := by
      funext caller
      rcases caller with _ | _ | caller <;> simp [Function.update]
    simp [run_cons, State.step, State.perform, start, held, idle, final]
    rfl
  · intro accounted
    have counted := accounted.retries "e" declined.retried (by simp [final, declined, capture])
    simp [final, Ledger.of, Ledger.record, Ledger.opening] at counted
    revert counted
    decide

end Firefly.Orchestration.Dlq
