import Firefly.Shared.Runs

set_option autoImplicit false

namespace Firefly.Webhooks

open Runs

structure Inbound where
  id : String
  provider : String
  eventType : String
  headers : List (String × String)
  payload : List UInt8
deriving DecidableEq, Repr

def DEFAULT_IDEMPOTENCY_HEADER : String := "X-Idempotency-Key"

structure Registry where
  processors : String → List Nat
  enrich : Option (Inbound → Inbound)
  eventStore : Option (List String)
  idempotencyHeader : Option String

structure Delivery where
  event : Inbound
  key : Option String
  skipped : Bool
  registered : List Nat
  succeeded : List Nat
  error : Option String

structure Pipeline where
  registry : Registry
  dlq : Option (List (Inbound × String))
  deliveries : List Delivery

def dispatch (outcomes : Nat → Option String) : List Nat → List Nat × Option String
  | [] => ([], none)
  | p :: procs =>
    match outcomes p with
    | some error => ([], some error)
    | none =>
      let later := dispatch outcomes procs
      (p :: later.1, later.2)

def Registry.key (registry : Registry) (ev : Inbound) : Option String :=
  ev.headers.lookup (registry.idempotencyHeader.getD DEFAULT_IDEMPOTENCY_HEADER)

def dedup (registry : Registry) (ev : Inbound) : Bool × Option (List String) :=
  match registry.eventStore, registry.key ev with
  | some seen, some key =>
    if key = "" then (false, some seen)
    else if key ∈ seen then (true, some seen)
    else (false, some (key :: seen))
  | store, _ => (false, store)

def push (dlq : Option (List (Inbound × String))) (pushed : Bool) (ev : Inbound)
    (error : Option String) : Option (List (Inbound × String)) :=
  match error with
  | some e => dlq.map fun entries => if pushed then entries ++ [(ev, e)] else entries
  | none => dlq

def Pipeline.process (s : Pipeline) (ev : Inbound) (outcomes : Nat → Option String)
    (pushed : Bool) : Pipeline :=
  let procs := s.registry.processors ev.provider
  let key := s.registry.key ev
  match dedup s.registry ev with
  | (true, _) =>
    { s with
      deliveries := s.deliveries ++
        [{ event := ev, key, skipped := true, registered := procs, succeeded := [], error := none }] }
  | (false, store) =>
    let enriched := (s.registry.enrich.getD id) ev
    let dispatched := dispatch outcomes procs
    { registry := { s.registry with eventStore := store }
      dlq := push s.dlq pushed enriched dispatched.2
      deliveries := s.deliveries ++
        [{ event := ev, key, skipped := false, registered := procs, succeeded := dispatched.1,
           error := dispatched.2 }] }

inductive Choice where
  | process (ev : Inbound) (outcomes : Nat → Option String) (pushed : Bool)
  | registerProcessor (provider : String) (p : Nat)
  | enrich (hook : Inbound → Inbound)
  | withIdempotencyHeader (header : String)

def step (s : Pipeline) : Choice → Option Pipeline
  | .process ev outcomes pushed => some (s.process ev outcomes pushed)
  | .registerProcessor provider p =>
    some { s with registry := { s.registry with
      processors := Function.update s.registry.processors provider
        (s.registry.processors provider ++ [p]) } }
  | .enrich hook => some { s with registry := { s.registry with enrich := some hook } }
  | .withIdempotencyHeader header =>
    some { s with registry := { s.registry with idempotencyHeader := some header } }

def fresh (processors : String → List Nat) (enrich : Option (Inbound → Inbound))
    (idempotencyHeader : Option String) (dlq : Option (List (Inbound × String))) : Pipeline where
  registry := { processors, enrich, eventStore := some [], idempotencyHeader }
  dlq
  deliveries := []

def Delivery.handled (d : Delivery) : Prop := d.error = none ∧ d.succeeded = d.registered

def Handled (before : List Delivery) (d : Delivery) : Prop :=
  d.error = none → d.handled ∨
    ∃ earlier ∈ before, earlier.key = d.key ∧ earlier.event.provider = d.event.provider ∧
      earlier.handled

/-- An acknowledged event was handled, or repeats the key of an earlier one that was handed to its
processors, whoever sent it and whatever became of it. -/
def HandledOrRepeated (before : List Delivery) (d : Delivery) : Prop :=
  d.error = none → d.handled ∨
    ∃ key, key ≠ "" ∧ d.key = some key ∧
      ∃ earlier ∈ before, earlier.key = some key ∧ earlier.skipped = false

section Remembered

variable {s s' : Pipeline}

theorem dispatch_succeeded (outcomes : Nat → Option String) (procs : List Nat)
    (clean : (dispatch outcomes procs).2 = none) : (dispatch outcomes procs).1 = procs := by
  induction procs with
  | nil => rfl
  | cons p procs ih =>
    cases outcome : outcomes p with
    | some error => simp [dispatch, outcome] at clean
    | none =>
      have later : (dispatch outcomes procs).2 = none := by simpa [dispatch, outcome] using clean
      simp [dispatch, outcome, ih later]

structure Remembered (s : Pipeline) : Prop where
  store : ∃ seen, s.registry.eventStore = some seen ∧ ∀ key ∈ seen, key ≠ "" ∧
    ∃ earlier ∈ s.deliveries, earlier.key = some key ∧ earlier.skipped = false
  deliveries : Guarded HandledOrRepeated s.deliveries

inductive Deduped (registry : Registry) (seen : List String) (ev : Inbound) :
    Bool × Option (List String) → Prop
  | repeated (key : String) (held : registry.key ev = some key) (known : key ∈ seen) :
      Deduped registry seen ev (true, some seen)
  | unkeyed : Deduped registry seen ev (false, some seen)
  | remembered (key : String) (held : registry.key ev = some key) (named : key ≠ "") :
      Deduped registry seen ev (false, some (key :: seen))

theorem dedup_deduped {registry : Registry} {seen : List String}
    (store : registry.eventStore = some seen) (ev : Inbound) :
    Deduped registry seen ev (dedup registry ev) := by
  unfold dedup
  rw [store]
  cases held : registry.key ev with
  | none => exact .unkeyed
  | some key =>
    by_cases empty : key = ""
    · simp only [if_pos empty]
      exact .unkeyed
    · by_cases known : key ∈ seen
      · simp only [if_neg empty, if_pos known]
        exact .repeated key held known
      · simp only [if_neg empty, if_neg known]
        exact .remembered key held empty

theorem Remembered.process (remembered : Remembered s) (ev : Inbound)
    (outcomes : Nat → Option String) (pushed : Bool) :
    Remembered (s.process ev outcomes pushed) := by
  obtain ⟨seen, store, known⟩ := remembered.store
  have deduped := dedup_deduped store ev
  -- whatever is recorded now, what was recorded before stays
  have keeps : ∀ (d : Delivery) key, key ∈ seen → key ≠ "" ∧
      ∃ earlier ∈ s.deliveries ++ [d], earlier.key = some key ∧ earlier.skipped = false := by
    intro d key among
    obtain ⟨named, earlier, recorded, rest⟩ := known key among
    exact ⟨named, earlier, List.mem_append_left _ recorded, rest⟩
  unfold Pipeline.process
  generalize dedup s.registry ev = result at deduped
  cases deduped with
  | repeated key held among =>
    refine ⟨⟨seen, store, keeps _⟩, guarded_concat remembered.deliveries fun _ => .inr ?_⟩
    obtain ⟨named, earlier, recorded, rest⟩ := known key among
    exact ⟨key, named, held, earlier, recorded, rest⟩
  | unkeyed =>
    refine ⟨⟨seen, rfl, keeps _⟩, guarded_concat remembered.deliveries fun clean => .inl ?_⟩
    exact ⟨clean, dispatch_succeeded outcomes _ clean⟩
  | remembered key held named =>
    refine ⟨⟨key :: seen, rfl, ?_⟩, guarded_concat remembered.deliveries fun clean => .inl ?_⟩
    · intro other among
      rcases List.mem_cons.mp among with rfl | earlier
      · exact ⟨named, _, List.mem_append_right _ List.mem_cons_self, held, rfl⟩
      · exact keeps _ other earlier
    · exact ⟨clean, dispatch_succeeded outcomes _ clean⟩

theorem Remembered.step (remembered : Remembered s) {choice : Choice}
    (stepped : Webhooks.step s choice = some s') : Remembered s' := by
  cases choice with
  | process ev outcomes pushed =>
    obtain rfl := Option.some.inj stepped
    exact remembered.process ev outcomes pushed
  | registerProcessor provider p =>
    obtain rfl := Option.some.inj stepped
    exact ⟨remembered.store, remembered.deliveries⟩
  | enrich hook =>
    obtain rfl := Option.some.inj stepped
    exact ⟨remembered.store, remembered.deliveries⟩
  | withIdempotencyHeader header =>
    obtain rfl := Option.some.inj stepped
    exact ⟨remembered.store, remembered.deliveries⟩

end Remembered

def charge : Inbound where
  id := "a1"
  provider := "stripe"
  eventType := "charge"
  headers := [("X-Idempotency-Key", "evt-1")]
  payload := []

end Firefly.Webhooks
