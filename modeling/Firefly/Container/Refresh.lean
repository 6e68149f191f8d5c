import Firefly.Container.Beans

set_option autoImplicit false

namespace Firefly.Container.Refresh

open Beans Runs Tables

inductive Slot where
  | registration (id : Nat)
  | scoped (handler : Nat) (key : String)
deriving DecidableEq, Repr

-- A transient bean is kept nowhere.
def slotOf (app : App) (reg : Registration) : Option Slot :=
  match reg.scope with
  | .builtin .singleton => some (.registration reg.id)
  | .builtin .transient => none
  | scope => (app.handlers scope.name).map fun handler => .scoped handler reg.cacheKey

inductive Phase where
  | missed
  | building (number : Nat)
  | built (number : Nat)
deriving DecidableEq, Repr

/-- A call in progress. `floor` is how many constructions had begun when the bean was last evicted
before the call. -/
inductive Frame where
  | resolving (bean : Registration) (slot : Slot) (floor : Nat) (phase : Phase)
  | resetting (remaining : List Nat)
deriving DecidableEq, Repr

structure Return where
  slot : Slot
  floor : Nat
  epoch : Nat
  handed : Nat
deriving DecidableEq, Repr

/-- `threads` are the calls of each thread, the innermost first. The last three are no fields of the
source. -/
structure State where
  cache : Slot → Option Nat
  threads : Nat → List Frame
  constructions : Nat
  floors : Slot → Nat
  epochs : Slot → Nat
  returns : List Return

def start : State where
  cache := fun _ => none
  threads := fun _ => []
  constructions := 0
  floors := fun _ => 0
  epochs := fun _ => 0
  returns := []

inductive Choice where
  | resolve (thread : Nat) (bean : Registration)
  | construct (thread : Nat)
  | finish (thread : Nat)
  | fail (thread : Nat)
  | store (thread : Nat)
  | refresh (thread handler : Nat)
  | remove (thread handler : Nat) (key : String)
  | reset (thread type : Nat)
  | take (thread : Nat)
  | done (thread : Nat)
deriving DecidableEq, Repr

def Frame.Running : Frame → Prop
  | .resolving _ _ _ (.building _) => True
  | _ => False

instance (frame : Frame) : Decidable frame.Running := by
  unfold Frame.Running
  split <;> infer_instance

def free : List Frame → Prop
  | [] => True
  | frame :: _ => frame.Running

instance : (frames : List Frame) → Decidable (free frames)
  | [] => isTrue trivial
  | frame :: _ => inferInstanceAs (Decidable frame.Running)

def State.setFrames (s : State) (thread : Nat) (frames : List Frame) : State :=
  { s with threads := Function.update s.threads thread frames }

def State.handOut (s : State) (slot : Slot) (floor handed : Nat) : State :=
  { s with returns := { slot, floor, epoch := s.epochs slot, handed } :: s.returns }

def State.evict (s : State) (evicted : Slot → Bool) : State :=
  { s with
    cache := fun slot => if evicted slot then none else s.cache slot
    floors := fun slot => if evicted slot then s.constructions else s.floors slot
    epochs := fun slot => if evicted slot then s.epochs slot + 1 else s.epochs slot }

def ofHandler (handler : Nat) : Slot → Bool
  | .scoped other _ => other = handler
  | .registration _ => false

variable (app : App) (r : Registry)

-- The first look at the cache; a later one is made when a new instance is there.
def resolve (s : State) (thread : Nat) (bean : Registration) : Option State :=
  if free (s.threads thread) then
    match slotOf app bean with
    | none => none
    | some slot =>
      match s.cache slot with
      | some existing => some (s.handOut slot (s.floors slot) existing)
      | none => some (s.setFrames thread
          (.resolving bean slot (s.floors slot) .missed :: s.threads thread))
  else none

def store (s : State) (thread : Nat) : Option State :=
  match s.threads thread with
  | .resolving _ slot floor (.built number) :: rest =>
    match s.cache slot with
    | some existing => some ((s.setFrames thread rest).handOut slot floor existing)
    | none =>
      some (({ s with cache := Function.update s.cache slot (some number) }.setFrames thread rest).handOut
        slot floor number)
  | _ => none

def entriesOf (type : Nat) : List Nat :=
  ((r.byType (.bean type)).filter (·.implType = type)).map (·.id)

def step (s : State) : Choice → Option State
  | .resolve thread bean => resolve app s thread bean
  | .construct thread =>
    match s.threads thread with
    | .resolving bean slot floor .missed :: rest =>
      some ({ s with constructions := s.constructions + 1 }.setFrames thread
        (.resolving bean slot floor (.building s.constructions) :: rest))
    | _ => none
  | .finish thread =>
    match s.threads thread with
    | .resolving bean slot floor (.building number) :: rest =>
      some (s.setFrames thread (.resolving bean slot floor (.built number) :: rest))
    | _ => none
  -- A circular dependency, or an error of the factory.
  | .fail thread =>
    match s.threads thread with
    | .resolving _ _ _ .missed :: rest => some (s.setFrames thread rest)
    | .resolving _ _ _ (.building _) :: rest => some (s.setFrames thread rest)
    | _ => none
  | .store thread => store s thread
  | .refresh thread handler => if free (s.threads thread) then some (s.evict (ofHandler handler)) else none
  | .remove thread handler key =>
    if free (s.threads thread) then some (s.evict (· = .scoped handler key)) else none
  | .reset thread type =>
    if free (s.threads thread) then
      some (s.setFrames thread (.resetting (entriesOf r type) :: s.threads thread))
    else none
  | .take thread =>
    match s.threads thread with
    | .resetting (id :: remaining) :: rest =>
      some ((s.evict (· = .registration id)).setFrames thread (.resetting remaining :: rest))
    | _ => none
  | .done thread =>
    match s.threads thread with
    | .resetting [] :: rest => some (s.setFrames thread rest)
    | _ => none

def Final (s : State) : Prop := ∀ ret ∈ s.returns, ret.floor ≤ ret.handed

def Steady (s : State) : Prop :=
  ∀ a ∈ s.returns, ∀ b ∈ s.returns, a.slot = b.slot → a.epoch = b.epoch → a.handed = b.handed

/-- What is stored where nothing is kept began after the last eviction. -/
def Stores (s : State) : Choice → Prop
  | .store thread =>
    match s.threads thread with
    | .resolving _ slot _ (.built number) :: _ => s.cache slot = none → s.floors slot ≤ number
    | _ => True
  | _ => True

variable {app r} {s s' : State} {floors : Slot → Nat} {frame other : Frame} {frames : List Frame}

variable (app) in
def Frame.Placed (floors : Slot → Nat) : Frame → Prop
  | .resolving bean slot floor _ => slotOf app bean = some slot ∧ floor ≤ floors slot
  | .resetting _ => True

variable (app) in
structure Framed (floors : Slot → Nat) (frames : List Frame) : Prop where
  below : ∀ frame ∈ frames.tail, frame.Running
  placed : ∀ frame ∈ frames, frame.Placed app floors

theorem Framed.rest (framed : Framed app floors (frame :: frames)) : Framed app floors frames :=
  ⟨fun frame among => framed.below frame (List.mem_of_mem_tail among),
    fun frame among => framed.placed frame (List.mem_cons_of_mem _ among)⟩

theorem Framed.free (framed : Framed app floors (frame :: frames)) : free frames := by
  cases frames with
  | nil => trivial
  | cons next rest => exact framed.below next List.mem_cons_self

theorem Framed.call (framed : Framed app floors frames) (idle : Refresh.free frames)
    (placed : frame.Placed app floors) : Framed app floors (frame :: frames) where
  below := by
    intro other among
    cases frames with
    | nil => cases among
    | cons next rest =>
      rcases List.mem_cons.mp among with rfl | later
      · exact idle
      · exact framed.below other later
  placed := by
    intro other among
    rcases List.mem_cons.mp among with rfl | later
    · exact placed
    · exact framed.placed other later

theorem Framed.goOn (framed : Framed app floors (frame :: frames)) (placed : other.Placed app floors) :
    Framed app floors (other :: frames) :=
  framed.rest.call framed.free placed

theorem Framed.mono {later : Slot → Nat} (framed : Framed app floors frames)
    (higher : ∀ slot, floors slot ≤ later slot) : Framed app later frames where
  below := framed.below
  placed := by
    intro frame among
    have placed := framed.placed frame among
    cases frame with
    | resolving bean slot floor phase => exact ⟨placed.1, placed.2.trans (higher slot)⟩
    | resetting remaining => trivial

variable (app) in
structure Held (s : State) : Prop where
  framed : ∀ thread, Framed app s.floors (s.threads thread)
  counted : ∀ slot, s.floors slot ≤ s.constructions
  returned : ∀ ret ∈ s.returns, ret.epoch ≤ s.epochs ret.slot ∧
    (ret.epoch = s.epochs ret.slot → s.cache ret.slot = some ret.handed)
  steady : Steady s

theorem Held.setFrames (held : Held app s) {thread : Nat} (framed : Framed app s.floors frames) :
    Held app (s.setFrames thread frames) where
  framed := by
    intro other
    by_cases same : other = thread
    · subst same
      simpa [State.setFrames] using framed
    · simpa [State.setFrames, Function.update_of_ne same] using held.framed other
  counted := held.counted
  returned := held.returned
  steady := held.steady

theorem Held.handOut (held : Held app s) {slot : Slot} {floor handed : Nat}
    (kept : s.cache slot = some handed) : Held app (s.handOut slot floor handed) where
  framed := held.framed
  counted := held.counted
  returned := by
    intro ret among
    rcases List.mem_cons.mp among with rfl | before
    · exact ⟨le_refl _, fun _ => kept⟩
    · exact held.returned ret before
  steady := by
    have last : ∀ ret ∈ s.returns, ret.slot = slot → ret.epoch = s.epochs slot → ret.handed = handed := by
      rintro ret before rfl now
      exact Option.some.inj (((held.returned ret before).2 now).symm.trans kept)
    intro a amongA b amongB slots epochs
    rcases List.mem_cons.mp amongA with rfl | beforeA
    · rcases List.mem_cons.mp amongB with rfl | beforeB
      · rfl
      · exact (last b beforeB slots.symm epochs.symm).symm
    · rcases List.mem_cons.mp amongB with rfl | beforeB
      · exact last a beforeA slots epochs
      · exact held.steady a beforeA b beforeB slots epochs

theorem Held.insert (held : Held app s) {slot : Slot} {number : Nat} (empty : s.cache slot = none) :
    Held app { s with cache := Function.update s.cache slot (some number) } where
  framed := held.framed
  counted := held.counted
  returned := by
    intro ret among
    obtain ⟨before, kept⟩ := held.returned ret among
    refine ⟨before, fun now => ?_⟩
    have other : ret.slot ≠ slot := by
      rintro rfl
      cases empty.symm.trans (kept now)
    exact (Function.update_of_ne other ..).trans (kept now)
  steady := held.steady

theorem Held.evict (held : Held app s) (evicted : Slot → Bool) : Held app (s.evict evicted) where
  framed := by
    refine fun thread => (held.framed thread).mono fun slot => ?_
    simp only [State.evict]
    split
    · exact held.counted slot
    · exact le_refl _
  counted := by
    intro slot
    simp only [State.evict]
    split
    · exact le_refl _
    · exact held.counted slot
  returned := by
    intro ret among
    obtain ⟨before, kept⟩ := held.returned ret among
    cases gone : evicted ret.slot with
    | true =>
      simp only [State.evict, gone, if_true]
      exact ⟨before.trans (Nat.le_succ _), fun now => absurd now (Nat.ne_of_lt (Nat.lt_succ_of_le before))⟩
    | false =>
      simp only [State.evict, gone]
      exact ⟨before, kept⟩
  steady := held.steady

theorem held_start : Held app start where
  framed := fun _ => ⟨fun _ among => (nomatch among), fun _ among => (nomatch among)⟩
  counted := fun _ => le_refl _
  returned := fun _ among => (nomatch among)
  steady := fun _ among => (nomatch among)

structure Current (s : State) : Prop where
  kept : ∀ slot number, s.cache slot = some number → s.floors slot ≤ number
  final : Final s

theorem Current.setFrames (current : Current s) (thread : Nat) (frames : List Frame) :
    Current (s.setFrames thread frames) :=
  ⟨current.kept, current.final⟩

theorem Current.handOut (current : Current s) {slot : Slot} {floor handed : Nat}
    (began : floor ≤ s.floors slot) (kept : s.cache slot = some handed) :
    Current (s.handOut slot floor handed) where
  kept := current.kept
  final := by
    intro ret among
    rcases List.mem_cons.mp among with rfl | before
    · exact began.trans (current.kept slot handed kept)
    · exact current.final ret before

theorem Current.insert (current : Current s) {slot : Slot} {number : Nat}
    (began : s.floors slot ≤ number) :
    Current { s with cache := Function.update s.cache slot (some number) } where
  kept := by
    intro other kept there
    rcases update_eq_some.mp there with ⟨rfl, rfl⟩ | ⟨-, before⟩
    · exact began
    · exact current.kept other kept before
  final := current.final

theorem Current.evict (current : Current s) (evicted : Slot → Bool) : Current (s.evict evicted) where
  kept := by
    intro slot number there
    cases gone : evicted slot with
    | true => simp [State.evict, gone] at there
    | false =>
      simp only [State.evict, gone] at there ⊢
      exact current.kept slot number there
  final := current.final

theorem step_keeps (held : Held app s) {choice : Choice} (stepped : step app r s choice = some s') :
    Held app s' ∧ (Stores s choice → Current s → Current s') := by
  cases choice with
  | resolve thread bean =>
    simp only [step, resolve] at stepped
    split at stepped
    next idle =>
      split at stepped
      · cases stepped
      next slot there =>
        split at stepped
        next existing kept =>
          obtain rfl := Option.some.inj stepped
          exact ⟨held.handOut kept, fun _ current => current.handOut (le_refl _) kept⟩
        next empty =>
          obtain rfl := Option.some.inj stepped
          exact ⟨held.setFrames ((held.framed thread).call idle ⟨there, le_refl _⟩),
            fun _ current => current.setFrames ..⟩
    · cases stepped
  | construct thread =>
    simp only [step] at stepped
    split at stepped
    next bean slot floor rest frames =>
      obtain rfl := Option.some.inj stepped
      have framed := frames ▸ held.framed thread
      have placed := framed.placed _ List.mem_cons_self
      have more : Held app { s with constructions := s.constructions + 1 } :=
        ⟨held.framed, fun slot => Nat.le_succ_of_le (held.counted slot), held.returned, held.steady⟩
      exact ⟨more.setFrames (framed.goOn placed), fun _ current => ⟨current.kept, current.final⟩⟩
    · cases stepped
  | finish thread =>
    simp only [step] at stepped
    split at stepped
    next bean slot floor number rest frames =>
      obtain rfl := Option.some.inj stepped
      have framed := frames ▸ held.framed thread
      have placed := framed.placed _ List.mem_cons_self
      exact ⟨held.setFrames (framed.goOn placed), fun _ current => current.setFrames ..⟩
    · cases stepped
  | fail thread =>
    simp only [step] at stepped
    split at stepped
    next frames =>
      obtain rfl := Option.some.inj stepped
      exact ⟨held.setFrames (frames ▸ held.framed thread).rest, fun _ current => current.setFrames ..⟩
    next frames =>
      obtain rfl := Option.some.inj stepped
      exact ⟨held.setFrames (frames ▸ held.framed thread).rest, fun _ current => current.setFrames ..⟩
    · cases stepped
  | store thread =>
    simp only [step, store] at stepped
    split at stepped
    next bean slot floor number rest frames =>
      have framed := frames ▸ held.framed thread
      have began := (framed.placed _ List.mem_cons_self).2
      split at stepped
      next existing kept =>
        obtain rfl := Option.some.inj stepped
        exact ⟨(held.setFrames framed.rest).handOut kept, fun _ current =>
          (current.setFrames thread rest).handOut began kept⟩
      next empty =>
        obtain rfl := Option.some.inj stepped
        have now : Function.update s.cache slot (some number) slot = some number :=
          Function.update_self ..
        refine ⟨((held.insert empty).setFrames framed.rest).handOut now, fun stores current => ?_⟩
        simp only [Stores, frames] at stores
        exact ((current.insert (stores empty)).setFrames thread rest).handOut began now
    · cases stepped
  | refresh thread handler =>
    obtain ⟨-, evicted⟩ := Option.ite_none_right_eq_some.mp stepped
    obtain rfl := Option.some.inj evicted
    exact ⟨held.evict _, fun _ current => current.evict _⟩
  | remove thread handler key =>
    obtain ⟨-, evicted⟩ := Option.ite_none_right_eq_some.mp stepped
    obtain rfl := Option.some.inj evicted
    exact ⟨held.evict _, fun _ current => current.evict _⟩
  | reset thread type =>
    obtain ⟨idle, called⟩ := Option.ite_none_right_eq_some.mp stepped
    obtain rfl := Option.some.inj called
    exact ⟨held.setFrames ((held.framed thread).call idle trivial), fun _ current => current.setFrames ..⟩
  | take thread =>
    simp only [step] at stepped
    split at stepped
    next id remaining rest frames =>
      obtain rfl := Option.some.inj stepped
      have frames : (s.evict (· = .registration id)).threads thread =
        .resetting (id :: remaining) :: rest := frames
      have framed := frames ▸ (held.evict (· = Slot.registration id)).framed thread
      exact ⟨(held.evict _).setFrames (framed.goOn trivial),
        fun _ current => (current.evict _).setFrames ..⟩
    · cases stepped
  | done thread =>
    simp only [step] at stepped
    split at stepped
    next frames =>
      obtain rfl := Option.some.inj stepped
      exact ⟨held.setFrames (frames ▸ held.framed thread).rest, fun _ current => current.setFrames ..⟩
    · cases stepped

variable (app r) in
structure Refreshing (s : State) : Prop where
  final : Final s
  steady : Steady s
  next : ∀ thread bean s', step app r s (.resolve thread bean) = some s' → Final s'

theorem Held.refreshing (held : Held app s) (current : Current s) : Refreshing app r s where
  final := current.final
  steady := held.steady
  next := fun _ _ _ called => ((step_keeps held called).2 trivial current).final

theorem resolve_kept {thread : Nat} {bean : Registration} {slot : Slot} {existing : Nat}
    (idle : free (s.threads thread)) (there : slotOf app bean = some slot)
    (kept : s.cache slot = some existing) :
    step app r s (.resolve thread bean) = some (s.handOut slot (s.floors slot) existing) := by
  simp only [step, resolve, idle, if_true, there, kept]

theorem stores_of_refreshing (held : Held app s) {choice : Choice}
    (stepped : step app r s choice = some s') (refreshing : Refreshing app r s') : Stores s choice := by
  cases choice with
  | store thread =>
    simp only [step, store] at stepped
    simp only [Stores]
    split
    next bean slot floor number rest frames =>
      intro empty
      simp only [frames, empty, Option.some.injEq] at stepped
      subst stepped
      have framed := frames ▸ held.framed thread
      have there := (framed.placed _ List.mem_cons_self).1
      have again := refreshing.next thread bean _ (resolve_kept ?_ there (Function.update_self ..))
      · exact again _ List.mem_cons_self
      · simpa [State.handOut, State.setFrames] using framed.free
    · trivial
  | _ => trivial

theorem stores_of_refused {choice : Choice} (refused : step app r s choice = none) : Stores s choice := by
  cases choice with
  | store thread =>
    simp only [step, store] at refused
    simp only [Stores]
    split
    next frames =>
      simp only [frames] at refused
      split at refused <;> cases refused
    · trivial
  | _ => trivial

theorem refresh_final_exactly (app : App) (r : Registry) (choices : List Choice) :
    Always (step app r) (Refreshing app r) start choices ↔ Along (step app r) Stores start choices := by
  constructor
  · refine Along.of_always (I := Held app) (fun s choice => stores_of_refused) ?_ held_start
    exact fun s choice s' held stepped =>
      ⟨(step_keeps held stepped).1, stores_of_refreshing held stepped⟩
  · intro along
    have always := Along.always (fun s => Held app s ∧ Current s) ?_
      ⟨held_start, fun slot number kept => (nomatch kept), fun ret among => (nomatch among)⟩ along
    · exact always.mono fun s both => both.1.refreshing both.2
    · rintro s choice s' stores ⟨held, current⟩ stepped
      obtain ⟨next, keeps⟩ := step_keeps held stepped
      exact ⟨next, keeps stores current⟩

def settings : Registration where
  id := 0
  implType := 0
  typeName := "Settings"
  scope := .custom "refresh"
  name := ""
  primary := false

def reloading : App where
  typeName := fun _ => "Settings"
  factories := fun _ _ => .done (.ok ())
  handlers := fun name => if name = "refresh" then some 0 else none

def refreshedMeanwhile : List Choice :=
  [.resolve 0 settings, .construct 0, .refresh 1 0, .finish 0, .store 0, .resolve 1 settings]

theorem built_before_served_after :
    ¬ ∀ choices s, run (step reloading Beans.start.registry) start choices = some s →
      Final s ∧ Steady s := by
  intro final
  have ran : (run (step reloading Beans.start.registry) start refreshedMeanwhile).map (·.returns) =
      some [{ slot := .scoped 0 "__firefly_bean_Settings", floor := 1, epoch := 1, handed := 0 },
        { slot := .scoped 0 "__firefly_bean_Settings", floor := 0, epoch := 1, handed := 0 }] := by
    decide +kernel
  obtain ⟨s, there, returns⟩ := Option.map_eq_some_iff.mp ran
  have kept := (final _ s there).1
  rw [Final, returns] at kept
  exact absurd (kept _ List.mem_cons_self) (by decide)

end Firefly.Container.Refresh
