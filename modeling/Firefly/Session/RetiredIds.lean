import Firefly.Session.Layer
import Firefly.Shared.Runs

set_option autoImplicit false

namespace Firefly.Session.Layer

open Runs

section Handler

variable {ops : List Op} {inner : SessionInner} {fresh : Nat}

theorem apply_grows (ops : List Op) (inner : SessionInner) (fresh : Nat) :
    fresh ≤ (ops.foldl Op.apply (inner, fresh)).2 ∧
      (ops.foldl Op.apply (inner, fresh)).1.lineage = inner.lineage := by
  induction ops generalizing inner fresh with
  | nil => exact ⟨le_rfl, rfl⟩
  | cons op ops ih =>
    rw [List.foldl_cons]
    have later := ih (Op.apply (inner, fresh) op).1 (Op.apply (inner, fresh) op).2
    have now : fresh ≤ (Op.apply (inner, fresh) op).2 ∧
        (Op.apply (inner, fresh) op).1.lineage = inner.lineage := by
      cases op with
      | set name value => exact ⟨le_rfl, rfl⟩
      | remove name =>
        refine ⟨le_rfl, ?_⟩
        simp only [Op.apply, SessionInner.removeAttribute]
        split <;> rfl
      | rotateId =>
        refine ⟨Nat.le_succ _, ?_⟩
        simp only [Op.apply, SessionInner.rotateId]
        split <;> rfl
      | invalidate => exact ⟨le_rfl, rfl⟩
    exact ⟨now.1.trans later.1, later.2.trans now.2⟩

theorem apply_cases (op : Op) (inner : SessionInner) (fresh : Nat) :
    ((Op.apply (inner, fresh) op).1.id = inner.id ∧
      (Op.apply (inner, fresh) op).1.previousId = inner.previousId ∧
      (inner.modified = true → (Op.apply (inner, fresh) op).1.modified = true) ∧
      (inner.invalidated = true ∨ op = .invalidate →
        (Op.apply (inner, fresh) op).1.invalidated = true) ∧
      (op = .rotateId → inner.invalidated = true)) ∨
    op = .rotateId ∧ inner.invalidated = false ∧
      Op.apply (inner, fresh) op =
        ({ inner with previousId := some inner.id, id := fresh, modified := true }, fresh + 1) := by
  cases op with
  | set name value => left; simp [Op.apply, SessionInner.setAttributeValue]
  | remove name =>
    left
    simp only [Op.apply, SessionInner.removeAttribute]
    split <;> simp
  | rotateId =>
    cases gone : inner.invalidated with
    | true => left; simp [Op.apply, SessionInner.rotateId, gone]
    | false => right; simp [Op.apply, SessionInner.rotateId, gone]
  | invalidate => left; simp [Op.apply, SessionInner.invalidate]

theorem apply_modified (ops : List Op) (inner : SessionInner) (fresh : Nat)
    (modified : inner.modified = true) :
    (ops.foldl Op.apply (inner, fresh)).1.modified = true := by
  induction ops generalizing inner fresh with
  | nil => exact modified
  | cons op ops ih =>
    refine ih (Op.apply (inner, fresh) op).1 (Op.apply (inner, fresh) op).2 ?_
    rcases apply_cases op inner fresh with ⟨-, -, kept, -⟩ | ⟨-, -, rotated⟩
    · exact kept modified
    · rw [rotated]

theorem apply_id (ops : List Op) (inner : SessionInner) (fresh : Nat) (below : inner.id < fresh) :
    let after := ops.foldl Op.apply (inner, fresh)
    after.1.id = inner.id ∧ after.1.previousId = inner.previousId ∨
      fresh ≤ after.1.id ∧ after.1.id < after.2 ∧ after.1.modified = true ∧
        ∃ previous, after.1.previousId = some previous ∧ previous < after.1.id ∧
          (previous = inner.id ∨ fresh ≤ previous) := by
  induction ops generalizing inner fresh with
  | nil => exact Or.inl ⟨rfl, rfl⟩
  | cons op ops ih =>
    rw [List.foldl_cons]
    have grown := apply_grows [op] inner fresh
    rcases apply_cases op inner fresh with ⟨id, previousId, -⟩ | ⟨-, -, rotated⟩
    · have later := ih (Op.apply (inner, fresh) op).1 (Op.apply (inner, fresh) op).2
        (by rw [id]; exact below.trans_le grown.1)
      rw [id, previousId] at later
      refine later.imp (fun kept => kept) ?_
      rintro ⟨drawn, bounded, modified, previous, some_previous, older, origin⟩
      exact ⟨grown.1.trans drawn, bounded, modified, previous, some_previous, older,
        origin.imp_right grown.1.trans⟩
    · rw [rotated]
      right
      rcases ih { inner with previousId := some inner.id, id := fresh, modified := true } (fresh + 1)
          (Nat.lt_succ_self _) with ⟨id, previousId⟩ | ⟨drawn, bounded, modified, previous, rest⟩
      · -- the last rotation was this one
        have grows := (apply_grows ops
          { inner with previousId := some inner.id, id := fresh, modified := true } (fresh + 1)).1
        refine ⟨le_of_eq id.symm, ?_, apply_modified ops _ _ rfl, inner.id, previousId, ?_, Or.inl rfl⟩
        · rw [id]
          exact grows
        · rw [id]
          exact below
      · obtain ⟨some_previous, older, origin⟩ := rest
        refine ⟨Nat.le_of_succ_le drawn, bounded, modified, previous, some_previous, older, Or.inr ?_⟩
        rcases origin with rfl | later
        · exact le_rfl
        · exact Nat.le_of_succ_le later

theorem apply_quiet (ops : List Op) (inner : SessionInner) (fresh : Nat)
    (quiet : inner.invalidated = true ∨ rotations ops = 0) :
    (ops.foldl Op.apply (inner, fresh)).1.previousId = inner.previousId := by
  induction ops generalizing inner fresh with
  | nil => rfl
  | cons op ops ih =>
    rw [List.foldl_cons]
    rcases apply_cases op inner fresh with ⟨-, previousId, -, invalidated, -⟩ | ⟨rfl, alive, -⟩
    · rw [← previousId]
      refine ih _ _ ?_
      by_cases last : op = .invalidate
      · exact Or.inl (invalidated (Or.inr last))
      · refine quiet.imp (fun gone => invalidated (Or.inl gone)) fun none => ?_
        rw [rotations, List.takeWhile_cons_of_pos (by simpa using last), List.count_cons] at none
        exact (Nat.add_eq_zero_iff.mp none).1
    · rcases quiet with gone | none
      · rw [alive] at gone
        cases gone
      · simp [rotations] at none

-- One rotation at most leaves the session's first id as the previous one.
theorem apply_once (ops : List Op) (inner : SessionInner) (fresh : Nat) (once : rotations ops ≤ 1) :
    (ops.foldl Op.apply (inner, fresh)).1.previousId = inner.previousId ∨
      (ops.foldl Op.apply (inner, fresh)).1.previousId = some inner.id := by
  induction ops generalizing inner fresh with
  | nil => exact Or.inl rfl
  | cons op ops ih =>
    rw [List.foldl_cons]
    rcases apply_cases op inner fresh with ⟨id, previousId, -, invalidated, -⟩ | ⟨rfl, -, rotated⟩
    · by_cases last : op = .invalidate
      · left
        rw [apply_quiet ops _ _ (Or.inl (invalidated (Or.inr last))), previousId]
      · rw [← previousId, ← id]
        refine ih _ _ (le_trans ?_ once)
        rw [rotations, rotations, List.takeWhile_cons_of_pos (by simpa using last), List.count_cons]
        exact Nat.le_add_right _ _
    · right
      rw [rotated, apply_quiet]
      right
      have counted : rotations (.rotateId :: ops) = rotations ops + 1 := by simp [rotations]
      omega

end Handler

def Visit.lineage (visit : Visit) : Nat := visit.inner.lineage

def Visit.mine (visit : Visit) (id : Nat) : Prop :=
  id = visit.inner.id ∨ visit.inner.previousId = some id

def Stage.visit : Stage → Option Visit
  | .dropping _ => none
  | .handling visit | .deletingPrevious visit _ | .settling visit => some visit

structure Held (s : State) (visit : Visit) : Prop where
  lineage : visit.lineage < s.fresh
  mine : ∀ id, visit.mine id → id < s.fresh
  known : ∀ id, visit.known id = true → visit.loaded = some id ∨ s.buried id = true
  owned : ∀ id, visit.loaded = some id → s.owner id = some visit.lineage
  own : visit.loaded = none → ∀ id, s.owner id ≠ some visit.lineage

def Plain (s : State) (visit : Visit) : Prop :=
  visit.inner.previousId = none ∧
    (visit.loaded = some visit.inner.id ∨ visit.loaded = none ∧ s.owner visit.inner.id = none)

def Moved (s : State) (visit : Visit) : Prop :=
  visit.inner.previousId.isSome ∧ s.owner visit.inner.id = none ∧
    (∀ id, visit.loaded = some id → s.buried id = true) ∧
    (visit.inner.invalidated = false → ∀ id, s.owner id = some visit.lineage → s.buried id = true)

def Stage.Ok (s : State) : Stage → Prop
  | .dropping _ => True
  | .handling visit => Held s visit ∧ Plain s visit ∧ visit.inner.invalidated = false
  | .deletingPrevious visit previous => Held s visit ∧
      visit.inner.previousId = some previous ∧ s.owner visit.inner.id = none ∧
      visit.inner.modified = true ∧
      (visit.loaded = some previous ∨ visit.loaded = none ∧ s.owner previous = none)
  | .settling visit => Held s visit ∧ (Plain s visit ∨ Moved s visit)

def Apart (s : State) (visit other : Visit) : Prop :=
  (visit.loaded = none → visit.lineage ≠ other.lineage) ∧
    ∀ one two, visit.mine one → other.mine two → s.owner one = none → one ≠ two

def Saving (s : State) (stage : Stage) (visit : Visit) : Prop :=
  stage = .settling visit ∧ s.owner visit.inner.id = none ∧ visit.inner.invalidated = false

structure Sound (s : State) : Prop where
  dead : ∀ id, s.buried id = true → s.store id = none
  used : ∀ id, s.buried id = true → (s.owner id).isSome = true
  stored : ∀ id entry, s.store id = some entry → s.owner id = some entry.lineage
  single : ∀ one other lineage, s.owner one = some lineage → s.owner other = some lineage →
    one ≠ other → s.buried one = true ∨ s.buried other = true
  bounded : ∀ id lineage, s.owner id = some lineage → id < s.fresh ∧ lineage < s.fresh
  stages : ∀ request stage, s.stages request = some stage → stage.Ok s
  apart : ∀ request other stage stage', request ≠ other → s.stages request = some stage →
    s.stages other = some stage' → ∀ visit visit', stage.visit = some visit →
    stage'.visit = some visit' → Apart s visit visit'
  saving : ∀ request other stage stage', request ≠ other → s.stages request = some stage →
    s.stages other = some stage' → ∀ visit visit', Saving s stage visit →
    Saving s stage' visit' → visit.lineage ≠ visit'.lineage
  retired : ∀ dead ∈ s.retired, ∀ id, dead id = true → s.buried id = true

theorem Sound.retiredDead {s : State} (sound : Sound s) : RetiredDead s :=
  fun dead among id owed => sound.dead id (sound.retired dead among id owed)

theorem sound_start : Sound start where
  dead := by simp [start]
  used := by simp [start]
  stored := by simp [start]
  single := by simp [start]
  bounded := by simp [start]
  stages := by simp [start]
  apart := by simp [start]
  saving := by simp [start]
  retired := by simp [start]

structure Later (s next : State) : Prop where
  owner : next.owner = s.owner
  fresh : s.fresh ≤ next.fresh
  buried : ∀ id, s.buried id = true → next.buried id = true

structure Recedes (s next : State) : Prop extends Later s next where
  stages : next.stages = s.stages
  retired : next.retired = s.retired
  store : ∀ id entry, next.store id = some entry → s.store id = some entry
  dead : ∀ id, next.buried id = true → next.store id = none
  used : ∀ id, next.buried id = true → (s.owner id).isSome = true

section Moves

variable {s next : State}

theorem Held.later {visit : Visit} (held : Held s visit) (later : Later s next) :
    Held next visit where
  lineage := held.lineage.trans_le later.fresh
  mine := fun id mine => (held.mine id mine).trans_le later.fresh
  known := fun id known => (held.known id known).imp_right (later.buried id)
  owned := fun id loaded => by
    rw [later.owner]
    exact held.owned id loaded
  own := fun unloaded id => by
    rw [later.owner]
    exact held.own unloaded id

theorem Stage.Ok.later {stage : Stage} (ok : stage.Ok s) (later : Later s next) :
    stage.Ok next := by
  cases stage with
  | dropping id => trivial
  | handling visit =>
    refine ⟨ok.1.later later, ?_, ok.2.2⟩
    rw [Plain, later.owner]
    exact ok.2.1
  | deletingPrevious visit previous =>
    refine ⟨ok.1.later later, ?_⟩
    rw [later.owner]
    exact ok.2
  | settling visit =>
    refine ⟨ok.1.later later, ?_⟩
    rw [Plain, Moved, later.owner]
    refine ok.2.imp id ?_
    rintro ⟨rotated, unsaved, gone, clear⟩
    exact ⟨rotated, unsaved, fun id loaded => later.buried id (gone id loaded),
      fun alive id owned => later.buried id (clear alive id owned)⟩

theorem Sound.recede (sound : Sound s) (recedes : Recedes s next) : Sound next where
  dead := recedes.dead
  used := by
    rw [recedes.owner]
    exact recedes.used
  stored := fun id entry held => by
    rw [recedes.owner]
    exact sound.stored id entry (recedes.store id entry held)
  single := by
    rw [recedes.owner]
    intro one other lineage first second differs
    exact (sound.single one other lineage first second differs).imp (recedes.buried _)
      (recedes.buried _)
  bounded := by
    rw [recedes.owner]
    intro id lineage owned
    have before := sound.bounded id lineage owned
    exact ⟨before.1.trans_le recedes.fresh, before.2.trans_le recedes.fresh⟩
  stages := by
    rw [recedes.stages]
    exact fun request stage active => (sound.stages request stage active).later recedes.toLater
  apart := by
    rw [recedes.stages]
    simp only [Apart, recedes.owner]
    exact sound.apart
  saving := by
    rw [recedes.stages]
    simp only [Saving, recedes.owner]
    exact sound.saving
  retired := by
    rw [recedes.retired]
    exact fun dead among id owed => recedes.buried id (sound.retired dead among id owed)

theorem recedes_delete (sound : Sound s) (id : Nat) : Recedes s (s.delete id) where
  owner := rfl
  stages := rfl
  retired := rfl
  fresh := le_rfl
  store := by
    intro other entry held
    simp only [State.delete, Function.update_apply] at held
    split at held
    next => cases held
    next => exact held
  buried := fun _ before => before
  dead := by
    intro other buried
    simp only [State.delete, Function.update_apply]
    split
    next => rfl
    next => exact sound.dead other buried
  used := sound.used

theorem recedes_bury (sound : Sound s) (id : Nat) : Recedes s (s.bury id) where
  owner := rfl
  stages := rfl
  retired := rfl
  fresh := le_rfl
  store := (recedes_delete sound id).store
  buried := by
    intro other before
    simp [State.bury, before]
  dead := by
    intro other buried
    simp only [State.bury, State.delete, Bool.or_eq_true, Bool.and_eq_true, beq_iff_eq] at buried
    simp only [State.bury, State.delete, Function.update_apply]
    split
    next => rfl
    next differs =>
      rcases buried with before | ⟨same, -⟩
      · exact sound.dead other before
      · exact absurd same differs
  used := by
    intro other buried
    simp only [State.bury, State.delete, Bool.or_eq_true, Bool.and_eq_true, beq_iff_eq] at buried
    rcases buried with before | ⟨rfl, used⟩
    · exact sound.used other before
    · exact used

theorem recedes_draw (sound : Sound s) {fresh : Nat} (more : s.fresh ≤ fresh) :
    Recedes s { s with fresh } where
  owner := rfl
  stages := rfl
  retired := rfl
  fresh := more
  store := fun _ _ held => held
  buried := fun _ before => before
  dead := sound.dead
  used := sound.used

theorem put_cases {request other : Nat} {stage : Option Stage} {found : Stage}
    (active : (s.put request stage).stages other = some found) :
    other = request ∧ stage = some found ∨ other ≠ request ∧ s.stages other = some found := by
  simp only [State.put, Function.update_apply] at active
  split at active
  next same => exact Or.inl ⟨same, active⟩
  next differs => exact Or.inr ⟨differs, active⟩

theorem Sound.put (sound : Sound s) {request : Nat} {stage : Option Stage}
    (ok : ∀ found, stage = some found → found.Ok s)
    (apart : ∀ found visit, stage = some found → found.visit = some visit →
      ∀ other stage' visit', other ≠ request → s.stages other = some stage' →
      stage'.visit = some visit' → Apart s visit visit' ∧ Apart s visit' visit)
    (saving : ∀ found visit, stage = some found → Saving s found visit →
      ∀ other stage' visit', other ≠ request → s.stages other = some stage' →
      Saving s stage' visit' → visit.lineage ≠ visit'.lineage) :
    Sound (s.put request stage) where
  dead := sound.dead
  used := sound.used
  stored := sound.stored
  single := sound.single
  bounded := sound.bounded
  stages := by
    intro other found active
    have same : Later s (s.put request stage) :=
      { owner := rfl, fresh := le_rfl, buried := fun _ before => before }
    rcases put_cases active with ⟨-, given⟩ | ⟨-, before⟩
    · exact (ok found given).later same
    · exact (sound.stages other found before).later same
  apart := by
    intro one two stage₁ stage₂ differs first second visit₁ visit₂ shown₁ shown₂
    rcases put_cases first with ⟨rfl, given⟩ | ⟨away, before⟩
    · rcases put_cases second with ⟨same, -⟩ | ⟨away, before⟩
      · exact absurd same.symm differs
      · exact (apart stage₁ visit₁ given shown₁ two stage₂ visit₂ away before shown₂).1
    · rcases put_cases second with ⟨rfl, given⟩ | ⟨-, before'⟩
      · exact (apart stage₂ visit₂ given shown₂ one stage₁ visit₁ away before shown₁).2
      · exact sound.apart one two stage₁ stage₂ differs before before' visit₁ visit₂ shown₁ shown₂
  saving := by
    intro one two stage₁ stage₂ differs first second visit₁ visit₂ saves₁ saves₂
    rcases put_cases first with ⟨rfl, given⟩ | ⟨away, before⟩
    · rcases put_cases second with ⟨same, -⟩ | ⟨away, before⟩
      · exact absurd same.symm differs
      · exact saving stage₁ visit₁ given saves₁ two stage₂ visit₂ away before saves₂
    · rcases put_cases second with ⟨rfl, given⟩ | ⟨-, before'⟩
      · exact (saving stage₂ visit₂ given saves₂ one stage₁ visit₁ away before saves₁).symm
      · exact sound.saving one two stage₁ stage₂ differs before before' visit₁ visit₂ saves₁ saves₂
  retired := sound.retired

theorem Sound.leave (sound : Sound s) (request : Nat) : Sound (s.put request none) :=
  sound.put (by simp) (by simp) (by simp)

theorem Stage.Ok.held {stage : Stage} {visit : Visit} (ok : stage.Ok s)
    (shown : stage.visit = some visit) : Held s visit := by
  cases stage with
  | dropping id => cases shown
  | handling => cases shown; exact ok.1
  | deletingPrevious => cases shown; exact ok.1
  | settling => cases shown; exact ok.1

theorem Sound.create (sound : Sound s) (request : Nat) (now : Int) :
    Sound (s.create request now) := by
  have unowned : s.owner s.fresh = none := by
    by_contra owned
    obtain ⟨lineage, owned⟩ := Option.ne_none_iff_exists'.mp owned
    exact absurd (sound.bounded _ _ owned).1 (lt_irrefl _)
  refine (sound.recede (recedes_draw sound (Nat.le_succ s.fresh))).put ?_ ?_ ?_
  · rintro found ⟨⟩
    refine ⟨⟨Nat.lt_succ_self _, ?_, by simp, by simp, ?_⟩, ⟨rfl, Or.inr ⟨rfl, unowned⟩⟩, rfl⟩
    · rintro id (rfl | none)
      · exact Nat.lt_succ_self _
      · cases none
    · intro _ id owned
      exact absurd (sound.bounded _ _ owned).2 (lt_irrefl _)
  · rintro found visit ⟨⟩ ⟨⟩ other stage' visit' - active shown
    have held := (sound.stages other stage' active).held shown
    refine ⟨⟨fun _ => held.lineage.ne', ?_⟩,
      ⟨fun _ => held.lineage.ne, ?_⟩⟩
    · rintro one two (rfl | none) mine -
      · exact (held.mine two mine).ne'
      · cases none
    · rintro one two mine (rfl | none) -
      · exact (held.mine one mine).ne
      · cases none
  · rintro found visit ⟨⟩ ⟨settling, -⟩
    cases settling

theorem Sound.found (sound : Sound s) (request : Nat) {id : Nat} {stored : Stored}
    (resolves : s.store id = some stored) (now : Int) :
    Sound (s.put request (some (.handling
      { loaded := some id
        known := fun other => s.owner other == some stored.lineage
        inner := SessionInner.load id stored.data stored.lineage now }))) := by
  have owned := sound.stored id stored resolves
  refine sound.put ?_ ?_ ?_
  · rintro found ⟨⟩
    refine ⟨⟨(sound.bounded _ _ owned).2, ?_, ?_, ?_, by simp⟩, ⟨rfl, Or.inl rfl⟩, rfl⟩
    · rintro other (rfl | none)
      · exact (sound.bounded _ _ owned).1
      · cases none
    · intro other known
      -- the other ids of the session were buried before: this one is not
      have same : s.owner other = some stored.lineage := by simpa using known
      by_cases here : id = other
      · exact Or.inl (by rw [here])
      · right
        rcases sound.single id other _ owned same here with buried | buried
        · have gone := sound.dead id buried
          rw [resolves] at gone
          cases gone
        · exact buried
    · rintro other ⟨⟩
      exact owned
  · rintro found visit ⟨⟩ ⟨⟩ other stage' visit' - active shown
    have held := (sound.stages other stage' active).held shown
    refine ⟨⟨by simp, ?_⟩, ⟨?_, ?_⟩⟩
    · rintro one two (rfl | none) - unsaved
      · rw [show s.owner _ = _ from owned] at unsaved
        cases unsaved
      · cases none
    · intro unloaded same
      exact held.own unloaded id (by rw [owned, same]; rfl)
    · rintro one two - (rfl | none) unsaved rfl
      · rw [show s.owner _ = _ from owned] at unsaved
        cases unsaved
      · cases none
  · rintro found visit ⟨⟩ ⟨settling, -⟩
    cases settling

theorem Sound.retire (sound : Sound s) {dead : Nat → Bool}
    (gone : ∀ id, dead id = true → s.buried id = true) :
    Sound { s with retired := s.retired ++ [dead] } where
  dead := sound.dead
  used := sound.used
  stored := sound.stored
  single := sound.single
  bounded := sound.bounded
  stages := fun request stage active =>
    (sound.stages request stage active).later ⟨rfl, le_rfl, fun _ before => before⟩
  apart := sound.apart
  saving := sound.saving
  retired := by
    intro owed among
    rcases List.mem_append.mp among with before | last
    · exact sound.retired owed before
    · rw [List.mem_singleton.mp last]
      exact gone

theorem Sound.complete {request : Nat} {visit : Visit} (left : Sound (s.put request none))
    (gone : visit.inner.previousId.isSome = true ∨ visit.inner.invalidated = true →
      ∀ id, visit.known id = true → s.buried id = true) :
    Sound (s.complete request visit) := by
  by_cases ends : (visit.inner.previousId.isSome || visit.inner.invalidated) = true
  · have retired : Sound { s.put request none with
        retired := s.retired ++
          [fun id => visit.known id && State.issued visit.inner != some id] } := by
      refine left.retire fun id owed => ?_
      rw [Bool.and_eq_true] at owed
      exact gone (by simpa using ends) id owed.1
    simpa [State.complete, ends] using retired
  · simpa [State.complete, ends, State.put] using left

theorem Sound.advance (sound : Sound s) {request : Nat} (stage : Stage) {visit next : Visit}
    (apart : ∀ other stage' visit', other ≠ request → s.stages other = some stage' →
      stage'.visit = some visit' → Apart s visit visit' ∧ Apart s visit' visit)
    (shown : stage.visit = some next) (ok : stage.Ok s)
    (same : next.loaded = visit.loaded ∧ next.lineage = visit.lineage)
    (mine : ∀ id, next.mine id → visit.mine id ∨
      ∀ other stage' visit', other ≠ request → s.stages other = some stage' →
        stage'.visit = some visit' → ¬ visit'.mine id)
    (saving : Saving s stage next → ∀ other stage' visit', other ≠ request →
      s.stages other = some stage' → Saving s stage' visit' → next.lineage ≠ visit'.lineage) :
    Sound (s.put request (some stage)) := by
  refine sound.put ?_ ?_ ?_
  · rintro found ⟨⟩
    exact ok
  · rintro found visit₁ ⟨⟩ given other stage' visit' differs active shown'
    obtain rfl : visit₁ = next := Option.some.inj (given.symm.trans shown)
    obtain ⟨one, two⟩ := apart other stage' visit' differs active shown'
    refine ⟨⟨fun unloaded => ?_, fun x y own other_mine unsaved => ?_⟩,
      ⟨fun unloaded => ?_, fun x y own other_mine unsaved => ?_⟩⟩
    · rw [same.2]
      exact one.1 (same.1 ▸ unloaded)
    · rcases mine x own with before | drawn
      · exact one.2 x y before other_mine unsaved
      · rintro rfl
        exact drawn other stage' visit' differs active shown' other_mine
    · rw [same.2]
      exact two.1 unloaded
    · rcases mine y other_mine with before | drawn
      · exact two.2 x y own before unsaved
      · rintro rfl
        exact drawn other stage' visit' differs active shown' own
  · rintro found visit₁ ⟨⟩ saves
    have given : stage.visit = some visit₁ := by rw [saves.1]; rfl
    obtain rfl : visit₁ = next := Option.some.inj (given.symm.trans shown)
    exact saving saves

theorem Sound.handled (sound : Sound s) {request : Nat} {visit : Visit} (ops : List Op)
    (active : s.stages request = some (.handling visit))
    (once : visit.loaded.isSome → rotations ops ≤ 1) :
    Sound (s.handled request visit ops) := by
  obtain ⟨held, plain, alive⟩ := sound.stages request _ active
  have others : ∀ other stage' visit', other ≠ request → s.stages other = some stage' →
      stage'.visit = some visit' → Apart s visit visit' ∧ Apart s visit' visit :=
    fun other stage' visit' differs active' shown' =>
      ⟨sound.apart _ _ _ _ differs.symm active active' _ _ rfl shown',
        sound.apart _ _ _ _ differs active' active _ _ shown' rfl⟩
  have grown := apply_grows ops visit.inner s.fresh
  have turned := apply_id ops visit.inner s.fresh (held.mine _ (Or.inl rfl))
  have previous := apply_once ops visit.inner s.fresh
  have recedes := recedes_draw sound grown.1
  rw [plain.1] at previous
  simp only [State.handled]
  generalize ops.foldl Op.apply (visit.inner, s.fresh) = after at *
  obtain ⟨inner, fresh⟩ := after
  dsimp only at turned previous recedes ⊢
  obtain ⟨more, same⟩ : s.fresh ≤ fresh ∧ inner.lineage = visit.inner.lineage := grown
  have same_lineage : Visit.lineage { visit with inner } = visit.lineage := same
  have drawn_new : ∀ id, s.fresh ≤ id → s.owner id = none ∧
      ∀ other stage' visit', other ≠ request → s.stages other = some stage' →
        stage'.visit = some visit' → ¬ visit'.mine id := by
    intro id above
    constructor
    · by_contra owned
      obtain ⟨lineage, owned⟩ := Option.ne_none_iff_exists'.mp owned
      exact absurd (sound.bounded _ _ owned).1 (not_lt.mpr above)
    · intro other stage' visit' _ active' shown' mine
      exact absurd (((sound.stages other stage' active').held shown').mine id mine) (not_lt.mpr above)
  have held' : (∀ id, Visit.mine { visit with inner } id → id < fresh) →
      Held { s with fresh } { visit with inner } := fun mine =>
    { lineage := same_lineage ▸ held.lineage.trans_le more
      mine
      known := held.known
      owned := fun id loaded => same_lineage ▸ held.owned id loaded
      own := fun unloaded id => same_lineage ▸ held.own unloaded id }
  rcases turned with ⟨id, kept⟩ | ⟨drawn, bounded, modified, old, some_old, older, origin⟩
  · -- no rotation: the request settles its session under the id it has
    rw [plain.1] at kept
    simp only [kept, State.settle]
    have plain' : Plain { s with fresh } { visit with inner } := by
      refine ⟨kept, ?_⟩
      show visit.loaded = some inner.id ∨ visit.loaded = none ∧ s.owner inner.id = none
      rw [id]
      exact plain.2
    have mine' : ∀ other, Visit.mine { visit with inner } other → visit.mine other := by
      rintro other (rfl | rotated)
      · exact Or.inl id
      · rw [kept] at rotated
        cases rotated
    split
    next =>
      refine (sound.recede recedes).advance (.settling { visit with inner }) others rfl
        ⟨held' fun other mine => (held.mine other (mine' other mine)).trans_le more,
          Or.inl plain'⟩ ⟨rfl, same⟩ (fun other mine => Or.inl (mine' other mine)) ?_
      rintro ⟨-, unsaved, -⟩ other stage' visit' differs active' ⟨rfl, -⟩
      rcases plain'.2 with loaded | ⟨unloaded, -⟩
      · have owned := held.owned _ loaded
        rw [show s.owner inner.id = none from unsaved] at owned
        cases owned
      · show inner.lineage ≠ _
        rw [same]
        exact (others other _ visit' differs active' rfl).1.1 unloaded
    next idle =>
      refine ((sound.recede recedes).leave request).complete ?_
      rintro (rotated | gone)
      · rw [kept] at rotated
        cases rotated
      · have ended : inner.invalidated = true := gone
        simp [ended] at idle
  · simp only [some_old]
    rw [if_pos older.ne]
    refine (sound.recede recedes).advance (.deletingPrevious { visit with inner } old) others rfl
      ⟨held' ?_, some_old, (drawn_new _ drawn).1, modified, ?_⟩ ⟨rfl, same⟩ ?_ ?_
    · rintro id (rfl | rotated)
      · exact bounded
      · rw [some_old] at rotated
        cases rotated
        exact older.trans bounded
    · rcases plain.2 with loaded | ⟨unloaded, unsaved⟩
      · left
        -- a stored session is rotated once, away from the id it was loaded under
        rcases previous (once (by simp [loaded])) with none | first
        · rw [some_old] at none
          cases none
        · exact loaded.trans (first.symm.trans some_old)
      · refine Or.inr ⟨unloaded, ?_⟩
        rcases origin with rfl | above
        · exact unsaved
        · exact (drawn_new old above).1
    · rintro id (rfl | rotated)
      · exact Or.inr (drawn_new _ drawn).2
      · rw [some_old] at rotated
        cases rotated
        rcases origin with rfl | above
        · exact Or.inl (Or.inl rfl)
        · exact Or.inr (drawn_new _ above).2
    · rintro ⟨deleting, -⟩
      cases deleting

theorem Saving.shown {stage : Stage} {visit : Visit} (saving : Saving s stage visit) :
    stage.visit = some visit := by
  rw [saving.1]
  rfl

theorem Sound.deletedPrevious (sound : Sound s) {request : Nat} {visit : Visit} {previous : Nat}
    (active : s.stages request = some (.deletingPrevious visit previous))
    (undisturbed : visit.inner.invalidated = false → s.buried previous = false) :
    Sound ((s.bury previous).settle request visit) := by
  obtain ⟨held, rotated, unsaved, modified, origin⟩ := sound.stages request _ active
  have others : ∀ other stage' visit', other ≠ request → s.stages other = some stage' →
      stage'.visit = some visit' → Apart s visit visit' ∧ Apart s visit' visit :=
    fun other stage' visit' differs active' shown' =>
      ⟨sound.apart _ _ _ _ differs.symm active active' _ _ rfl shown',
        sound.apart _ _ _ _ differs active' active _ _ shown' rfl⟩
  have recedes := recedes_bury sound previous
  have gone : visit.loaded = some previous → (s.bury previous).buried previous = true := by
    intro loaded
    simp [State.bury, held.owned previous loaded]
  rw [State.settle, modified, Bool.or_true, if_pos rfl]
  refine (sound.recede recedes).advance (.settling visit) others rfl
    ⟨held.later recedes.toLater, Or.inr ⟨by simp [rotated], unsaved, ?_, ?_⟩⟩ ⟨rfl, rfl⟩
    (fun id mine => Or.inl mine) ?_
  · intro id loaded
    rcases origin with same | ⟨unloaded, -⟩
    · obtain rfl : id = previous := Option.some.inj (loaded.symm.trans same)
      exact gone loaded
    · rw [unloaded] at loaded
      cases loaded
  · -- the previous id was the only one of the session still alive
    intro alive id owned
    rcases origin with loaded | ⟨unloaded, -⟩
    · by_cases same : id = previous
      · rw [same]
        exact gone loaded
      · rcases sound.single id previous _ owned (held.owned _ loaded) same with buried | buried
        · exact recedes.buried id buried
        · rw [undisturbed alive] at buried
          cases buried
    · exact absurd owned (held.own unloaded id)
  · rintro ⟨-, -, alive⟩ other stage' visit' differs active' saves
    obtain ⟨one, two⟩ := others other stage' visit' differs active' saves.shown
    intro same
    rcases origin with loaded | ⟨unloaded, -⟩
    · -- a request about to store the same session has the previous id buried already
      have ok := sound.stages other stage' active'
      rw [saves.1] at ok
      have unsaved' : s.owner visit'.inner.id = none := saves.2.1
      rcases ok.2 with plain | moved
      · rcases plain.2 with loaded' | ⟨unloaded', -⟩
        · rw [ok.1.owned _ loaded'] at unsaved'
          cases unsaved'
        · exact two.1 unloaded' same.symm
      · have owned := held.owned _ loaded
        rw [same] at owned
        have buried := moved.2.2.2 saves.2.2 previous owned
        rw [undisturbed alive] at buried
        cases buried
    · exact one.1 unloaded same

theorem Sound.ended (sound : Sound s) {request : Nat} {visit : Visit}
    (active : s.stages request = some (.settling visit)) :
    Sound ((s.bury visit.inner.id).complete request visit) := by
  obtain ⟨held, way⟩ := sound.stages request _ active
  have recedes := recedes_bury sound visit.inner.id
  refine ((sound.recede recedes).leave request).complete fun _ id known => ?_
  rcases held.known id known with loaded | buried
  · rcases way with ⟨-, same | ⟨unloaded, -⟩⟩ | moved
    · obtain rfl : id = visit.inner.id := Option.some.inj (loaded.symm.trans same)
      simp [State.bury, held.owned _ loaded]
    · rw [unloaded] at loaded
      cases loaded
    · exact recedes.buried id (moved.2.2.1 id loaded)
  · exact recedes.buried id buried

theorem Sound.resave (sound : Sound s) {inner : SessionInner}
    (owned : s.owner inner.id = some inner.lineage) (alive : s.buried inner.id = false) :
    Sound (s.save inner) := by
  have same : (s.save inner).owner = s.owner := by
    simp only [State.save, ← owned, Function.update_eq_self]
  have later : Later s (s.save inner) :=
    { owner := same, fresh := le_rfl, buried := fun _ before => before }
  refine
    { dead := ?_, used := by rw [same]; exact sound.used, stored := ?_
      single := by rw [same]; exact sound.single
      bounded := by rw [same]; exact sound.bounded
      stages := fun request stage active => (sound.stages request stage active).later later
      apart := by simp only [Apart, same]; exact sound.apart
      saving := by simp only [Saving, same]; exact sound.saving
      retired := sound.retired }
  · intro id buried
    simp only [State.save, Function.update_apply]
    split
    next here =>
      have now : s.buried inner.id = true := here ▸ buried
      rw [alive] at now
      cases now
    next => exact sound.dead id buried
  · intro id entry held
    rw [same]
    simp only [State.save, Function.update_apply] at held
    split at held
    next here =>
      cases held
      rw [here, owned]
    next => exact sound.stored id entry held

theorem Sound.firstSave (sound : Sound s) {inner : SessionInner} (unsaved : s.owner inner.id = none)
    (below : inner.id < s.fresh ∧ inner.lineage < s.fresh)
    (clear : ∀ id, s.owner id = some inner.lineage → s.buried id = true)
    (others : ∀ other stage visit, s.stages other = some stage → stage.visit = some visit →
      (visit.loaded = none → visit.lineage ≠ inner.lineage) ∧
        (∀ id, visit.mine id → s.owner id = none → id ≠ inner.id) ∧
        (Saving s stage visit → visit.lineage ≠ inner.lineage)) :
    Sound (s.save inner) := by
  have alive : s.buried inner.id = false := by
    rw [← Bool.not_eq_true]
    intro buried
    have used := sound.used _ buried
    rw [unsaved] at used
    cases used
  have saved : ∀ id lineage, (s.save inner).owner id = some lineage →
      id = inner.id ∧ lineage = inner.lineage ∨ s.owner id = some lineage := by
    intro id lineage owned
    simp only [State.save, Function.update_apply] at owned
    split at owned
    next here => exact Or.inl ⟨here, (Option.some.inj owned).symm⟩
    next => exact Or.inr owned
  have kept : ∀ id, id ≠ inner.id → (s.save inner).owner id = s.owner id := fun id differs =>
    Function.update_of_ne differs ..
  have still : ∀ id lineage, s.owner id = some lineage → (s.save inner).owner id = some lineage := by
    intro id lineage owned
    rw [kept id, owned]
    rintro rfl
    rw [unsaved] at owned
    cases owned
  have free : ∀ id, (s.save inner).owner id = none → s.owner id = none := by
    intro id none
    cases owned : s.owner id with
    | none => rfl
    | some lineage => rw [still id lineage owned] at none; cases none
  have held : ∀ other stage visit, s.stages other = some stage → stage.visit = some visit →
      Held s visit → Held (s.save inner) visit := by
    intro other stage visit active shown held
    refine ⟨held.lineage, held.mine, held.known, fun id loaded => still id _ (held.owned id loaded),
      fun unloaded id owned => ?_⟩
    rcases saved id _ owned with ⟨-, same⟩ | before
    · exact (others other stage visit active shown).1 unloaded same
    · exact held.own unloaded id before
  refine
    { dead := ?_, used := ?_, stored := ?_, single := ?_, bounded := ?_, stages := ?_
      apart := ?_, saving := ?_, retired := sound.retired }
  · intro id buried
    simp only [State.save, Function.update_apply]
    split
    next here =>
      have now : s.buried inner.id = true := here ▸ buried
      rw [alive] at now
      cases now
    next => exact sound.dead id buried
  · intro id buried
    obtain ⟨lineage, owned⟩ := Option.isSome_iff_exists.mp (sound.used id buried)
    rw [still id lineage owned]
    rfl
  · intro id entry found
    simp only [State.save, Function.update_apply] at found ⊢
    split at found
    next here =>
      cases found
      rw [if_pos here]
    next differs =>
      rw [if_neg differs]
      exact sound.stored id entry found
  · intro one other lineage first second differs
    rcases saved one lineage first with ⟨here, rfl⟩ | before
    · rcases saved other _ second with ⟨there, -⟩ | before
      · exact absurd (here.trans there.symm) differs
      · exact Or.inr (clear other before)
    · rcases saved other _ second with ⟨-, rfl⟩ | before'
      · exact Or.inl (clear one before)
      · exact sound.single one other lineage before before' differs
  · intro id lineage owned
    rcases saved id lineage owned with ⟨rfl, rfl⟩ | before
    · exact below
    · exact sound.bounded id lineage before
  · intro other stage active
    have ok := sound.stages other stage active
    cases stage with
    | dropping id => trivial
    | handling visit =>
      obtain ⟨-, mine, -⟩ := others other _ visit active rfl
      refine ⟨held other _ visit active rfl ok.1, ⟨ok.2.1.1, ok.2.1.2.imp_right ?_⟩, ok.2.2⟩
      rintro ⟨unloaded, none⟩
      exact ⟨unloaded, (kept _ (mine _ (Or.inl rfl) none)).trans none⟩
    | deletingPrevious visit previous =>
      obtain ⟨-, mine, -⟩ := others other _ visit active rfl
      obtain ⟨before, rotated, none, modified, origin⟩ := ok
      refine ⟨held other _ visit active rfl before, rotated,
        (kept _ (mine _ (Or.inl rfl) none)).trans none, modified, origin.imp_right ?_⟩
      rintro ⟨unloaded, free⟩
      exact ⟨unloaded, (kept _ (mine _ (Or.inr rotated) free)).trans free⟩
    | settling visit =>
      obtain ⟨-, mine, saving⟩ := others other _ visit active rfl
      refine ⟨held other _ visit active rfl ok.1, ok.2.imp ?_ ?_⟩
      · rintro ⟨unrotated, way⟩
        refine ⟨unrotated, way.imp_right ?_⟩
        rintro ⟨unloaded, none⟩
        exact ⟨unloaded, (kept _ (mine _ (Or.inl rfl) none)).trans none⟩
      · rintro ⟨rotated, none, gone, cleared⟩
        refine ⟨rotated, (kept _ (mine _ (Or.inl rfl) none)).trans none, gone,
          fun alive id owned => ?_⟩
        rcases saved id _ owned with ⟨-, same⟩ | before
        · exact absurd same (saving ⟨rfl, none, alive⟩)
        · exact cleared alive id before
  · intro one other stage stage' differs first second visit visit' shown shown'
    obtain ⟨lineage, mine⟩ := sound.apart one other stage stage' differs first second visit visit'
      shown shown'
    exact ⟨lineage, fun x y own other_mine none => mine x y own other_mine (free x none)⟩
  · rintro one other stage stage' differs first second visit visit' ⟨settling, none, alive⟩
      ⟨settling', none', alive'⟩
    exact sound.saving one other stage stage' differs first second visit visit'
      ⟨settling, free _ none, alive⟩ ⟨settling', free _ none', alive'⟩

theorem Sound.saved (sound : Sound s) {request : Nat} {visit : Visit}
    (active : s.stages request = some (.settling visit)) (alive : visit.inner.invalidated = false)
    (undisturbed : visit.inner.previousId = none → s.buried visit.inner.id = false) :
    Sound ((s.save visit.inner).complete request visit) := by
  obtain ⟨held, way⟩ := sound.stages request _ active
  have left := sound.leave request
  have bounds := And.intro (held.mine _ (Or.inl rfl)) held.lineage
  -- the request is no longer among the others when its session is stored
  have others : ∀ other stage' visit', (s.put request none).stages other = some stage' →
      stage'.visit = some visit' → other ≠ request ∧ s.stages other = some stage' ∧
        Apart s visit visit' ∧ Apart s visit' visit := by
    intro other stage' visit' active' shown'
    rcases put_cases active' with ⟨-, none⟩ | ⟨differs, before⟩
    · cases none
    · exact ⟨differs, before, sound.apart _ _ _ _ differs.symm active before _ _ rfl shown',
        sound.apart _ _ _ _ differs before active _ _ shown' rfl⟩
  have stored : Sound ((s.put request none).save visit.inner) := by
    rcases way with ⟨unrotated, loaded | ⟨unloaded, unsaved⟩⟩ | ⟨rotated, unsaved, gone, clear⟩
    · exact left.resave (held.owned _ loaded) (undisturbed unrotated)
    · refine left.firstSave unsaved bounds (fun id owned => absurd owned (held.own unloaded id)) ?_
      intro other stage' visit' active' shown'
      obtain ⟨-, -, one, two⟩ := others other stage' visit' active' shown'
      exact ⟨two.1, fun id mine none => two.2 id _ mine (Or.inl rfl) none,
        fun _ => (one.1 unloaded).symm⟩
    · refine left.firstSave unsaved bounds (clear alive) ?_
      intro other stage' visit' active' shown'
      obtain ⟨differs, before, -, two⟩ := others other stage' visit' active' shown'
      exact ⟨two.1, fun id mine none => two.2 id _ mine (Or.inl rfl) none, fun saves =>
        sound.saving _ _ _ _ differs before active _ _ saves ⟨rfl, unsaved, alive⟩⟩
  refine Sound.complete (s := s.save visit.inner) stored fun ends id known => ?_
  rcases held.known id known with loaded | buried
  · rcases way with plain | moved
    · rw [plain.1, alive] at ends
      simp at ends
    · exact moved.2.2.1 id loaded
  · exact buried

theorem sound_step {choice : Choice} (undisturbed : Undisturbed s choice) (sound : Sound s)
    (stepped : step s choice = some next) : Sound next := by
  cases choice with
  | arrive request cookieId stale now =>
    obtain rfl := Option.some.inj stepped
    split
    · exact sound
    cases cookieId with
    | none => exact sound.create request now
    | some id =>
      cases resolves : s.store id with
      | none => simpa [resolves] using sound.create request now
      | some stored =>
        simp only [resolves]
        split
        · refine sound.put ?_ (by rintro found visit ⟨⟩ ⟨⟩) (by rintro found visit ⟨⟩ ⟨settling, -⟩; cases settling)
          rintro found ⟨⟩
          trivial
        · exact sound.found request resolves now
  | drop request now =>
    obtain rfl := Option.some.inj stepped
    split
    · exact (sound.recede (recedes_delete sound _)).create request now
    · exact sound
  | handle request ops =>
    obtain rfl := Option.some.inj stepped
    split
    next visit active => exact sound.handled ops active (undisturbed visit active)
    · exact sound
  | persist request =>
    obtain rfl := Option.some.inj stepped
    split
    next visit previous active =>
      exact sound.deletedPrevious active (undisturbed.1 visit previous active)
    next visit active =>
      split
      next => exact sound.ended active
      next alive =>
        have standing : visit.inner.invalidated = false := by simpa using alive
        exact sound.saved active standing fun unrotated =>
          undisturbed.2 visit active unrotated standing
    · exact sound
  | expire id =>
    obtain rfl := Option.some.inj stepped
    exact sound.recede (recedes_delete sound id)

end Moves

theorem retired_ids_stay_dead (choices : List Choice) (undisturbed : Along step Undisturbed start choices) :
    Always step RetiredDead start choices := by
  have kept := undisturbed.always Sound
    (fun s choice s' undisturbed sound stepped => sound_step undisturbed sound stepped) sound_start
  exact kept.mono fun s sound => sound.retiredDead

def rotateOnce : List Choice :=
  [.arrive 1 none false 0, .handle 1 [], .persist 1, .arrive 2 (some 0) false 1,
    .handle 2 [.rotateId], .persist 2, .persist 2, .arrive 3 (some 0) false 2]

theorem retired_ids_stay_dead_once : Always step RetiredDead start rotateOnce ∧
    ∃ s, run step start rotateOnce = some s ∧ s.retired.any (· 0) = true ∧
      (s.store 1).isSome = true ∧ s.store 0 = none := by
  refine ⟨retired_ids_stay_dead rotateOnce ⟨trivial, ?_⟩, _, rfl, rfl, rfl, rfl⟩
  rintro _ ⟨⟩
  refine ⟨fun _ _ _ => by decide, ?_⟩
  rintro _ ⟨⟩
  refine ⟨⟨fun _ _ _ _ => rfl, fun _ _ _ _ => rfl⟩, ?_⟩
  rintro _ ⟨⟩
  refine ⟨trivial, ?_⟩
  rintro _ ⟨⟩
  refine ⟨fun _ _ _ => by decide, ?_⟩
  rintro _ ⟨⟩
  refine ⟨⟨fun _ _ _ _ => rfl, fun _ _ _ _ => rfl⟩, ?_⟩
  rintro _ ⟨⟩
  refine ⟨⟨fun _ _ active => (nomatch active), fun visit active unrotated => ?_⟩, ?_⟩
  · cases active
    cases unrotated
  rintro _ ⟨⟩
  exact ⟨trivial, fun _ _ => trivial⟩

def rotateTwice : List Choice :=
  [.arrive 1 none false 0, .handle 1 [], .persist 1, .arrive 2 (some 0) false 1,
    .handle 2 [.rotateId, .rotateId], .persist 2, .persist 2]

def saveAfterLogout : List Choice :=
  [.arrive 1 none false 0, .handle 1 [], .persist 1, .arrive 2 (some 0) false 1,
    .arrive 3 (some 0) false 1, .handle 3 [.set "cart" (.int 7)], .handle 2 [.invalidate],
    .persist 2, .persist 3]

theorem RetiredDead.refuted {s : State} (id : Nat) (owed : s.retired.any (· id) = true)
    (resolves : (s.store id).isSome = true) : ¬ RetiredDead s := by
  intro dead
  obtain ⟨ids, among, owes⟩ := List.any_eq_true.mp owed
  rw [dead ids among id owes] at resolves
  cases resolves

theorem retired_id_resolves :
    (∃ s, run step start rotateTwice = some s ∧ (s.store 0).isSome = true ∧ ¬ RetiredDead s) ∧
      ∃ s, run step start saveAfterLogout = some s ∧ (s.store 0).isSome = true ∧
        ¬ RetiredDead s := by
  refine ⟨⟨_, rfl, rfl, ?_⟩, ⟨_, rfl, rfl, ?_⟩⟩
  · exact RetiredDead.refuted 0 rfl rfl
  · exact RetiredDead.refuted 0 rfl rfl

end Firefly.Session.Layer
