import Mathlib

set_option autoImplicit false

/-!
# Runs of a state machine

A machine is a partial step function; a run feeds it a list of choices. Invariants are proved one
step at a time and then hold after every run.
-/

namespace Firefly.Runs

variable {σ α : Type}

def run (step : σ → α → Option σ) (s : σ) (choices : List α) : Option σ :=
  choices.foldlM step s

section Run

variable {step : σ → α → Option σ}

@[simp] theorem run_nil (s : σ) : run step s [] = some s := rfl

theorem run_cons (s : σ) (choice : α) (choices : List α) :
    run step s (choice :: choices) = (step s choice).bind fun next => run step next choices := rfl

theorem run_append (s : σ) (first second : List α) :
    run step s (first ++ second) = (run step s first).bind fun next => run step next second := by
  simp only [run, List.foldlM_append]
  rfl

@[simp] theorem run_concat (s : σ) (choices : List α) (choice : α) :
    run step s (choices ++ [choice]) = (run step s choices).bind fun next => step next choice := by
  rw [run_append]
  congr 1
  funext next
  cases stepped : step next choice <;> simp [run_cons, stepped]

theorem run_invariant (Inv : σ → Prop) {choices : List α}
    (keeps : ∀ s choice s', choice ∈ choices → Inv s → step s choice = some s' → Inv s')
    {s s' : σ} (initial : Inv s) (ran : run step s choices = some s') : Inv s' := by
  induction choices generalizing s with
  | nil =>
    obtain rfl : s = s' := by simpa using ran
    exact initial
  | cons choice choices ih =>
    rw [run_cons] at ran
    obtain ⟨next, stepped, rest⟩ := Option.bind_eq_some_iff.mp ran
    have kept := keeps s choice next (by simp) initial stepped
    exact ih (fun s choice s' member => keeps s choice s' (by simp [member])) kept rest

def Along (step : σ → α → Option σ) (P : σ → α → Prop) : σ → List α → Prop
  | _, [] => True
  | s, choice :: choices => P s choice ∧ ∀ next, step s choice = some next → Along step P next choices

instance decidableAlong {P : σ → α → Prop} [∀ s choice, Decidable (P s choice)] :
    ∀ s choices, Decidable (Along step P s choices)
  | _, [] => isTrue trivial
  | s, choice :: choices =>
    match stepped : step s choice with
    | none => decidable_of_iff (P s choice) (by simp [Along, stepped])
    | some next =>
      have : Decidable (Along step P next choices) := decidableAlong next choices
      decidable_of_iff (P s choice ∧ Along step P next choices) (by simp [Along, stepped])

theorem along_of_forall {P : σ → α → Prop} {choices : List α}
    (holds : ∀ choice ∈ choices, ∀ s, P s choice) (s : σ) : Along step P s choices := by
  induction choices generalizing s with
  | nil => trivial
  | cons choice choices ih =>
    exact ⟨holds choice (by simp) s, fun next _ => ih (fun other member =>
      holds other (by simp [member])) next⟩

theorem along_append {P : σ → α → Prop} {first second : List α} {s : σ} :
    Along step P s (first ++ second) ↔
      Along step P s first ∧ ∀ next, run step s first = some next → Along step P next second := by
  induction first generalizing s with
  | nil => simp [Along]
  | cons choice first ih =>
    simp only [List.cons_append, Along, run_cons, Option.bind_eq_some_iff, ih]
    constructor
    · rintro ⟨here, later⟩
      refine ⟨⟨here, fun next stepped => (later next stepped).1⟩, ?_⟩
      rintro last ⟨next, stepped, ran⟩
      exact (later next stepped).2 last ran
    · rintro ⟨⟨here, later⟩, ends⟩
      exact ⟨here, fun next stepped => ⟨later next stepped, fun last ran => ends last ⟨next, stepped, ran⟩⟩⟩

theorem Along.and {P Q : σ → α → Prop} {choices : List α} {s : σ} (first : Along step P s choices)
    (second : Along step Q s choices) :
    Along step (fun s choice => P s choice ∧ Q s choice) s choices := by
  induction choices generalizing s with
  | nil => trivial
  | cons choice choices ih =>
    exact ⟨⟨first.1, second.1⟩, fun next stepped => ih (first.2 next stepped) (second.2 next stepped)⟩

theorem run_invariant_along (Inv : σ → Prop) {P : σ → α → Prop} {choices : List α}
    (keeps : ∀ s choice s', P s choice → Inv s → step s choice = some s' → Inv s')
    {s s' : σ} (initial : Inv s) (along : Along step P s choices)
    (ran : run step s choices = some s') : Inv s' := by
  induction choices generalizing s with
  | nil =>
    obtain rfl : s = s' := by simpa using ran
    exact initial
  | cons choice choices ih =>
    rw [run_cons] at ran
    obtain ⟨next, stepped, rest⟩ := Option.bind_eq_some_iff.mp ran
    exact ih (keeps s choice next along.1 initial stepped) (along.2 next stepped) rest

def Always (step : σ → α → Option σ) (G : σ → Prop) (s : σ) (choices : List α) : Prop :=
  ∀ taken rest, choices = taken ++ rest → ∀ s', run step s taken = some s' → G s'

@[simp] theorem always_nil (G : σ → Prop) (s : σ) : Always step G s [] ↔ G s := by
  constructor
  · intro always
    exact always [] [] rfl s rfl
  · intro good taken rest split s' ran
    obtain ⟨rfl, rfl⟩ := List.append_eq_nil_iff.mp split.symm
    obtain rfl : s = s' := by simpa using ran
    exact good

theorem always_cons (G : σ → Prop) (s : σ) (choice : α) (choices : List α) :
    Always step G s (choice :: choices) ↔
      G s ∧ ∀ next, step s choice = some next → Always step G next choices := by
  constructor
  · intro always
    refine ⟨always [] _ rfl s rfl, ?_⟩
    intro next stepped taken rest split s' ran
    apply always (choice :: taken) rest (by rw [split]; rfl) s'
    rw [run_cons, stepped]
    exact ran
  · rintro ⟨good, later⟩ taken rest split s' ran
    cases taken with
    | nil =>
      obtain rfl : s = s' := by simpa using ran
      exact good
    | cons first taken =>
      obtain ⟨rfl, tails⟩ := List.cons.inj split
      rw [run_cons] at ran
      obtain ⟨next, stepped, ran⟩ := Option.bind_eq_some_iff.mp ran
      exact later next stepped taken rest tails s' ran

-- Where a step that `C` admits keeps `G` exactly when its choice is allowed, so does a run of them.
theorem Along.always_iff {I G : σ → Prop} {C P : σ → α → Prop}
    (exact_step : ∀ s choice, C s choice → I s → G s →
      ∃ next, step s choice = some next ∧ (G next ↔ P s choice) ∧ (P s choice → I next))
    {choices : List α} {s : σ} (admitted : Along step C s choices) (invariant : I s) (good : G s) :
    Always step G s choices ↔ Along step P s choices := by
  induction choices generalizing s with
  | nil => simp [Along, good]
  | cons choice choices ih =>
    obtain ⟨next, stepped, allowed, kept⟩ := exact_step s choice admitted.1 invariant good
    have rest := admitted.2 next stepped
    rw [always_cons]
    constructor
    · rintro ⟨-, later⟩
      have always := later next stepped
      have now : G next := always [] _ rfl next rfl
      refine ⟨allowed.mp now, ?_⟩
      intro other other_stepped
      obtain rfl : next = other := Option.some.inj (stepped.symm.trans other_stepped)
      exact (ih rest (kept (allowed.mp now)) now).mp always
    · rintro ⟨here, later⟩
      refine ⟨good, ?_⟩
      intro other other_stepped
      obtain rfl : next = other := Option.some.inj (stepped.symm.trans other_stepped)
      exact (ih rest (kept here) (allowed.mpr here)).mpr (later next stepped)

theorem always_iff_along {I G : σ → Prop} {P : σ → α → Prop}
    (exact_step : ∀ s choice, I s → G s →
      ∃ next, step s choice = some next ∧ (G next ↔ P s choice) ∧ (P s choice → I next))
    (choices : List α) {s : σ} (invariant : I s) (good : G s) :
    Always step G s choices ↔ Along step P s choices :=
  Along.always_iff (fun s choice _ => exact_step s choice)
    (along_of_forall (P := fun _ _ => True) (fun _ _ _ => trivial) s) invariant good

theorem always_iff_along_of_steps {G : σ → Prop} {P : σ → α → Prop}
    (refused : ∀ s choice, step s choice = none → P s choice)
    (exact_step : ∀ s choice next, G s → step s choice = some next → (G next ↔ P s choice))
    (choices : List α) {s : σ} (good : G s) : Always step G s choices ↔ Along step P s choices := by
  induction choices generalizing s with
  | nil => simp [Along, good]
  | cons choice choices ih =>
    rw [always_cons]
    constructor
    · rintro ⟨-, later⟩
      refine ⟨?_, fun next stepped => ?_⟩
      · cases stepped : step s choice with
        | none => exact refused s choice stepped
        | some next =>
          have now : G next := later next stepped [] choices rfl next rfl
          exact (exact_step s choice next good stepped).mp now
      · have now : G next := later next stepped [] choices rfl next rfl
        exact (ih now).mp (later next stepped)
    · rintro ⟨here, later⟩
      refine ⟨good, fun next stepped => ?_⟩
      exact (ih ((exact_step s choice next good stepped).mpr here)).mpr (later next stepped)

theorem Along.of_always {I G : σ → Prop} {P : σ → α → Prop}
    (refused : ∀ s choice, step s choice = none → P s choice)
    (exact_step : ∀ s choice next, I s → step s choice = some next → I next ∧ (G next → P s choice))
    {choices : List α} {s : σ} (invariant : I s) (always : Always step G s choices) :
    Along step P s choices := by
  induction choices generalizing s with
  | nil => trivial
  | cons choice choices ih =>
    have later := ((always_cons G s choice choices).mp always).2
    refine ⟨?_, fun next stepped => ih (exact_step s choice next invariant stepped).1 (later next stepped)⟩
    cases stepped : step s choice with
    | none => exact refused s choice stepped
    | some next => exact (exact_step s choice next invariant stepped).2 (later next stepped [] _ rfl next rfl)

-- An invariant that the steps keep under a condition holds all along a run that meets it.
theorem Along.always (Inv : σ → Prop) {P : σ → α → Prop}
    (keeps : ∀ s choice s', P s choice → Inv s → step s choice = some s' → Inv s')
    {choices : List α} {s : σ} (initial : Inv s) (along : Along step P s choices) :
    Always step Inv s choices := by
  induction choices generalizing s with
  | nil => simpa using initial
  | cons choice choices ih =>
    rw [always_cons]
    refine ⟨initial, fun next stepped => ?_⟩
    exact ih (keeps s choice next along.1 initial stepped) (along.2 next stepped)

-- A measure that such steps lower bounds the length of the run.
theorem Along.length_le (Inv : σ → Prop) (measure : σ → Nat) {P : σ → α → Prop}
    (keeps : ∀ s choice s', P s choice → Inv s → step s choice = some s' →
      Inv s' ∧ measure s' < measure s)
    {choices : List α} {s s' : σ} (initial : Inv s) (along : Along step P s choices)
    (ran : run step s choices = some s') : choices.length ≤ measure s := by
  induction choices generalizing s with
  | nil => simp
  | cons choice choices ih =>
    rw [run_cons] at ran
    obtain ⟨next, stepped, rest⟩ := Option.bind_eq_some_iff.mp ran
    obtain ⟨kept, lower⟩ := keeps s choice next along.1 initial stepped
    have shorter := ih kept (along.2 next stepped) rest
    rw [List.length_cons]
    omega

-- Where a step that the condition does not admit spoils the state for good, a run tells which it was.
theorem along_or_spoiled {Good Spoiled : σ → Prop} {P : σ → α → Prop}
    (keeps : ∀ s choice s', P s choice → Good s → step s choice = some s' → Good s')
    (spoils : ∀ s choice s', ¬ P s choice → Good s → step s choice = some s' → Spoiled s')
    (stays : ∀ s choice s', Spoiled s → step s choice = some s' → Spoiled s')
    {choices : List α} {s s' : σ} (good : Good s) (ran : run step s choices = some s') :
    (Along step P s choices ∧ Good s') ∨ (¬ Along step P s choices ∧ Spoiled s') := by
  induction choices generalizing s with
  | nil =>
    obtain rfl : s = s' := by simpa using ran
    exact .inl ⟨trivial, good⟩
  | cons choice choices ih =>
    rw [run_cons] at ran
    obtain ⟨next, stepped, rest⟩ := Option.bind_eq_some_iff.mp ran
    by_cases admitted : P s choice
    · rcases ih (keeps s choice next admitted good stepped) rest with ⟨along, final⟩ | ⟨strays, final⟩
      · refine .inl ⟨⟨admitted, fun other other_stepped => ?_⟩, final⟩
        obtain rfl : next = other := Option.some.inj (stepped.symm.trans other_stepped)
        exact along
      · exact .inr ⟨fun along => strays (along.2 next stepped), final⟩
    · refine .inr ⟨fun along => admitted along.1, ?_⟩
      exact run_invariant Spoiled (fun s choice s' _ => stays s choice s')
        (spoils s choice next admitted good stepped) rest

def Finishes (step : σ → α → Option σ) (start : σ) (bound : Nat) (Ended : σ → Prop) : Prop :=
  ∀ choices s, run step start choices = some s →
    choices.length ≤ bound ∧ ((∀ choice, step s choice = none) → Ended s)

theorem Finishes.of_measure (Inv : σ → Prop) (measure : σ → Nat) {start : σ} {Ended : σ → Prop}
    (keeps : ∀ s choice s', Inv s → step s choice = some s' → Inv s')
    (lowers : ∀ s choice s', step s choice = some s' → measure s' < measure s)
    (ends : ∀ s, Inv s → (∀ choice, step s choice = none) → Ended s) (initial : Inv start) :
    Finishes step start (measure start) Ended := by
  intro choices s ran
  constructor
  · exact Along.length_le (fun _ => True) measure (P := fun _ _ => True)
      (fun s choice s' _ _ stepped => ⟨trivial, lowers s choice s' stepped⟩) trivial
      (along_of_forall (fun _ _ _ => trivial) start) ran
  · exact ends s (run_invariant Inv (fun s choice s' _ => keeps s choice s') initial ran)

theorem Always.mono {F G : σ → Prop} (weaker : ∀ s, F s → G s) {s : σ} {choices : List α}
    (always : Always step F s choices) : Always step G s choices :=
  fun taken rest split s' ran => weaker s' (always taken rest split s' ran)

end Run

theorem filterMap_concat {β : Type} (f : α → Option β) (trace : List α) (last : α) :
    (trace ++ [last]).filterMap f = trace.filterMap f ++ (f last).toList := by
  cases kept : f last <;> simp [kept]

def Guarded (P : List α → α → Prop) (trace : List α) : Prop :=
  ∀ before event after, trace = before ++ event :: after → P before event

theorem guarded_nil (P : List α → α → Prop) : Guarded P [] := by
  intro before event after split
  simp at split

theorem guarded_concat {P : List α → α → Prop} {trace : List α} {last : α}
    (guarded : Guarded P trace) (holds : P trace last) : Guarded P (trace ++ [last]) := by
  intro before event after split
  rcases List.eq_nil_or_concat after with rfl | ⟨init, final, rfl⟩
  · obtain ⟨rfl, same⟩ := List.append_inj' (show trace ++ [last] = before ++ [event] from split) rfl
    obtain rfl : last = event := by simpa using same
    exact holds
  · have init : trace = before ++ event :: init ∧ [last] = [final] :=
      List.append_inj' (by simpa using split) rfl
    exact guarded before event _ init.1

def Diverged (first second : List α) : Prop :=
  ∃ common one other rest rest', one ≠ other ∧
    first = common ++ one :: rest ∧ second = common ++ other :: rest'

theorem Diverged.ne {first second : List α} (diverged : Diverged first second) :
    first ≠ second := by
  obtain ⟨common, one, other, rest, rest', apart, rfl, rfl⟩ := diverged
  intro same
  exact apart (List.cons.inj (List.append_cancel_left same)).1

theorem Diverged.extend {first second first' second' : List α} (diverged : Diverged first second)
    (longer : first <+: first') (longer' : second <+: second') : Diverged first' second' := by
  obtain ⟨common, one, other, rest, rest', apart, rfl, rfl⟩ := diverged
  obtain ⟨later, rfl⟩ := longer
  obtain ⟨later', rfl⟩ := longer'
  exact ⟨common, one, other, rest ++ later, rest' ++ later', apart, by simp, by simp⟩

theorem diverged_concat (trace : List α) {one other : α} (apart : one ≠ other) :
    Diverged (trace ++ [one]) (trace ++ [other]) :=
  ⟨trace, one, other, [], [], apart, rfl, rfl⟩

end Firefly.Runs
