import Firefly.Plugins.Manager

set_option autoImplicit false

namespace Firefly.Plugins

open Layering Runs Tables Worklist

variable {plugins : Nat → Plugin} {hooks : Hooks} {s s' : State}

def State.Started (s : State) (id : String) : Prop :=
  ∃ e, s.entries id = some e ∧ e.descriptor.state = .started

structure Consistent (s : State) : Prop where
  dependencies : ∀ id e, s.entries id = some e → e.descriptor.state = .started →
    ∀ dep ∈ e.descriptor.dependsOn, s.Started dep
  managed : ∀ plugin, s.running plugin = true → ∃ id e, s.entries id = some e ∧ e.plugin = plugin
  swept : s.swept = true → ∀ plugin, s.running plugin = false

structure Synced (plugins : Nat → Plugin) (s : State) : Prop where
  listed : ∀ id, id ∈ s.order ↔ s.entries id ≠ none
  distinct : s.order.Nodup
  named : ∀ id e, s.entries id = some e → (plugins e.plugin).name = id
  running : ∀ plugin, s.running plugin = true ↔
    ∃ e, s.entries (plugins plugin).name = some e ∧ e.plugin = plugin ∧ e.descriptor.state = .started

def Backed (s : State) : Prop :=
  ∀ id e, s.entries id = some e → e.descriptor.state = .started →
    ∀ dep ∈ e.descriptor.dependsOn, s.Started dep

theorem Synced.nodes_names (synced : Synced plugins s) : s.nodes.map Prod.fst = s.order := by
  have all : ∀ ids : List String, (∀ id ∈ ids, s.entries id ≠ none) →
      (ids.filterMap fun id => (s.entries id).map fun e => (id, e.descriptor.dependsOn)).map Prod.fst =
        ids := by
    intro ids present
    induction ids with
    | nil => rfl
    | cons id ids ih =>
      obtain ⟨e, here⟩ := Option.ne_none_iff_exists'.mp (present id List.mem_cons_self)
      simp [here, ih fun other member => present other (List.mem_cons_of_mem _ member)]
  exact all s.order fun id listed => (synced.listed id).mp listed

theorem Synced.fullOrder_ok (synced : Synced plugins s) {full : List String}
    (resolved : s.fullOrder = .ok full) : full.Perm s.order ∧ Topological s.depsOf full := by
  unfold State.fullOrder at resolved
  cases sorted : topologicalOrder s.nodes with
  | error error => simp [sorted, Except.map] at resolved
  | ok order =>
    rw [sorted] at resolved
    obtain rfl := Except.ok.inj resolved
    obtain ⟨perm, after⟩ := topologicalOrder_ok sorted
    constructor
    · have names : (List.finRange s.nodes.length).map (fun i => (s.nodes.get i).1) = s.order := by
        rw [← synced.nodes_names]
        conv_rhs => rw [← List.map_get_finRange s.nodes, List.map_map]
        rfl
      exact names ▸ perm.map _
    · intro before id rest split dep declared
      obtain ⟨left, more, rfl, rfl, tail⟩ := List.map_eq_append_iff.mp split
      obtain ⟨i, right, rfl, rfl, rfl⟩ := List.map_eq_cons_iff.mp tail
      obtain ⟨-, e, here, deps⟩ := State.mem_nodes.mp (List.get_mem s.nodes i)
      rw [State.depsOf_eq here, deps] at declared
      obtain ⟨d, earlier, rfl⟩ := after left i right rfl dep declared
      exact List.mem_map.mpr ⟨d, earlier, rfl⟩

theorem dependent_before {deps : String → List String} {full before after : List String}
    {id other : String} (sorted : Topological deps full) (distinct : full.Nodup)
    (split : full.reverse = before ++ id :: after) (among : other ∈ full)
    (declared : id ∈ deps other) : other ∈ before := by
  obtain rfl : full = after.reverse ++ id :: before.reverse := by
    rw [← full.reverse_reverse, split]
    simp
  have alone := (List.nodup_cons.mp (List.nodup_middle.mp distinct)).1
  rcases List.mem_append.mp among with later | rest
  · obtain ⟨left, right, parts⟩ := List.append_of_mem later
    have earlier := sorted left other (right ++ id :: before.reverse) (by rw [parts]; simp) id declared
    have inside : id ∈ after.reverse := parts ▸ List.mem_append_left _ earlier
    exact absurd (List.mem_append_left _ inside) alone
  · rcases List.mem_cons.mp rest with rfl | earlier
    · have inside := sorted after.reverse other before.reverse rfl other declared
      exact absurd (List.mem_append_left _ inside) alone
    · exact List.mem_reverse.mp earlier

theorem filter_split {p : String → Bool} {ids before after : List String} {id : String}
    (split : ids.filter p = before ++ id :: after) :
    p id = true ∧ ∃ left right, ids = left ++ id :: right ∧ left.filter p = before := by
  obtain ⟨left, rest, rfl, rfl, tail⟩ := List.filter_eq_append_iff.mp split
  obtain ⟨skipped, right, rfl, unkept, kept, rfl⟩ := List.filter_eq_cons_iff.mp tail
  refine ⟨kept, left ++ skipped, right, by simp, ?_⟩
  rw [List.filter_append, List.filter_eq_nil_iff.mpr unkept, List.append_nil]

section Hook

variable {id : String} {e : Entry} {state : PluginState} {reason : Option String}

theorem started_transition {other : String} :
    (s.transition id e state reason).Started other ↔
      other = id ∧ state = .started ∨ other ≠ id ∧ s.Started other := by
  simp only [State.Started, State.transition, update_eq_some]
  constructor
  · rintro ⟨found, ⟨rfl, rfl⟩ | ⟨differs, there⟩, started⟩
    · exact .inl ⟨rfl, started⟩
    · exact .inr ⟨differs, found, there, started⟩
  · rintro (⟨rfl, rfl⟩ | ⟨differs, found, there, started⟩)
    · exact ⟨_, .inl ⟨rfl, rfl⟩, rfl⟩
    · exact ⟨found, .inr ⟨differs, there⟩, started⟩

theorem started_setRunning {plugin : Nat} {running : Bool} {other : String} :
    (s.setRunning plugin running).Started other ↔ s.Started other := Iff.rfl

theorem depsOf_transition (here : s.entries id = some e) :
    (s.transition id e state reason).depsOf = s.depsOf := by
  funext other
  by_cases same : other = id
  · subst same
    simp [State.depsOf, State.transition, here]
  · simp [State.depsOf, State.transition, Function.update_of_ne same]

theorem Synced.hook (synced : Synced plugins s) (here : s.entries id = some e) :
    Synced plugins ((s.transition id e state reason).setRunning e.plugin (state = .started)) where
  listed other := by
    refine (synced.listed other).trans ?_
    by_cases same : other = id
    · subst same
      simp [State.transition, State.setRunning, here]
    · simp [State.transition, State.setRunning, Function.update_of_ne same]
  distinct := synced.distinct
  named := by
    intro other found there
    rcases update_eq_some.mp there with ⟨rfl, rfl⟩ | ⟨-, before⟩
    · exact synced.named other e here
    · exact synced.named other found before
  running := by
    intro plugin
    have name := synced.named id e here
    by_cases same : plugin = e.plugin
    · subst same
      simp [State.transition, State.setRunning, name]
    · have running : (Function.update s.running e.plugin (decide (state = .started))) plugin =
          s.running plugin := Function.update_of_ne same ..
      show Function.update s.running e.plugin (decide (state = .started)) plugin = true ↔ _
      rw [running, synced.running]
      by_cases own : (plugins plugin).name = id
      · -- another plugin of that name is not the entry's
        constructor
        · rintro ⟨found, there, rfl, -⟩
          rw [own, here] at there
          exact absurd (congrArg Entry.plugin (Option.some.inj there)).symm same
        · rintro ⟨found, there, rfl, -⟩
          rcases update_eq_some.mp there with ⟨-, rfl⟩ | ⟨apart, -⟩
          · exact absurd rfl same
          · exact absurd own apart
      · simp [State.transition, State.setRunning, Function.update_of_ne own]

theorem Synced.failedStart (synced : Synced plugins s) (here : s.entries id = some e)
    (idle : e.descriptor.state ≠ .started) : Synced plugins (s.transition id e .failed reason) := by
  have stays : s.running e.plugin = false := by
    by_contra running
    obtain ⟨found, there, -, started⟩ := (synced.running e.plugin).mp (by simpa using running)
    rw [synced.named id e here, here] at there
    exact idle (Option.some.inj there ▸ started)
  have same : s.transition id e .failed reason =
      (s.transition id e .failed reason).setRunning e.plugin (PluginState.failed = .started) := by
    have idle : Function.update s.running e.plugin false = s.running := by
      rw [← stays, Function.update_eq_self]
    simp [State.setRunning, State.transition, idle]
  rw [same]
  exact synced.hook here

theorem Backed.transition (backed : Backed s)
    (ready : state = .started → ∀ dep ∈ e.descriptor.dependsOn, s.Started dep)
    (free : state ≠ .started → ∀ other found, s.entries other = some found →
      found.descriptor.state = .started → id ∉ found.descriptor.dependsOn) :
    Backed (s.transition id e state reason) := by
  have keeps : ∀ dep, s.Started dep → (dep = id → state = .started) →
      (s.transition id e state reason).Started dep := by
    intro dep started own
    by_cases same : dep = id
    · exact started_transition.mpr (.inl ⟨same, own same⟩)
    · exact started_transition.mpr (.inr ⟨same, started⟩)
  intro other found there started dep declared
  rcases update_eq_some.mp there with ⟨rfl, rfl⟩ | ⟨-, before⟩
  · have led : state = .started := started
    exact keeps dep (ready led dep declared) fun _ => led
  · refine keeps dep (backed other found before started dep declared) ?_
    rintro rfl
    by_contra other_state
    exact free other_state other found before started declared

end Hook

-- The dependencies of each plugin are started, or to be started before it.
theorem runStart_keeps {ids : List String} (synced : Synced plugins s) (backed : Backed s)
    (present : ∀ id ∈ ids, s.entries id ≠ none)
    (sorted : ∀ before id after, ids = before ++ id :: after →
      ∀ dep ∈ s.depsOf id, dep ∈ before ∨ s.Started dep) :
    Synced plugins (State.runStart hooks ids s).2 ∧ Backed (State.runStart hooks ids s).2 := by
  induction ids generalizing s with
  | nil => exact ⟨synced, backed⟩
  | cons id ids ih =>
    obtain ⟨e, here⟩ := Option.ne_none_iff_exists'.mp (present id List.mem_cons_self)
    have first : ∀ dep ∈ e.descriptor.dependsOn, s.Started dep := by
      intro dep declared
      rw [← State.depsOf_eq here] at declared
      exact (sorted [] id ids rfl dep declared).resolve_left List.not_mem_nil
    simp only [State.runStart, here]
    by_cases already : e.descriptor.state = .started
    · rw [if_pos already]
      refine ih synced backed (fun other member => present other (List.mem_cons_of_mem _ member)) ?_
      intro before other after split dep declared
      rcases sorted (id :: before) other after (by rw [split]; rfl) dep declared with earlier | started
      · rcases List.mem_cons.mp earlier with rfl | inside
        · exact .inr ⟨e, here, already⟩
        · exact .inl inside
      · exact .inr started
    · rw [if_neg already]
      cases hooks.start e.plugin with
      | some reason =>
        refine ⟨synced.failedStart here already, backed.transition (fun led => by cases led) ?_⟩
        -- whoever depends on it and is started would have it started
        intro _ other found there started declared
        obtain ⟨own, again, running⟩ := backed other found there started id declared
        obtain rfl := Option.some.inj (here.symm.trans again)
        exact already running
      | none =>
        have next : Backed (s.transition id e .started none) :=
          backed.transition (fun _ => first) fun differs => absurd rfl differs
        refine ih (synced.hook here) next (fun other member => ?_) ?_
        · have before := present other (List.mem_cons_of_mem _ member)
          exact update_ne_none before
        · intro before other after split dep declared
          have declared : dep ∈ s.depsOf other := depsOf_transition here ▸ declared
          by_cases same : dep = id
          · exact .inr (started_transition.mpr (.inl ⟨same, rfl⟩))
          rcases sorted (id :: before) other after (by rw [split]; rfl) dep declared with
            earlier | started
          · exact .inl ((List.mem_cons.mp earlier).resolve_left same)
          · exact .inr (started_transition.mpr (.inr ⟨same, started⟩))

-- The dependents of each plugin are not started, or to be stopped before it.
theorem runStop_keeps {ids : List String} (synced : Synced plugins s) (backed : Backed s)
    (sorted : ∀ before id after, ids = before ++ id :: after → ∀ other e,
      s.entries other = some e → e.descriptor.state = .started → id ∈ e.descriptor.dependsOn →
        other ∈ before) :
    Synced plugins (State.runStop hooks ids s).2 ∧ Backed (State.runStop hooks ids s).2 := by
  induction ids generalizing s with
  | nil => exact ⟨synced, backed⟩
  | cons id ids ih =>
    have first : ∀ other found, s.entries other = some found →
        found.descriptor.state = .started → id ∉ found.descriptor.dependsOn := by
      intro other found there started declared
      exact List.not_mem_nil (sorted [] id ids rfl other found there started declared)
    have later : ∀ s' : State, (∀ other found, s'.entries other = some found →
        found.descriptor.state = .started → other ≠ id ∧ s.entries other = some found) →
        ∀ before other after, ids = before ++ other :: after → ∀ user found,
          s'.entries user = some found → found.descriptor.state = .started →
            other ∈ found.descriptor.dependsOn → user ∈ before := by
      intro s' since before other after split user found there started declared
      obtain ⟨differs, before_there⟩ := since user found there started
      have earlier := sorted (id :: before) other after (by rw [split]; rfl) user found before_there
        started declared
      exact (List.mem_cons.mp earlier).resolve_left differs
    cases here : s.entries id with
    | none =>
      simp only [State.runStop, here]
      refine ih synced backed (later s fun other found there _ => ⟨?_, there⟩)
      rintro rfl
      cases here.symm.trans there
    | some e =>
      simp only [State.runStop, here]
      by_cases idle : e.descriptor.state = .stopped ∨ e.descriptor.state = .loaded
      · rw [if_pos idle]
        refine ih synced backed (later s fun other found there started => ⟨?_, there⟩)
        rintro rfl
        obtain rfl := Option.some.inj (here.symm.trans there)
        rw [started] at idle
        rcases idle with stopped | loaded
        · cases stopped
        · cases loaded
      · rw [if_neg idle]
        cases hooks.stop e.plugin with
        | some reason =>
          exact ⟨synced.hook here, backed.transition (fun led => by cases led) fun _ => first⟩
        | none =>
          have next : Backed (s.transition id e .stopped none) :=
            backed.transition (fun led => by cases led) fun _ => first
          refine ih (synced.hook here) next (later _ fun other found there started => ?_)
          rcases update_eq_some.mp there with ⟨-, rfl⟩ | ⟨differs, before⟩
          · cases started
          · exact ⟨differs, before⟩

theorem runStop_started {ids : List String} {id : String}
    (started : (State.runStop hooks ids s).2.Started id) : s.Started id := by
  induction ids generalizing s with
  | nil => exact started
  | cons first ids ih =>
    cases here : s.entries first with
    | none =>
      simp only [State.runStop, here] at started
      exact ih started
    | some e =>
      simp only [State.runStop, here] at started
      split at started
      · exact ih started
      · cases failed : hooks.stop e.plugin with
        | some reason =>
          simp only [failed] at started
          rcases started_transition.mp started with ⟨-, led⟩ | ⟨-, before⟩
          · cases led
          · exact before
        | none =>
          simp only [failed] at started
          rcases started_transition.mp (started_setRunning.mp (ih started)) with ⟨-, led⟩ | ⟨-, before⟩
          · cases led
          · exact before

def NoneLeft (hooks : Hooks) (s : State) (ids : List String) : Prop :=
  ∀ before id after e, ids = before ++ id :: after → s.entries id = some e →
    (e.descriptor.state = .started ∨ e.descriptor.state = .failed) →
      hooks.stop e.plugin ≠ none → ∀ other ∈ after, ¬ s.Started other

theorem runStop_stops {ids : List String} (distinct : ids.Nodup) (none_left : NoneLeft hooks s ids) :
    ∀ id ∈ ids, ¬ (State.runStop hooks ids s).2.Started id := by
  induction ids generalizing s with
  | nil => exact fun _ absent => absurd absent List.not_mem_nil
  | cons first ids ih =>
    obtain ⟨fresh, distinct⟩ := List.nodup_cons.mp distinct
    have rest : ∀ s' : State, (∀ other, other ≠ first → s'.entries other = s.entries other) →
        NoneLeft hooks s' ids := by
      intro s' same before id after e split here state fails other member started
      have inside : ∀ id ∈ ids, id ≠ first := fun id member => ne_of_mem_of_not_mem member fresh
      rw [same id (inside id (by simp [split]))] at here
      refine none_left (first :: before) id after e (by rw [split]; rfl) here state fails other member ?_
      obtain ⟨found, there, running⟩ := started
      exact ⟨found, same other (inside other (by simp [split, member])) ▸ there, running⟩
    cases here : s.entries first with
    | none =>
      simp only [State.runStop, here]
      intro id member started
      rcases List.mem_cons.mp member with rfl | later
      · obtain ⟨e, there, -⟩ := runStop_started started
        cases here.symm.trans there
      · exact ih distinct (rest s fun _ _ => rfl) id later started
    | some e =>
      simp only [State.runStop, here]
      by_cases idle : e.descriptor.state = .stopped ∨ e.descriptor.state = .loaded
      · rw [if_pos idle]
        intro id member started
        rcases List.mem_cons.mp member with rfl | later
        · obtain ⟨found, there, running⟩ := runStop_started started
          obtain rfl := Option.some.inj (here.symm.trans there)
          simp [running] at idle
        · exact ih distinct (rest s fun _ _ => rfl) id later started
      · rw [if_neg idle]
        cases failed : hooks.stop e.plugin with
        | some reason =>
          intro id member started
          have state : e.descriptor.state = .started ∨ e.descriptor.state = .failed := by
            cases current : e.descriptor.state <;> simp [current] at idle ⊢
          rcases started_transition.mp started with ⟨-, led⟩ | ⟨differs, before⟩
          · cases led
          · have later := (List.mem_cons.mp member).resolve_left differs
            exact none_left [] first ids e rfl here state (by simp [failed]) id later before
        | none =>
          intro id member started
          rcases List.mem_cons.mp member with rfl | later
          · have stopped := started_setRunning.mp (runStop_started started)
            rcases started_transition.mp stopped with ⟨-, led⟩ | ⟨differs, -⟩
            · cases led
            · exact differs rfl
          · refine ih distinct (rest _ fun other differs => ?_) id later started
            exact Function.update_of_ne differs ..

theorem Synced.notRunning (synced : Synced plugins s) (none : ∀ id, ¬ s.Started id) (plugin : Nat) :
    s.running plugin = false := by
  by_contra running
  obtain ⟨e, there, -, started⟩ := (synced.running plugin).mp (by simpa using running)
  exact none _ ⟨e, there, started⟩

theorem Synced.add (synced : Synced plugins s) {plugin : Nat}
    (idle : ¬ s.Started (plugins plugin).name) : Synced plugins (s.add plugins plugin) where
  listed other := by
    by_cases same : other = (plugins plugin).name
    · subst same
      cases here : s.entries (plugins plugin).name with
      | none => simp [State.add, here]
      | some e =>
        have known := (synced.listed (plugins plugin).name).mpr (by simp [here])
        simp [State.add, here, known]
    · have before := synced.listed other
      cases here : s.entries (plugins plugin).name <;>
        simp [State.add, here, same, before]
  distinct := by
    cases here : s.entries (plugins plugin).name with
    | none =>
      have fresh : (plugins plugin).name ∉ s.order := fun known =>
        (synced.listed _).mp known here
      simpa [State.add, here, List.nodup_append] using
        ⟨synced.distinct, fun a member same => fresh (same ▸ member)⟩
    | some e => simpa [State.add, here] using synced.distinct
  named other e there := by
    rcases update_eq_some.mp there with ⟨rfl, rfl⟩ | ⟨-, before⟩
    · rfl
    · exact synced.named other e before
  running other := by
    refine (synced.running other).trans ?_
    by_cases same : (plugins other).name = (plugins plugin).name
    · constructor
      · rintro ⟨e, there, -, started⟩
        exact absurd ⟨e, same ▸ there, started⟩ idle
      · rintro ⟨e, there, -, started⟩
        rcases update_eq_some.mp there with ⟨-, rfl⟩ | ⟨apart, -⟩
        · cases started
        · exact absurd same apart
    · simp [State.add, Function.update_of_ne same]

theorem Backed.add (backed : Backed s) {plugin : Nat} (idle : ¬ s.Started (plugins plugin).name) :
    Backed (s.add plugins plugin) := by
  intro other e there started dep declared
  rcases update_eq_some.mp there with ⟨-, rfl⟩ | ⟨-, before⟩
  · cases started
  · obtain ⟨found, held, running⟩ := backed other e before started dep declared
    refine ⟨found, update_eq_some.mpr (.inr ⟨?_, held⟩), running⟩
    rintro rfl
    exact idle ⟨found, held, running⟩

theorem entries_remove (id other : String) :
    (s.remove id).2.entries other = if other = id then none else s.entries other := by
  cases here : s.entries id with
  | none =>
    simp only [State.remove, here]
    split
    next same => rw [same, here]
    next => rfl
  | some e => simp [State.remove, here, Function.update_apply]

theorem running_remove (synced : Synced plugins s) {id : String} (plugin : Nat) :
    (s.remove id).2.running plugin = if (plugins plugin).name = id then false else s.running plugin := by
  -- under the id only the plugin of its entry can run, and only while it is started
  have alone : (plugins plugin).name = id → s.running plugin = true →
      ∃ e, s.entries id = some e ∧ e.plugin = plugin ∧ e.descriptor.state = .started := by
    rintro rfl running
    exact (synced.running plugin).mp running
  cases here : s.entries id with
  | none =>
    simp only [State.remove, here]
    split
    next own =>
      by_contra running
      obtain ⟨e, there, -⟩ := alone own (by simpa using running)
      cases here.symm.trans there
    next => rfl
  | some e =>
    have name := synced.named id e here
    by_cases started : e.descriptor.state = .started
    · simp only [State.remove, here, if_pos started]
      by_cases same : plugin = e.plugin
      · subst same
        simp [name]
      · rw [Function.update_of_ne same]
        split
        next own =>
          by_contra running
          obtain ⟨found, there, rfl, -⟩ := alone own (by simpa using running)
          exact same (congrArg Entry.plugin (Option.some.inj (here.symm.trans there))).symm
        next => rfl
    · simp only [State.remove, here, if_neg started]
      split
      next own =>
        by_contra running
        obtain ⟨found, there, -, runs⟩ := alone own (by simpa using running)
        obtain rfl := Option.some.inj (here.symm.trans there)
        exact started runs
      next => rfl

theorem Synced.remove (synced : Synced plugins s) (id : String) :
    Synced plugins (s.remove id).2 where
  listed other := by
    rw [entries_remove]
    by_cases same : other = id
    · subst same
      cases here : s.entries other with
      | none => simpa [State.remove, here] using mt (synced.listed other).mp (not_not.mpr here)
      | some e => simp [State.remove, here]
    · rw [if_neg same, ← synced.listed other]
      cases here : s.entries id <;> simp [State.remove, here, same]
  distinct := by
    cases here : s.entries id with
    | none => simpa [State.remove, here] using synced.distinct
    | some e => simpa [State.remove, here] using synced.distinct.filter _
  named other found there := by
    rw [entries_remove] at there
    split at there
    · cases there
    · exact synced.named other found there
  running plugin := by
    rw [running_remove synced, entries_remove]
    split
    · simp
    · exact synced.running plugin

theorem Backed.remove (backed : Backed s) {id : String}
    (free : ∀ other e, other ≠ id → s.entries other = some e → e.descriptor.state = .started →
      id ∉ e.descriptor.dependsOn) : Backed (s.remove id).2 := by
  intro other e there started dep declared
  rw [entries_remove] at there
  split at there
  · cases there
  next differs =>
    obtain ⟨found, held, running⟩ := backed other e there started dep declared
    refine ⟨found, ?_, running⟩
    rw [entries_remove, if_neg, held]
    rintro rfl
    exact free other e differs there started declared

theorem removeEach_keeps (ids : List String) (synced : Synced plugins s) :
    Synced plugins (State.removeEach ids s) ∧
      ∀ id, (State.removeEach ids s).entries id = if id ∈ ids then none else s.entries id := by
  induction ids generalizing s with
  | nil => exact ⟨synced, fun id => by simp [State.removeEach]⟩
  | cons first ids ih =>
    obtain ⟨kept, entries⟩ := ih (synced.remove first)
    refine ⟨kept, fun id => ?_⟩
    have next := entries id
    rw [entries_remove] at next
    by_cases same : id = first
    · subst same
      rw [if_pos List.mem_cons_self]
      exact next.trans (by simp)
    · rw [if_neg same] at next
      exact next.trans (by simp [same])

theorem Synced.sorted (synced : Synced plugins s) {full : List String}
    (resolved : s.fullOrder = .ok full) :
    full.Nodup ∧ (∀ id, id ∈ full ↔ s.entries id ≠ none) ∧ Topological s.depsOf full := by
  obtain ⟨perm, sorted⟩ := synced.fullOrder_ok resolved
  exact ⟨perm.nodup_iff.mpr synced.distinct, fun id => perm.mem_iff.trans (synced.listed id), sorted⟩

theorem startPlugin_keeps (synced : Synced plugins s) (backed : Backed s) (id : String) :
    Synced plugins (s.startPlugin hooks id).2 ∧ Backed (s.startPlugin hooks id).2 := by
  unfold State.startPlugin
  split
  · exact ⟨synced, backed⟩
  · cases resolved : s.fullOrder with
    | error error => exact ⟨synced, backed⟩
    | ok full =>
      obtain ⟨distinct, present, sorted⟩ := synced.sorted resolved
      have reached : ∀ other, other ∈ s.transitiveDeps id ↔ ∃ dep ∈ s.depsOf id,
          Reaches (fun other => (s.depsOf other).reverse) dep other :=
        State.mem_transitiveDeps synced.distinct fun other there => (synced.listed other).mpr there
      refine runStart_keeps synced backed (fun other member => ?_) ?_
      · exact (present other).mp (List.mem_of_mem_filter member)
      · intro before other after split dep declared
        obtain ⟨inside, left, right, whole, rfl⟩ := filter_split split
        refine .inl (List.mem_filter.mpr ⟨sorted left other right whole dep declared, ?_⟩)
        have led : dep ∈ s.transitiveDeps id := by
          rcases List.mem_cons.mp (of_decide_eq_true inside) with rfl | deeper
          · exact (reached dep).mpr ⟨dep, declared, .refl⟩
          · obtain ⟨root, among, path⟩ := (reached other).mp deeper
            exact (reached dep).mpr ⟨root, among, path.tail (List.mem_reverse.mpr declared)⟩
        exact decide_eq_true (List.mem_cons_of_mem _ led)

theorem stopPlugin_keeps (synced : Synced plugins s) (backed : Backed s) (id : String) :
    Synced plugins (s.stopPlugin hooks id).2 ∧ Backed (s.stopPlugin hooks id).2 := by
  unfold State.stopPlugin
  split
  · exact ⟨synced, backed⟩
  · cases resolved : s.fullOrder with
    | error error => exact ⟨synced, backed⟩
    | ok full =>
      obtain ⟨distinct, present, sorted⟩ := synced.sorted resolved
      refine runStop_keeps synced backed fun before other after split user e there _ declared => ?_
      obtain ⟨inside, left, right, whole, rfl⟩ := filter_split split
      have listed : user ∈ full := (present user).mpr (by simp [there])
      refine List.mem_filter.mpr ⟨dependent_before sorted distinct whole listed ?_, ?_⟩
      · rwa [State.depsOf_eq there]
      · have node := State.mem_nodes.mpr ⟨(synced.listed user).mpr (by simp [there]), e, there, rfl⟩
        have met : user ∈ s.transitiveDependents id := by
          rcases List.mem_cons.mp (of_decide_eq_true inside) with rfl | deeper
          · exact State.mem_transitiveDependents node (.inl declared)
          · exact State.mem_transitiveDependents node (.inr ⟨other, declared, deeper⟩)
        exact decide_eq_true (List.mem_cons_of_mem _ met)

theorem Synced.setStarted (synced : Synced plugins s) (started : Bool) :
    Synced plugins { s with started } :=
  ⟨synced.listed, synced.distinct, synced.named, synced.running⟩

theorem startAll_keeps (synced : Synced plugins s) (backed : Backed s) :
    Synced plugins (s.startAll hooks).2 ∧ Backed (s.startAll hooks).2 := by
  unfold State.startAll
  split
  · exact ⟨synced, backed⟩
  · cases resolved : s.fullOrder with
    | error error => exact ⟨synced, backed⟩
    | ok order =>
      obtain ⟨distinct, present, sorted⟩ := synced.sorted resolved
      have kept : Synced plugins (State.runStart hooks order s).2 ∧
          Backed (State.runStart hooks order s).2 := runStart_keeps synced backed
        (fun id member => (present id).mp member)
        fun before id after split dep declared => .inl (sorted before id after split dep declared)
      cases ran : State.runStart hooks order s with
      | mk result after =>
        rw [ran] at kept
        cases result with
        | error error => simpa [ran] using kept
        | ok _ => simpa [ran] using ⟨kept.1.setStarted true, kept.2⟩

theorem stopAll_keeps (synced : Synced plugins s) (backed : Backed s) :
    Synced plugins (s.stopAll hooks).2 ∧ Backed (s.stopAll hooks).2 := by
  unfold State.stopAll
  split
  · cases resolved : s.fullOrder with
    | error error => exact ⟨synced, backed⟩
    | ok order =>
      obtain ⟨distinct, present, sorted⟩ := synced.sorted resolved
      have kept : Synced plugins (State.runStop hooks order.reverse s).2 ∧
          Backed (State.runStop hooks order.reverse s).2 := runStop_keeps synced backed
        fun before id after split other e there _ declared =>
          dependent_before sorted distinct split ((present other).mpr (by simp [there]))
            (by rwa [State.depsOf_eq there])
      cases ran : State.runStop hooks order.reverse s with
      | mk result after =>
        rw [ran] at kept
        cases result with
        | error error => simpa [ran] using kept
        | ok _ => simpa [ran] using ⟨kept.1.setStarted false, kept.2⟩
  · exact ⟨synced, backed⟩

theorem started_stopAll (began : s.started = true) {order : List String} {id : String}
    (resolved : s.fullOrder = .ok order) :
    (s.stopAll hooks).2.Started id ↔ (State.runStop hooks order.reverse s).2.Started id := by
  simp only [State.stopAll, began, if_true, resolved]
  cases ran : State.runStop hooks order.reverse s with
  | mk result after => cases result <;> exact Iff.rfl

theorem stopAll_stops (synced : Synced plugins s)
    (swept : (∀ id, ¬ s.Started id) ∨
      s.started = true ∧ ∃ order, s.fullOrder = .ok order ∧ NoneLeft hooks s order.reverse) (id : String) :
    ¬ (s.stopAll hooks).2.Started id := by
  intro started
  rcases swept with none | ⟨began, order, resolved, left⟩
  · by_cases began : s.started = true
    · cases resolved : s.fullOrder with
      | error error =>
        simp only [State.stopAll, began, if_true, resolved] at started
        exact none id started
      | ok order => exact none id (runStop_started ((started_stopAll began resolved).mp started))
    · simp only [State.stopAll, began] at started
      exact none id started
  · obtain ⟨distinct, present, -⟩ := synced.sorted resolved
    have still := (started_stopAll began resolved).mp started
    obtain ⟨e, here, -⟩ := runStop_started still
    have member : id ∈ order.reverse := List.mem_reverse.mpr ((present id).mpr (by simp [here]))
    exact runStop_stops (List.nodup_reverse.mpr distinct) left id member still

theorem unloadAll_keeps (synced : Synced plugins s) (backed : Backed s) :
    Synced plugins s.unloadAll.2 ∧ Backed s.unloadAll.2 ∧
      ((∀ id, ¬ s.Started id) ∨ (∃ order, s.fullOrder = .ok order) →
        ∀ id, ¬ s.unloadAll.2.Started id) := by
  unfold State.unloadAll
  cases resolved : s.fullOrder with
  | error error =>
    refine ⟨synced, backed, ?_⟩
    rintro (none | ⟨order, impossible⟩)
    · exact none
    · cases impossible
  | ok order =>
    obtain ⟨-, present, -⟩ := synced.sorted resolved
    obtain ⟨kept, entries⟩ := removeEach_keeps order.reverse synced
    have gone : ∀ id, (State.removeEach order.reverse s).entries id = none := by
      intro id
      rw [entries]
      by_cases there : s.entries id = none
      · simp [there]
      · rw [if_pos (List.mem_reverse.mpr ((present id).mpr there))]
    refine ⟨kept.setStarted false, fun id e there => ?_, fun _ id started => ?_⟩
    · cases (gone id).symm.trans there
    · obtain ⟨e, there, -⟩ := started
      cases (gone id).symm.trans there

/-- A plugin is not added over a started one, and not removed under another; and a sweep of all
finds an order, is not kept from its work by the flag, and has no stop hook fail before a started
plugin, unless nothing is started. -/
def Orderly (plugins : Nat → Plugin) (s : State) (choice : Choice) : Prop :=
  match choice.call with
  | .add plugin => ¬ s.Started (plugins plugin).name
  | .remove id => ∀ other e, other ≠ id → s.entries other = some e →
      e.descriptor.state = .started → id ∉ e.descriptor.dependsOn
  | .stopAll => (∀ id, ¬ s.Started id) ∨
      s.started = true ∧ ∃ order, s.fullOrder = .ok order ∧ NoneLeft choice.hooks s order.reverse
  | .unloadAll => (∀ id, ¬ s.Started id) ∨ ∃ order, s.fullOrder = .ok order
  | _ => True

structure Kept (plugins : Nat → Plugin) (s : State) : Prop where
  synced : Synced plugins s
  backed : Backed s
  idle : s.swept = true → ∀ plugin, s.running plugin = false

theorem Kept.consistent (kept : Kept plugins s) : Consistent s where
  dependencies := kept.backed
  managed := by
    intro plugin running
    obtain ⟨e, there, same, -⟩ := (kept.synced.running plugin).mp running
    exact ⟨_, e, there, same⟩
  swept := kept.idle

theorem after_keeps {choice : Choice} (kept : Kept plugins s) (orderly : Orderly plugins s choice) :
    Synced plugins (choice.call.after plugins choice.hooks s) ∧
      Backed (choice.call.after plugins choice.hooks s) ∧
      (choice.call = .stopAll ∨ choice.call = .unloadAll →
        ∀ id, ¬ (choice.call.after plugins choice.hooks s).Started id) := by
  obtain ⟨synced, backed, -⟩ := kept
  obtain ⟨call, hooks⟩ := choice
  cases call with
  | add plugin => exact ⟨synced.add orderly, backed.add orderly, by simp⟩
  | startPlugin id =>
    exact and_assoc.mp ⟨startPlugin_keeps synced backed id, by simp⟩
  | stopPlugin id =>
    exact and_assoc.mp ⟨stopPlugin_keeps synced backed id, by simp⟩
  | startAll =>
    exact and_assoc.mp ⟨startAll_keeps synced backed, by simp⟩
  | stopAll =>
    exact and_assoc.mp ⟨stopAll_keeps synced backed, fun _ => stopAll_stops synced orderly⟩
  | remove id => exact ⟨synced.remove id, backed.remove orderly, by simp⟩
  | unloadAll =>
    obtain ⟨inStep, supported, stops⟩ := unloadAll_keeps synced backed
    exact ⟨inStep, supported, fun _ => stops orderly⟩

theorem Kept.step {choice : Choice} (kept : Kept plugins s) (orderly : Orderly plugins s choice)
    (stepped : Plugins.step plugins s choice = some s') : Kept plugins s' := by
  obtain rfl := Option.some.inj stepped
  obtain ⟨synced, backed, stops⟩ := after_keeps kept orderly
  refine ⟨⟨synced.listed, synced.distinct, synced.named, synced.running⟩, backed, ?_⟩
  intro swept
  exact synced.notRunning (stops (of_decide_eq_true swept))

theorem kept_new : Kept plugins State.new where
  synced := ⟨by simp [State.new], List.nodup_nil, by simp [State.new], by simp [State.new]⟩
  backed := by simp [Backed, State.new]
  idle := fun _ _ => rfl

theorem lifecycle_consistent (plugins : Nat → Plugin) (choices : List Choice)
    (orderly : Along (Plugins.step plugins) (Orderly plugins) State.new choices) :
    Always (Plugins.step plugins) Consistent State.new choices := by
  have always := orderly.always (Kept plugins)
    (fun _ _ _ allowed kept stepped => kept.step allowed stepped) kept_new
  exact always.mono fun _ kept => kept.consistent

def database : Plugin := { name := "db", dependsOn := [] }

def frontend : Plugin := { name := "web", dependsOn := ["db"] }

def site : Nat → Plugin
  | 0 => database
  | _ => frontend

def calls (calls : List Call) : List Choice :=
  calls.map fun call => { call, hooks := { start := fun _ => none, stop := fun _ => none } }

theorem lifecycle_consistent_unloaded : Always (Plugins.step site) Consistent State.new
    (calls [.add 0, .add 1, .startAll, .stopPlugin "db", .unloadAll]) := by
  refine lifecycle_consistent site _ ?_
  refine ⟨fun ⟨_, there, _⟩ => (by cases there), ?_⟩
  rintro _ ⟨⟩
  refine ⟨?_, ?_⟩
  · rintro ⟨_, there, _⟩
    have absent : (State.new.add site 0).entries "web" = none := rfl
    cases absent.symm.trans there
  rintro _ ⟨⟩
  refine ⟨trivial, ?_⟩
  rintro _ ⟨⟩
  refine ⟨trivial, ?_⟩
  rintro _ ⟨⟩
  exact ⟨.inr ⟨_, rfl⟩, fun _ _ => trivial⟩

theorem dependency_removed_under_started_plugin :
    ¬ ∀ (plugins : Nat → Plugin) (choices : List Choice),
      Always (Plugins.step plugins) Consistent State.new choices := by
  intro always
  obtain ⟨s, ran, e, web, started, deps, db⟩ : ∃ s, run (Plugins.step site) State.new
      (calls [.add 0, .add 1, .startAll, .remove "db"]) = some s ∧
      ∃ e, s.entries "web" = some e ∧ e.descriptor.state = .started ∧
        e.descriptor.dependsOn = ["db"] ∧ s.entries "db" = none :=
    ⟨_, rfl, _, rfl, rfl, rfl, rfl⟩
  have consistent := always site _ _ [] (List.append_nil _).symm s ran
  obtain ⟨found, there, -⟩ := consistent.dependencies "web" e web started "db" (by simp [deps])
  cases db.symm.trans there

end Firefly.Plugins
