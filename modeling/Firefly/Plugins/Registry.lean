import Firefly.Plugins.Manager

set_option autoImplicit false

-- Its plugins are told apart by a number, as those of the manager are.

namespace Firefly.Plugins.Registry

open Runs

inductive SweepError where
  | one (error : PluginError)
  | aggregate (errors : List PluginError)
deriving DecidableEq, Repr

inductive Hook where
  | start (plugin : Nat)
  | stop (plugin : Nat)
deriving DecidableEq, Repr

/-- `started` is popped at its end: the last started plugin is the head of the list here. `history`
is no field of the source: what the hooks have done, the last of them first. -/
structure State where
  plugins : List Nat
  started : List Nat
  states : String → Option PluginState
  history : List Hook

namespace State

def new : State where
  plugins := []
  started := []
  states := fun _ => none
  history := []

def setState (s : State) (name : String) (state : PluginState) : State :=
  { s with states := Function.update s.states name (some state) }

variable (plugins : Nat → Plugin) (hooks : Hooks)

def register (s : State) (plugin : Nat) : State :=
  let name := (plugins plugin).name
  let entries :=
    match s.plugins.findIdx? fun existing => (plugins existing).name = name with
    | some i => s.plugins.set i plugin
    | none => s.plugins ++ [plugin]
  { s with plugins := entries }.setState name .loaded

def stopOne (s : State) (plugin : Nat) : State :=
  let s := { s with history := .stop plugin :: s.history }
  match hooks.stop plugin with
  | some _ => s.setState (plugins plugin).name .failed
  | none => s.setState (plugins plugin).name .stopped

def stopErrors (plugin : Nat) : List PluginError :=
  match hooks.stop plugin with
  | some reason => [.stop (plugins plugin).name reason]
  | none => []

def stopLoop : List Nat → State → List PluginError × State
  | [], s => ([], { s with started := [] })
  | plugin :: rest, s =>
    let (errors, after) := stopLoop rest (stopOne plugins hooks { s with started := rest } plugin)
    (stopErrors plugins hooks plugin ++ errors, after)

def stopStarted (s : State) : Option SweepError × State :=
  match stopLoop plugins hooks s.started s with
  | ([], s) => (none, s)
  | ([error], s) => (some (.one error), s)
  | (errors, s) => (some (.aggregate errors), s)

def startLoop : List Nat → State → Except SweepError Unit × State
  | [], s => (.ok (), s)
  | plugin :: rest, s =>
    match hooks.start plugin with
    | some reason =>
      let failure := PluginError.start (plugins plugin).name reason
      match stopStarted plugins hooks (s.setState (plugins plugin).name .failed) with
      | (none, s) => (.error (.one failure), s)
      | (some (.aggregate stops), s) => (.error (.aggregate (failure :: stops)), s)
      | (some (.one stop), s) => (.error (.aggregate [failure, stop]), s)
    | none =>
      let s := s.setState (plugins plugin).name .started
      startLoop rest { s with started := plugin :: s.started, history := .start plugin :: s.history }

def nodes (s : State) : Nodes :=
  s.plugins.map fun plugin => ((plugins plugin).name, (plugins plugin).dependsOn)

def startAll (s : State) : Except SweepError Unit × State :=
  let s := { s with started := [] }
  match topologicalOrder (nodes plugins s) with
  | .error error => (.error (.one (.resolution error)), s)
  | .ok order => startLoop plugins hooks (order.map fun i => s.plugins.get (i.cast (List.length_map ..))) s

def stopAll (s : State) : Except SweepError Unit × State :=
  match stopStarted plugins hooks s with
  | (none, s) => (.ok (), s)
  | (some error, s) => (.error error, s)

end State

inductive Call where
  | register (plugin : Nat)
  | startAll
  | stopAll
deriving DecidableEq, Repr

structure Choice where
  call : Call
  hooks : Hooks

def Call.after (plugins : Nat → Plugin) (hooks : Hooks) (s : State) : Call → State
  | .register plugin => s.register plugins plugin
  | .startAll => (s.startAll plugins hooks).2
  | .stopAll => (s.stopAll plugins hooks).2

def step (plugins : Nat → Plugin) (s : State) (choice : Choice) : Option State :=
  some (choice.call.after plugins choice.hooks s)

def Running (history : List Hook) (plugin : Nat) : Prop :=
  history.count (.stop plugin) < history.count (.start plugin)

instance (history : List Hook) : DecidablePred (Running history) := fun _ =>
  inferInstanceAs (Decidable (_ < _))

def startOrder : List Hook → List Nat
  | [] => []
  | .start plugin :: history => plugin :: (startOrder history).filter (· ≠ plugin)
  | .stop _ :: history => startOrder history

def unstopped (history : List Hook) : List Nat := (startOrder history).filter (Running history ·)

def afterStarts (starts : List Nat) (history : List Hook) : List Hook :=
  (starts.map .start).reverse ++ history

def afterStops (stops : List Nat) (history : List Hook) : List Hook :=
  (stops.map .stop).reverse ++ history

def Right (plugins : Nat → Plugin) (s : State) (choice : Choice) : Prop :=
  match choice.call with
  | .register _ => True
  | .startAll => ∀ error, (s.startAll plugins choice.hooks).1 = .error error → ∃ starts stops,
      (s.startAll plugins choice.hooks).2.history = afterStops stops (afterStarts starts s.history) ∧
      stops.Sublist (unstopped (afterStarts starts s.history)) ∧
      ∀ plugin, Running (s.startAll plugins choice.hooks).2.history plugin → Running s.history plugin
  | .stopAll => ∃ stops, (s.stopAll plugins choice.hooks).2.history = afterStops stops s.history ∧
      stops.filter (Running s.history ·) = unstopped s.history

def Idle (s : State) (choice : Choice) : Prop :=
  choice.call = .startAll → ∀ plugin, ¬ Running s.history plugin

section Histories

variable {history : List Hook} {plugin : Nat} {starts stops : List Nat}

theorem count_start_afterStarts : (afterStarts starts history).count (.start plugin) =
    starts.count plugin + history.count (.start plugin) := by
  have injective : Function.Injective Hook.start := fun _ _ same => Hook.start.inj same
  rw [afterStarts, List.count_append, List.count_reverse, List.count_map_of_injective _ _ injective]

theorem count_stop_afterStarts :
    (afterStarts starts history).count (.stop plugin) = history.count (.stop plugin) := by
  have none : (starts.map Hook.start).reverse.count (.stop plugin) = 0 := by
    simp [List.count_eq_zero]
  rw [afterStarts, List.count_append, none, Nat.zero_add]

theorem count_stop_afterStops : (afterStops stops history).count (.stop plugin) =
    stops.count plugin + history.count (.stop plugin) := by
  have injective : Function.Injective Hook.stop := fun _ _ same => Hook.stop.inj same
  rw [afterStops, List.count_append, List.count_reverse, List.count_map_of_injective _ _ injective]

theorem count_start_afterStops :
    (afterStops stops history).count (.start plugin) = history.count (.start plugin) := by
  have none : (stops.map Hook.stop).reverse.count (.start plugin) = 0 := by
    simp [List.count_eq_zero]
  rw [afterStops, List.count_append, none, Nat.zero_add]

theorem mem_startOrder : plugin ∈ startOrder history ↔ Hook.start plugin ∈ history := by
  induction history with
  | nil => simp [startOrder]
  | cons hook history ih =>
    cases hook with
    | start other =>
      by_cases same : plugin = other
      · simp [startOrder, same]
      · simp [startOrder, same, ih]
    | stop other => simp [startOrder, ih]

theorem mem_unstopped : plugin ∈ unstopped history ↔ Running history plugin := by
  simp only [unstopped, List.mem_filter, decide_eq_true_eq, and_iff_right_iff_imp]
  intro running
  exact mem_startOrder.mpr (List.count_pos_iff.mp (Nat.zero_lt_of_lt running))

theorem unstopped_eq_nil (idle : ∀ plugin, ¬ Running history plugin) : unstopped history = [] :=
  List.eq_nil_iff_forall_not_mem.mpr fun plugin among => idle plugin (mem_unstopped.mp among)

theorem startOrder_afterStarts (distinct : starts.Nodup) : startOrder (afterStarts starts history) =
    starts.reverse ++ (startOrder history).filter (· ∉ starts) := by
  induction starts using List.reverseRecOn with
  | nil => simp [afterStarts]
  | append_singleton starts last ih =>
    obtain ⟨fresh, distinct⟩ := List.nodup_cons.mp (List.nodup_append_comm.mp distinct)
    have step : afterStarts (starts ++ [last]) history = .start last :: afterStarts starts history := by
      simp [afterStarts]
    have kept : starts.reverse.filter (· ≠ last) = starts.reverse :=
      List.filter_eq_self.mpr fun other among => by
        simpa using fun same : other = last => fresh (same ▸ List.mem_reverse.mp among)
    rw [step, startOrder, ih distinct, List.filter_append, kept, List.filter_filter]
    simp [and_comm]

end Histories

section Sweeps

variable {plugins : Nat → Plugin} {hooks : Hooks} {s s' : State} {choice : Choice} {plugin : Nat}

variable (plugins hooks) in
theorem stopLoop_spec (started : List Nat) (s : State) :
    (State.stopLoop plugins hooks started s).2.started = [] ∧
      (State.stopLoop plugins hooks started s).2.plugins = s.plugins ∧
      (State.stopLoop plugins hooks started s).2.history = afterStops started s.history := by
  induction started generalizing s with
  | nil => exact ⟨rfl, rfl, rfl⟩
  | cons plugin rest ih =>
    obtain ⟨none, same, later⟩ := ih (State.stopOne plugins hooks { s with started := rest } plugin)
    have kept : (State.stopOne plugins hooks { s with started := rest } plugin).plugins = s.plugins := by
      unfold State.stopOne
      cases hooks.stop plugin <;> rfl
    have called : (State.stopOne plugins hooks { s with started := rest } plugin).history =
        .stop plugin :: s.history := by
      unfold State.stopOne
      cases hooks.stop plugin <;> rfl
    refine ⟨none, same.trans kept, later.trans ?_⟩
    rw [called]
    simp [afterStops]

variable (plugins hooks) in
theorem stopStarted_spec (s : State) : (State.stopStarted plugins hooks s).2.started = [] ∧
    (State.stopStarted plugins hooks s).2.plugins = s.plugins ∧
    (State.stopStarted plugins hooks s).2.history = afterStops s.started s.history := by
  have swept := stopLoop_spec plugins hooks s.started s
  unfold State.stopStarted
  split
  · rename_i looped
    rwa [looped] at swept
  · rename_i looped
    rwa [looped] at swept
  · rename_i looped
    rwa [looped] at swept

variable (plugins hooks) in
theorem stopAll_spec (s : State) : (s.stopAll plugins hooks).2.started = [] ∧
    (s.stopAll plugins hooks).2.plugins = s.plugins ∧
    (s.stopAll plugins hooks).2.history = afterStops s.started s.history := by
  have swept := stopStarted_spec plugins hooks s
  unfold State.stopAll
  split
  · rename_i stopped
    rwa [stopped] at swept
  · rename_i stopped
    rwa [stopped] at swept

inductive Swept (s : State) (starts : List Nat) : Except SweepError Unit × State → Prop
  | ok {after : State} : after.started = starts.reverse ++ s.started → after.plugins = s.plugins →
      after.history = afterStarts starts s.history → Swept s starts (.ok (), after)
  | error {error : SweepError} {after : State} : after.started = [] → after.plugins = s.plugins →
      after.history = afterStops (starts.reverse ++ s.started) (afterStarts starts s.history) →
      Swept s starts (.error error, after)

theorem Swept.same_plugins {outcome : Except SweepError Unit × State} {starts : List Nat}
    (swept : Swept s starts outcome) : outcome.2.plugins = s.plugins := by
  cases swept with
  | ok _ kept _ => exact kept
  | error _ kept _ => exact kept

theorem Swept.cons {outcome : Except SweepError Unit × State} {starts : List Nat} {next : State}
    (swept : Swept next starts outcome) (started : next.started = plugin :: s.started)
    (same : next.plugins = s.plugins) (history : next.history = .start plugin :: s.history) :
    Swept s (plugin :: starts) outcome := by
  have starting : afterStarts starts next.history = afterStarts (plugin :: starts) s.history := by
    simp [afterStarts, history]
  have order : starts.reverse ++ next.started = (plugin :: starts).reverse ++ s.started := by
    simp [started]
  cases swept with
  | ok running kept called => exact .ok (running.trans order) (kept.trans same) (called.trans starting)
  | error none kept called =>
    refine .error none (kept.trans same) (called.trans ?_)
    rw [order, starting]

variable (plugins hooks) in
theorem startLoop_swept (order : List Nat) (s : State) :
    ∃ starts rest, order = starts ++ rest ∧ Swept s starts (State.startLoop plugins hooks order s) := by
  induction order generalizing s with
  | nil => exact ⟨[], [], rfl, .ok rfl rfl rfl⟩
  | cons plugin order ih =>
    cases failed : hooks.start plugin with
    | some reason =>
      refine ⟨[], plugin :: order, rfl, ?_⟩
      obtain ⟨none, kept, called⟩ := stopStarted_spec plugins hooks
        (s.setState (plugins plugin).name .failed)
      rw [State.startLoop, failed]
      simp only
      split
      · rename_i stopped
        rw [stopped] at none kept called
        exact .error none kept called
      · rename_i stopped
        rw [stopped] at none kept called
        exact .error none kept called
      · rename_i stopped
        rw [stopped] at none kept called
        exact .error none kept called
    | none =>
      let next := s.setState (plugins plugin).name .started
      obtain ⟨starts, rest, rfl, swept⟩ := ih
        { next with started := plugin :: s.started, history := .start plugin :: s.history }
      refine ⟨plugin :: starts, rest, rfl, ?_⟩
      rw [State.startLoop, failed]
      exact swept.cons rfl rfl rfl

def Named (plugins : Nat → Plugin) (s : State) : Prop :=
  (s.plugins.map fun plugin => (plugins plugin).name).Nodup

theorem Named.congr (named : Named plugins s) (same : s'.plugins = s.plugins) : Named plugins s' := by
  rw [Named, same]
  exact named

variable (hooks) in
theorem startAll_swept (named : Named plugins s) : ∃ starts, starts.Nodup ∧
    Swept { s with started := [] } starts (s.startAll plugins hooks) := by
  have distinct : s.plugins.Nodup := named.of_map
  unfold State.startAll
  simp only
  split
  · exact ⟨[], List.nodup_nil, .error rfl rfl rfl⟩
  · rename_i order resolved
    obtain ⟨starts, rest, split, swept⟩ := startLoop_swept plugins hooks
      (order.map fun i => s.plugins.get (i.cast (List.length_map ..))) { s with started := [] }
    refine ⟨starts, ?_, swept⟩
    have sorted : order.Nodup :=
      (topologicalOrder_ok resolved).1.nodup_iff.mpr (List.nodup_finRange _)
    have snapshot : (order.map fun i => s.plugins.get (i.cast (List.length_map ..))).Nodup :=
      sorted.map fun i j same => Fin.cast_injective _ (List.nodup_iff_injective_get.mp distinct same)
    rw [split] at snapshot
    exact snapshot.of_append_left

theorem named_register (named : Named plugins s) : Named plugins (s.register plugins plugin) := by
  have entries : ((s.register plugins plugin).plugins.map fun p => (plugins p).name) =
      if ∃ existing ∈ s.plugins, (plugins existing).name = (plugins plugin).name then
        s.plugins.map fun p => (plugins p).name
      else (s.plugins.map fun p => (plugins p).name) ++ [(plugins plugin).name] := by
    unfold State.register State.setState
    simp only
    split
    · rename_i i found
      obtain ⟨within, same, -⟩ := List.findIdx?_eq_some_iff_getElem.mp found
      have same : (plugins s.plugins[i]).name = (plugins plugin).name := of_decide_eq_true same
      have slot : i < (s.plugins.map fun p => (plugins p).name).length := by simpa using within
      have kept : (s.plugins.map fun p => (plugins p).name).set i
          ((s.plugins.map fun p => (plugins p).name).get ⟨i, slot⟩) =
            s.plugins.map fun p => (plugins p).name := List.set_getElem_self slot
      rw [List.get_eq_getElem, List.getElem_map, same] at kept
      rw [if_pos ⟨_, List.getElem_mem within, same⟩, List.map_set, kept]
    · rename_i absent
      rw [if_neg, List.map_append]
      · rfl
      · rintro ⟨existing, among, same⟩
        simpa [same] using List.findIdx?_eq_none_iff.mp absent existing among
  rw [Named, entries]
  split
  · exact named
  · rename_i fresh
    rw [List.nodup_append_comm, List.singleton_append, List.nodup_cons]
    refine ⟨fun among => fresh ?_, named⟩
    simpa using among

end Sweeps

structure Settled (plugins : Nat → Plugin) (s : State) : Prop where
  named : Named plugins s
  ordered : s.started = unstopped s.history
  counted : ∀ plugin, s.history.count (.start plugin) = s.started.count plugin + s.history.count (.stop plugin)

def Forgotten (s : State) (plugin : Nat) : Prop :=
  s.started.count plugin + s.history.count (.stop plugin) < s.history.count (.start plugin)

section Runs

variable {plugins : Nat → Plugin} {hooks : Hooks} {s s' : State} {choice : Choice} {plugin : Nat}
  {starts : List Nat} {outcome : Except SweepError Unit × State}

theorem unstopped_afterStarts (settled : Settled plugins s) (distinct : starts.Nodup) :
    unstopped (afterStarts starts s.history) = starts.reverse ++
      (s.started.filter (· ∉ starts)) := by
  rw [unstopped, startOrder_afterStarts distinct, List.filter_append, settled.ordered, unstopped]
  congr 1
  · refine List.filter_eq_self.mpr fun plugin among => ?_
    have among : 0 < starts.count plugin := List.count_pos_iff.mpr (List.mem_reverse.mp among)
    have counted := settled.counted plugin
    simp only [Running, count_start_afterStarts, count_stop_afterStarts, decide_eq_true_eq]
    omega
  · rw [List.filter_filter, List.filter_filter]
    refine List.filter_congr fun plugin _ => ?_
    by_cases fresh : plugin ∈ starts
    · simp [fresh]
    · have same : Running (afterStarts starts s.history) plugin ↔ Running s.history plugin := by
        rw [Running, count_start_afterStarts, count_stop_afterStarts, List.count_eq_zero.mpr fresh,
          Nat.zero_add]
        rfl
      simp [fresh, same]

theorem Settled.of_stops {stops : List Nat} {history : List Hook} (named : Named plugins s)
    (none : s.started = []) (called : s.history = afterStops stops history)
    (counted : ∀ plugin, history.count (.start plugin) = stops.count plugin + history.count (.stop plugin)) :
    Settled plugins s := by
  have balanced : ∀ plugin, s.history.count (.start plugin) = s.history.count (.stop plugin) := by
    intro plugin
    rw [called, count_start_afterStops, count_stop_afterStops, counted]
  refine ⟨named, ?_, fun plugin => ?_⟩
  · rw [none, unstopped_eq_nil]
    intro plugin running
    exact absurd (balanced plugin) (Nat.ne_of_gt running)
  · rw [none, balanced, List.count_nil, Nat.zero_add]

theorem Settled.right (settled : Settled plugins s) (choice : Choice) : Right plugins s choice := by
  unfold Right
  split
  · trivial
  · intro error failed
    obtain ⟨starts, distinct, swept⟩ := startAll_swept choice.hooks settled.named
    generalize s.startAll plugins choice.hooks = outcome at *
    cases swept with
    | ok => cases failed
    | error none kept called =>
      rw [List.append_nil] at called
      refine ⟨starts, starts.reverse, called, ?_, fun plugin running => ?_⟩
      · rw [unstopped_afterStarts settled distinct]
        exact List.sublist_append_left ..
      · simp only [called, Running, count_start_afterStops, count_stop_afterStops, count_start_afterStarts,
          count_stop_afterStarts, List.count_reverse] at running ⊢
        omega
  · obtain ⟨-, -, called⟩ := stopAll_spec plugins choice.hooks s
    refine ⟨s.started, called, ?_⟩
    rw [settled.ordered]
    exact List.filter_eq_self.mpr fun plugin among => decide_eq_true (mem_unstopped.mp among)

theorem Settled.step (settled : Settled plugins s) (idle : Idle s choice) :
    Settled plugins (choice.call.after plugins choice.hooks s) := by
  obtain ⟨call, hooks⟩ := choice
  cases call with
  | register plugin => exact ⟨named_register settled.named, settled.ordered, settled.counted⟩
  | startAll =>
    have none : s.started = [] := settled.ordered.trans (unstopped_eq_nil (idle rfl))
    obtain ⟨starts, distinct, swept⟩ := startAll_swept hooks settled.named
    have counted : ∀ plugin, (afterStarts starts s.history).count (.start plugin) =
        starts.reverse.count plugin + (afterStarts starts s.history).count (.stop plugin) := by
      intro plugin
      rw [count_start_afterStarts, count_stop_afterStarts, settled.counted, none, List.count_nil,
        Nat.zero_add, List.count_reverse]
    simp only [Call.after]
    generalize s.startAll plugins hooks = outcome at *
    cases swept with
    | ok running kept called =>
      rw [List.append_nil] at running
      refine ⟨settled.named.congr kept, ?_, fun plugin => ?_⟩
      · rw [called, running, unstopped_afterStarts settled distinct, none]
        simp
      · rw [called, running]
        exact counted plugin
    | error gone kept called =>
      rw [List.append_nil] at called
      exact Settled.of_stops (settled.named.congr kept) gone called counted
  | stopAll =>
    obtain ⟨gone, kept, called⟩ := stopAll_spec plugins hooks s
    exact Settled.of_stops (settled.named.congr kept) gone called settled.counted

theorem Swept.forgotten {starts : List Nat} {outcome : Except SweepError Unit × State}
    (swept : Swept s starts outcome) (forgotten : Forgotten s plugin) : Forgotten outcome.2 plugin := by
  unfold Forgotten at *
  cases swept with
  | ok running kept called =>
    rw [running, called, count_start_afterStarts, count_stop_afterStarts, List.count_append,
      List.count_reverse]
    omega
  | error none kept called =>
    rw [none, called, count_start_afterStops, count_stop_afterStops, count_start_afterStarts,
      count_stop_afterStarts, List.count_append, List.count_reverse, List.count_nil]
    omega

theorem Forgotten.step (forgotten : Forgotten s plugin) (named : Named plugins s) (choice : Choice) :
    Forgotten (choice.call.after plugins choice.hooks s) plugin ∧
      Named plugins (choice.call.after plugins choice.hooks s) := by
  obtain ⟨call, hooks⟩ := choice
  cases call with
  | register plugin => exact ⟨forgotten, named_register named⟩
  | startAll =>
    obtain ⟨starts, -, swept⟩ := startAll_swept hooks named
    have dropped : Forgotten { s with started := [] } plugin := by
      unfold Forgotten at *
      simp only [List.count_nil]
      omega
    exact ⟨swept.forgotten dropped, named.congr swept.same_plugins⟩
  | stopAll =>
    obtain ⟨none, kept, called⟩ := stopAll_spec plugins hooks s
    refine ⟨?_, named.congr kept⟩
    unfold Forgotten at *
    simp only [Call.after, none, called, count_start_afterStops, count_stop_afterStops, List.count_nil]
    omega

theorem Forgotten.not_right (forgotten : Forgotten s plugin) (none : s.started = []) :
    ¬ Right plugins s ⟨.stopAll, hooks⟩ := by
  rintro ⟨stops, called, exact⟩
  obtain ⟨-, -, nothing⟩ := stopAll_spec plugins hooks s
  have empty : stops = [] := by
    have size := congrArg List.length (called.symm.trans nothing)
    rw [none] at size
    simpa [afterStops] using size
  have running : plugin ∈ unstopped s.history := by
    rw [mem_unstopped]
    unfold Forgotten at forgotten
    unfold Running
    omega
  rw [← exact, empty] at running
  exact absurd running List.not_mem_nil

theorem Forgotten.wrong (forgotten : Forgotten s plugin) (named : Named plugins s) (choices : List Choice)
    (first last : Hooks) : ¬ Along (Registry.step plugins) (Right plugins) s
      (choices ++ [⟨.stopAll, first⟩, ⟨.stopAll, last⟩]) := by
  induction choices generalizing s with
  | nil =>
    rintro ⟨-, later⟩
    obtain ⟨none, -, -⟩ := stopAll_spec plugins first s
    exact (forgotten.step named ⟨.stopAll, first⟩).1.not_right none (later _ rfl).1
  | cons choice choices ih =>
    rintro ⟨-, later⟩
    obtain ⟨kept, still⟩ := forgotten.step named choice
    exact ih kept still (later _ rfl)

theorem settled_new : Settled plugins State.new where
  named := List.nodup_nil
  ordered := rfl
  counted := fun _ => rfl

theorem Settled.along_right (settled : Settled plugins s) {choices : List Choice}
    (idle : Along (Registry.step plugins) Idle s choices) :
    Along (Registry.step plugins) (Right plugins) s choices := by
  induction choices generalizing s with
  | nil => trivial
  | cons choice choices ih =>
    refine ⟨settled.right choice, ?_⟩
    rintro _ ⟨⟩
    exact ih (settled.step idle.1) (idle.2 _ rfl)

theorem Settled.along_idle (settled : Settled plugins s) {choices : List Choice} {first last : Hooks}
    (right : Along (Registry.step plugins) (Right plugins) s
      (choices ++ [⟨.stopAll, first⟩, ⟨.stopAll, last⟩])) :
    Along (Registry.step plugins) Idle s choices := by
  induction choices generalizing s with
  | nil => trivial
  | cons choice choices ih =>
    obtain ⟨-, later⟩ := right
    have idle : Idle s choice := by
      intro called plugin running
      have dropped : Forgotten { s with started := [] } plugin := by
        simpa [Forgotten, Running] using running
      obtain ⟨starts, -, swept⟩ := startAll_swept choice.hooks settled.named
      have after : choice.call.after plugins choice.hooks s = (s.startAll plugins choice.hooks).2 := by
        rw [called]
        rfl
      refine Forgotten.wrong (?_ : Forgotten _ plugin) ?_ choices first last (later _ rfl)
      · rw [after]
        exact swept.forgotten dropped
      · rw [after]
        exact settled.named.congr swept.same_plugins
    refine ⟨idle, ?_⟩
    rintro _ ⟨⟩
    exact ih (settled.step idle) (later _ rfl)

end Runs

theorem started_stopped_exactly (plugins : Nat → Plugin) (choices : List Choice) (first last : Hooks) :
    (Along (Registry.step plugins) Idle State.new choices →
      Along (Registry.step plugins) (Right plugins) State.new choices) ∧
    (Along (Registry.step plugins) (Right plugins) State.new
      (choices ++ [⟨.stopAll, first⟩, ⟨.stopAll, last⟩]) ↔
        Along (Registry.step plugins) Idle State.new choices) := by
  refine ⟨settled_new.along_right, settled_new.along_idle, fun idle => settled_new.along_right ?_⟩
  exact along_append.mpr ⟨idle, fun next _ => along_of_forall (by simp [Idle]) next⟩

def shop : Nat → Plugin
  | 0 => { name := "db", dependsOn := [] }
  | _ => { name := "web", dependsOn := ["cache"] }

def working (call : Call) : Choice :=
  { call, hooks := { start := fun _ => none, stop := fun _ => none } }

theorem failed_resolution_forgets : ¬ ∀ (plugins : Nat → Plugin) (choices : List Choice),
    Along (Registry.step plugins) (Right plugins) State.new choices := by
  intro right
  obtain ⟨-, right⟩ := right shop
    ([.register 0, .startAll, .register 1, .startAll, .stopAll].map working)
  obtain ⟨-, right⟩ := right _ rfl
  obtain ⟨-, right⟩ := right _ rfl
  obtain ⟨-, right⟩ := right _ rfl
  obtain ⟨stops, -⟩ := right _ rfl
  exact Forgotten.not_right (show Forgotten _ 0 by unfold Forgotten; decide) rfl stops

end Firefly.Plugins.Registry
