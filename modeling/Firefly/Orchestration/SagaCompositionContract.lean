import Firefly.Orchestration.SagaLayers

set_option autoImplicit false

namespace Firefly.Orchestration

open Json

namespace Compositing

def undoOf (run : Compositing) (name : String) : Option (StepContext → Except BoxError Unit) :=
  run.compositor.sagas[name]?.bind Registered.undo

structure RollsBack (run : Compositing) (execution : Execution) : Prop where
  once : ∀ one ∈ execution.finished, one.completed → (run.undoOf one.saga).isSome →
    (execution.undone.map Undone.saga).count one.saga = 1
  reversed : (execution.undone.map Undone.saga).Sublist execution.ctx.completedSagas.reverse
  called : ∀ undone ∈ execution.undone,
    (run.undoOf undone.saga).map (· undone.ctx) = some undone.result
  context : ∀ undone ∈ execution.undone, ∃ one ∈ execution.finished, one.saga = undone.saga ∧
    ∀ step : String, undone.ctx.results[step]? = one.stepResults[step]?
  spared : ∀ one ∈ execution.finished, one.completed = false →
    one.saga ∉ execution.undone.map Undone.saga

def ListsCompleted (execution : Execution) : Prop :=
  ∀ name, name ∈ execution.ctx.completedSagas ↔
    ∃ one ∈ execution.finished, one.saga = name ∧ one.completed

structure Contract (run : Compositing) (execution : Execution) : Prop where
  rollback : execution.ctx.error.isSome → run.RollsBack execution
  listed : ListsCompleted execution

def layerRuns (run : Compositing) (stepResults : Std.TreeMap String (Std.TreeMap String Value))
    (layer : List String) : List Finished :=
  layer.map fun name => run.runSaga name (run.inputOf stepResults name)

def addResults (stepResults : Std.TreeMap String (Std.TreeMap String Value))
    (results : List Finished) : Std.TreeMap String (Std.TreeMap String Value) :=
  results.foldl (fun map one => map.insert one.saga one.stepResults) stepResults

def AllComplete (run : Compositing) :
    Std.TreeMap String (Std.TreeMap String Value) → List (List String) → Prop
  | _, [] => True
  | stepResults, layer :: rest =>
    (∀ one ∈ run.layerRuns stepResults layer, one.completed) ∧
      run.AllComplete (addResults stepResults (run.layerRuns stepResults layer)) rest

def NoneLost (run : Compositing) :
    Std.TreeMap String (Std.TreeMap String Value) → List (List String) → Prop
  | _, [] => True
  | stepResults, layer :: rest =>
    if (run.layerRuns stepResults layer).all Finished.completed then
      run.NoneLost (addResults stepResults (run.layerRuns stepResults layer)) rest
    else
      ∀ one ∈ (run.layerRuns stepResults layer).dropWhile Finished.completed, one.completed →
        run.undoOf one.saga = none

def layers (run : Compositing) : List (List String) :=
  match computeLayers run.composition.deps with
  | .ok layers => layers
  | .error () => []

theorem layers_nodup (run : Compositing) : run.layers.flatten.Nodup := by
  rw [layers]
  split
  · rename_i layers ok
    exact (computeLayers_flatten ok).nodup_iff.mpr (nodup_keys _)
  · simp

structure Recorded (ctx : CompositionContext) (recorded : List Finished) : Prop where
  distinct : (recorded.map Finished.saga).Nodup
  names : ctx.completedSagas = recorded.map Finished.saga
  outcomes : ∀ one ∈ recorded, ctx.sagaResults[one.saga]? = some one.outcome
  results : ∀ one ∈ recorded, ctx.sagaStepResults[one.saga]? = some one.stepResults

theorem Recorded.record {ctx : CompositionContext} {recorded : List Finished} {one : Finished}
    (holds : Recorded ctx recorded) (fresh : one.saga ∉ recorded.map Finished.saga) :
    Recorded (record ctx one) (recorded ++ [one]) := by
  have others : ∀ other ∈ recorded, one.saga ≠ other.saga := fun other member same =>
    fresh (same ▸ List.mem_map_of_mem member)
  refine ⟨?_, by simp [Compositing.record, holds.names], ?_, ?_⟩
  · rw [List.map_append, List.nodup_append]
    refine ⟨holds.distinct, by simp, ?_⟩
    rintro a before b now rfl
    obtain rfl : a = one.saga := by simpa using now
    exact fresh before
  · intro other member
    rcases List.mem_append.mp member with before | now
    · simp [Compositing.record, Std.TreeMap.getElem?_insert, others other before,
        holds.outcomes other before]
    · simp [Compositing.record, List.mem_singleton.mp now]
  · intro other member
    rcases List.mem_append.mp member with before | now
    · simp [Compositing.record, Std.TreeMap.getElem?_insert, others other before,
        holds.results other before]
    · simp [Compositing.record, List.mem_singleton.mp now]

theorem Recorded.records {results : List Finished} {ctx : CompositionContext}
    {recorded : List Finished} (holds : Recorded ctx recorded)
    (distinct : ((recorded ++ results).map Finished.saga).Nodup) :
    Recorded (results.foldl Compositing.record ctx) (recorded ++ results) := by
  induction results generalizing ctx recorded with
  | nil => simpa using holds
  | cons one results ih =>
    have fresh : one.saga ∉ recorded.map Finished.saga := by
      intro member
      simp only [List.map_append, List.map_cons, List.nodup_append, List.mem_cons] at distinct
      exact distinct.2.2 _ member _ (.inl rfl) rfl
    have next := ih (holds.record fresh) (by simpa using distinct)
    simpa using next

theorem record_error (ctx : CompositionContext) (results : List Finished) :
    (results.foldl record ctx).error = ctx.error := by
  induction results generalizing ctx with
  | nil => rfl
  | cons one results ih => rw [List.foldl_cons, ih, record]

theorem record_stepResults (ctx : CompositionContext) (results : List Finished) :
    (results.foldl record ctx).sagaStepResults = addResults ctx.sagaStepResults results := by
  induction results generalizing ctx with
  | nil => rfl
  | cons one results ih =>
    rw [List.foldl_cons, ih]
    rfl

theorem inspect_all (run : Compositing) {results : List Finished} (ctx : CompositionContext)
    (completed : ∀ one ∈ results, one.completed) :
    run.inspect results ctx = results.foldl record ctx := by
  induction results generalizing ctx with
  | nil => rfl
  | cons one results ih =>
    rw [inspect, if_pos (completed one (by simp)), ih _ fun other member =>
      completed other (by simp [member])]
    rfl

theorem inspect_failed (run : Compositing) {good : List Finished} {bad : Finished}
    (lost : List Finished) (ctx : CompositionContext) (completed : ∀ one ∈ good, one.completed)
    (failed : bad.completed = false) :
    run.inspect (good ++ bad :: lost) ctx =
      { (good ++ [bad]).foldl record ctx with error := some (run.failureMessage bad) } := by
  induction good generalizing ctx with
  | nil => simp [inspect, failed]
  | cons one good ih =>
    rw [List.cons_append, inspect, if_pos (completed one (by simp)), ih _ fun other member =>
      completed other (by simp [member])]
    rfl

theorem layerRuns_names (run : Compositing)
    (stepResults : Std.TreeMap String (Std.TreeMap String Value)) (layer : List String) :
    (run.layerRuns stepResults layer).map Finished.saga = layer := by
  have name : ∀ name input, (run.runSaga name input).saga = name := by
    intro name input
    rw [runSaga]
    split <;> rfl
  simp [layerRuns, Function.comp_def, name]

theorem Recorded.withInputs {ctx : CompositionContext} {recorded : List Finished}
    (holds : Recorded ctx recorded) (inputs : Std.TreeMap String Value) :
    Recorded { ctx with sagaInputs := inputs } recorded :=
  ⟨holds.distinct, holds.names, holds.outcomes, holds.results⟩

theorem Recorded.withError {ctx : CompositionContext} {recorded : List Finished}
    (holds : Recorded ctx recorded) (error : Option String) :
    Recorded { ctx with error := error } recorded :=
  ⟨holds.distinct, holds.names, holds.outcomes, holds.results⟩

theorem runLayers_cons (run : Compositing) (layer : List String) (rest : List (List String))
    (ctx : CompositionContext) (finished : List Finished) :
    ∃ start : CompositionContext, start.sagaStepResults = ctx.sagaStepResults ∧
      start.error = ctx.error ∧
      (∀ recorded, Recorded ctx recorded → Recorded start recorded) ∧
      run.runLayers (layer :: rest) ctx finished =
        let results := run.layerRuns ctx.sagaStepResults layer
        let next := run.inspect results start
        if next.error.isSome then (next, finished ++ results)
        else run.runLayers rest next (finished ++ results) := by
  rw [runLayers]
  simp only [List.map_map, Function.comp_def]
  let inputs := layer.map fun name => (name, run.inputOf ctx.sagaStepResults name)
  refine ⟨{ ctx with
    sagaInputs := inputs.foldl (fun map input => map.insert input.1 input.2) ctx.sagaInputs },
    rfl, rfl, fun recorded holds => holds.withInputs _, rfl⟩

structure Ended (run : Compositing) (stepResults : Std.TreeMap String (Std.TreeMap String Value))
    (layers : List (List String)) (ctx : CompositionContext) (finished : List Finished) : Prop where
  clean : ctx.error = none → Recorded ctx finished ∧ (∀ one ∈ finished, one.completed) ∧
    run.AllComplete stepResults layers ∧ run.NoneLost stepResults layers
  broken : ctx.error.isSome → ∃ good bad lost, finished = good ++ bad :: lost ∧
    Recorded ctx (good ++ [bad]) ∧ (∀ one ∈ good, one.completed) ∧ bad.completed = false ∧
    ¬ run.AllComplete stepResults layers ∧
    (run.NoneLost stepResults layers ↔ ∀ one ∈ lost, one.completed → run.undoOf one.saga = none)
  distinct : (finished.map Finished.saga).Nodup

theorem exists_first_failure {results : List Finished}
    (failed : ¬ ∀ one ∈ results, one.completed) :
    ∃ good bad lost, results = good ++ bad :: lost ∧ (∀ one ∈ good, one.completed) ∧
      bad.completed = false ∧ results.dropWhile Finished.completed = bad :: lost := by
  induction results with
  | nil => simp at failed
  | cons one results ih =>
    cases completes : one.completed with
    | false => exact ⟨[], one, results, rfl, by simp, completes, by simp [completes]⟩
    | true =>
      have later : ¬ ∀ other ∈ results, other.completed := fun all =>
        failed (by simpa [completes] using all)
      obtain ⟨good, bad, lost, rfl, before, bad_failed, dropped⟩ := ih later
      exact ⟨one :: good, bad, lost, rfl, by simpa [completes] using before, bad_failed,
        by simpa [completes] using dropped⟩

theorem runLayers_ended (run : Compositing) (layers : List (List String))
    (ctx : CompositionContext) (finished : List Finished) (recorded : Recorded ctx finished)
    (completed : ∀ one ∈ finished, one.completed) (noError : ctx.error = none)
    (distinct : (finished.map Finished.saga ++ layers.flatten).Nodup) :
    run.Ended ctx.sagaStepResults layers (run.runLayers layers ctx finished).1
      (run.runLayers layers ctx finished).2 := by
  induction layers generalizing ctx finished with
  | nil =>
    refine ⟨fun _ => ⟨recorded, completed, trivial, trivial⟩, ?_, recorded.distinct⟩
    simp [runLayers, noError]
  | cons layer rest ih =>
    obtain ⟨start, sameResults, sameError, keeps, unrolled⟩ :=
      run.runLayers_cons layer rest ctx finished
    rw [unrolled]
    have names := run.layerRuns_names ctx.sagaStepResults layer
    generalize isResults : run.layerRuns ctx.sagaStepResults layer = results at names
    rw [List.flatten_cons, ← names, ← List.append_assoc, ← List.map_append] at distinct
    have fresh : ((finished ++ results).map Finished.saga).Nodup := distinct.of_append_left
    by_cases all : ∀ one ∈ results, one.completed
    · have everything := (keeps _ recorded).records fresh
      have next := ih _ _ everything
        (by
          intro one member
          rcases List.mem_append.mp member with before | now
          · exact completed one before
          · exact all one now)
        (by rw [record_error, sameError, noError]) distinct
      simp only [run.inspect_all _ all, record_error, sameError, noError, Option.isSome_none,
        Bool.false_eq_true, if_false]
      rw [record_stepResults, sameResults] at next
      have same : results.all Finished.completed := List.all_eq_true.mpr all
      refine ⟨fun none => ?_, fun some => ?_, next.distinct⟩
      · obtain ⟨all_recorded, all_completed, complete, kept⟩ := next.clean none
        refine ⟨all_recorded, all_completed, ?_, ?_⟩
        · rw [AllComplete, isResults]
          exact ⟨all, complete⟩
        · rw [NoneLost, isResults, if_pos same]
          exact kept
      · obtain ⟨good, bad, lost, split, all_recorded, before, failed, incomplete, kept⟩ :=
          next.broken some
        refine ⟨good, bad, lost, split, all_recorded, before, failed, ?_, ?_⟩
        · rw [AllComplete, isResults]
          exact fun complete => incomplete complete.2
        · rw [NoneLost, isResults, if_pos same]
          exact kept
    · obtain ⟨good, bad, lost, split, before, failed, dropped⟩ := exists_first_failure all
      have partial_fresh : ((finished ++ (good ++ [bad])).map Finished.saga).Nodup := by
        refine List.Nodup.sublist (List.Sublist.map _ ?_) fresh
        rw [split]
        simp
      have upTo := (keeps _ recorded).records partial_fresh
      simp only [split, run.inspect_failed lost _ before failed, Option.isSome_some, if_true]
      refine ⟨by simp, fun _ => ?_, by simpa [split] using fresh⟩
      refine ⟨finished ++ good, bad, lost, by simp, ?_, ?_, failed, ?_, ?_⟩
      · simpa using upTo.withError _
      · intro one member
        rcases List.mem_append.mp member with old | new
        · exact completed one old
        · exact before one new
      · rw [AllComplete, isResults]
        exact fun complete => all complete.1
      · have some_failed : ¬ results.all Finished.completed := fun same =>
          all (List.all_eq_true.mp same)
        rw [NoneLost, isResults, if_neg some_failed, dropped]
        simp [failed]

theorem foldl_insert_other {entries : List (String × Value)} {key : String}
    (fresh : key ∉ entries.map Prod.fst) (map : Std.TreeMap String Value) :
    (entries.foldl (fun map entry => map.insert entry.1 entry.2) map)[key]? = map[key]? := by
  induction entries generalizing map with
  | nil => rfl
  | cons entry entries ih =>
    simp only [List.map_cons, List.mem_cons, not_or] at fresh
    rw [List.foldl_cons, ih fresh.2, Std.TreeMap.getElem?_insert]
    simp [Ne.symm fresh.1]

theorem foldl_insert_listed {entries : List (String × Value)} {key : String} {value : Value}
    (distinct : (entries.map Prod.fst).Nodup) (listed : (key, value) ∈ entries)
    (map : Std.TreeMap String Value) :
    (entries.foldl (fun map entry => map.insert entry.1 entry.2) map)[key]? = some value := by
  induction entries generalizing map with
  | nil => simp at listed
  | cons entry entries ih =>
    obtain ⟨fresh, distinct⟩ := List.nodup_cons.mp distinct
    rw [List.foldl_cons]
    rcases List.mem_cons.mp listed with rfl | later
    · rw [foldl_insert_other fresh]
      simp
    · exact ih distinct later _

theorem undoContext_results (results : Std.TreeMap String Value) (step : String) :
    (undoContext (some results)).results[step]? = results[step]? := by
  have copied : ∀ (entries : List (String × Value)) (ctx : StepContext),
      (entries.foldl (fun ctx result => ctx.setResult result.1 result.2) ctx).results =
        entries.foldl (fun map entry => map.insert entry.1 entry.2) ctx.results := by
    intro entries
    induction entries with
    | nil => exact fun _ => rfl
    | cons entry entries ih => exact fun ctx => ih _
  have distinct : (results.toList.map Prod.fst).Nodup := by
    rw [Std.TreeMap.map_fst_toList_eq_keys]
    exact nodup_keys results
  rw [undoContext, copied]
  cases found : results[step]? with
  | some value =>
    exact foldl_insert_listed distinct (Std.TreeMap.mem_toList_iff_getElem?_eq_some.mpr found) _
  | none =>
    rw [foldl_insert_other]
    · simp
    · rw [Std.TreeMap.map_fst_toList_eq_keys, mem_keys_iff]
      simp [found]

theorem undoOne_eq (run : Compositing) (ctx : CompositionContext) (name : String) :
    run.undoOne ctx name = (run.undoOf name).map fun undo =>
      ⟨name, undoContext ctx.sagaStepResults[name]?, undo (undoContext ctx.sagaStepResults[name]?)⟩ := by
  rw [undoOne, undoOf]
  cases run.compositor.sagas[name]? <;> rfl

theorem undone_names (run : Compositing) (ctx : CompositionContext) (order : List String) :
    (order.filterMap (run.undoOne ctx)).map Undone.saga =
      order.filter fun name => (run.undoOf name).isSome := by
  induction order with
  | nil => rfl
  | cons name order ih =>
    rw [List.filterMap_cons, List.filter_cons, undoOne_eq]
    cases run.undoOf name <;> simp [ih]

theorem Recorded.completedNames {ctx : CompositionContext} {recorded : List Finished}
    (holds : Recorded ctx recorded) :
    (ctx.completedSagas.filter fun name =>
      (ctx.sagaResults[name]?.map fun outcome => decide (outcome.status = .completed)).getD false) =
      (recorded.filter Finished.completed).map Finished.saga := by
  rw [holds.names, List.filter_map]
  congr 1
  refine List.filter_congr fun one member => ?_
  simp [holds.outcomes one member, Finished.completed]

-- What the rollback undoes after a failure: the sagas recorded before the failed one.
theorem rollback_undone (run : Compositing) {ctx : CompositionContext} {good : List Finished}
    {bad : Finished} (recorded : Recorded ctx (good ++ [bad]))
    (completed : ∀ one ∈ good, one.completed) (failed : bad.completed = false) :
    (run.rollback ctx).2 = (good.map Finished.saga).reverse.filterMap (run.undoOne ctx) := by
  have successful : (good ++ [bad]).filter Finished.completed = good := by
    rw [List.filter_append, List.filter_eq_self.mpr completed]
    simp [failed]
  rw [rollback]
  simp only [recorded.completedNames, successful]

theorem rollback_kept (run : Compositing) (ctx : CompositionContext) :
    (run.rollback ctx).1.completedSagas = ctx.completedSagas ∧
      (run.rollback ctx).1.error = ctx.error :=
  ⟨rfl, rfl⟩

theorem same_run {finished : List Finished} (distinct : (finished.map Finished.saga).Nodup)
    {one other : Finished} (member : one ∈ finished) (otherMember : other ∈ finished)
    (same : one.saga = other.saga) : one = other :=
  List.inj_on_of_nodup_map distinct member otherMember same

theorem rollback_sound (run : Compositing) {ctx : CompositionContext} {good lost : List Finished}
    {bad : Finished} (recorded : Recorded ctx (good ++ [bad]))
    (completed : ∀ one ∈ good, one.completed) (failed : bad.completed = false)
    (distinct : ((good ++ bad :: lost).map Finished.saga).Nodup)
    (kept : ∀ one ∈ lost, one.completed → run.undoOf one.saga = none) :
    run.RollsBack ⟨(run.rollback ctx).1, good ++ bad :: lost, (run.rollback ctx).2⟩ := by
  have undone := run.rollback_undone recorded completed failed
  have names := run.undone_names ctx (good.map Finished.saga).reverse
  rw [← undone] at names
  have inside : ∀ one ∈ (run.rollback ctx).2, ∃ source ∈ good, source.saga = one.saga ∧
      run.undoOne ctx one.saga = some one := by
    intro one member
    rw [undone] at member
    obtain ⟨name, listed, called⟩ := List.mem_filterMap.mp member
    obtain ⟨source, known, rfl⟩ := List.mem_map.mp (List.mem_reverse.mp listed)
    have named : source.saga = one.saga := by
      rw [undoOne_eq] at called
      obtain ⟨undo, -, rfl⟩ := Option.map_eq_some_iff.mp called
      rfl
    exact ⟨source, known, named, named ▸ called⟩
  refine ⟨?_, ?_, ?_, ?_, ?_⟩
  · intro one member completes registered
    rcases List.mem_append.mp member with early | late
    · rw [names]
      refine List.count_eq_one_of_mem ?_ ?_
      · refine List.Nodup.filter _ (List.nodup_reverse.mpr ?_)
        exact distinct.sublist (List.Sublist.map _ (List.sublist_append_left _ _))
      · simp only [List.mem_filter, List.mem_reverse]
        exact ⟨List.mem_map_of_mem early, registered⟩
    · rcases List.mem_cons.mp late with rfl | behind
      · simp [failed] at completes
      · simp [kept one behind completes] at registered
  · rw [names, (run.rollback_kept ctx).1, recorded.names, List.map_append, List.reverse_append]
    exact List.filter_sublist.trans (List.sublist_append_right _ _)
  · intro one member
    obtain ⟨source, -, -, called⟩ := inside one member
    rw [undoOne_eq] at called
    obtain ⟨undo, registered, isOne⟩ := Option.map_eq_some_iff.mp called
    rw [registered, ← isOne]
    rfl
  · intro one member
    obtain ⟨source, known, named, called⟩ := inside one member
    refine ⟨source, List.mem_append_left _ known, named, fun step => ?_⟩
    rw [undoOne_eq, ← named, recorded.results source (List.mem_append_left _ known)] at called
    obtain ⟨undo, -, rfl⟩ := Option.map_eq_some_iff.mp called
    exact undoContext_results _ step
  · intro one member fails listed
    obtain ⟨entry, undone_entry, named⟩ := List.mem_map.mp listed
    obtain ⟨source, known, sourceNamed, -⟩ := inside entry undone_entry
    obtain rfl := same_run distinct (List.mem_append_left _ known) member (sourceNamed.trans named)
    simp [completed source known] at fails

theorem rollback_complete (run : Compositing) {ctx : CompositionContext}
    {good lost : List Finished} {bad : Finished} (recorded : Recorded ctx (good ++ [bad]))
    (completed : ∀ one ∈ good, one.completed) (failed : bad.completed = false)
    (distinct : ((good ++ bad :: lost).map Finished.saga).Nodup)
    (rolled : run.RollsBack ⟨(run.rollback ctx).1, good ++ bad :: lost, (run.rollback ctx).2⟩) :
    ∀ one ∈ lost, one.completed → run.undoOf one.saga = none := by
  intro one behind completes
  by_contra registered
  have called := rolled.once one (by simp [behind]) completes
    (Option.isSome_iff_ne_none.mpr registered)
  have member := List.count_pos_iff.mp (called ▸ Nat.one_pos)
  rw [run.rollback_undone recorded completed failed, undone_names] at member
  obtain ⟨source, known, named⟩ := List.mem_map.mp
    (List.mem_reverse.mp (List.mem_filter.mp member).1)
  rw [List.map_append, List.nodup_append] at distinct
  exact distinct.2.2 source.saga (List.mem_map_of_mem known) one.saga
    (List.mem_map_of_mem (List.mem_cons_of_mem _ behind)) named

theorem not_listsCompleted {ctx : CompositionContext} {undone : List Undone}
    {good lost : List Finished} {bad : Finished} (recorded : Recorded ctx (good ++ [bad]))
    (failed : bad.completed = false)
    (distinct : ((good ++ bad :: lost).map Finished.saga).Nodup) :
    ¬ ListsCompleted ⟨ctx, good ++ bad :: lost, undone⟩ := by
  intro listed
  have named : bad.saga ∈ ctx.completedSagas := by
    rw [recorded.names]
    simp
  obtain ⟨one, member, same, completes⟩ := (listed bad.saga).mp named
  obtain rfl := same_run distinct member (by simp) same
  simp [failed] at completes

theorem listsCompleted {ctx : CompositionContext} {finished : List Finished} {undone : List Undone}
    (recorded : Recorded ctx finished) (completed : ∀ one ∈ finished, one.completed) :
    ListsCompleted ⟨ctx, finished, undone⟩ := by
  intro name
  simp only [recorded.names, List.mem_map]
  constructor
  · rintro ⟨one, member, rfl⟩
    exact ⟨one, member, rfl, completed one member⟩
  · rintro ⟨one, member, rfl, -⟩
    exact ⟨one, member, rfl⟩

theorem execute_cases (run : Compositing) :
    (run.execute.finished = [] ∧ run.execute.undone = [] ∧ run.execute.ctx.completedSagas = [] ∧
      run.AllComplete ∅ run.layers ∧ run.NoneLost ∅ run.layers) ∨
    (run.execute.ctx.error = none ∧ ListsCompleted run.execute ∧ run.AllComplete ∅ run.layers ∧
      run.NoneLost ∅ run.layers) ∨
    (run.execute.ctx.error.isSome ∧ ¬ ListsCompleted run.execute ∧ ¬ run.AllComplete ∅ run.layers ∧
      (run.RollsBack run.execute ↔ run.NoneLost ∅ run.layers)) := by
  have distinct := run.layers_nodup
  rw [execute, layers] at *
  cases computed : computeLayers run.composition.deps with
  | error => exact .inl ⟨rfl, rfl, rfl, trivial, trivial⟩
  | ok layers =>
    right
    simp only [computed] at distinct ⊢
    let start : CompositionContext :=
      { correlationId := run.correlationId, compositionName := run.composition.name }
    have ended := run.runLayers_ended layers start []
      ⟨by simp, rfl, by simp, by simp⟩ (by simp) rfl (by simpa using distinct)
    change run.Ended ∅ layers _ _ at ended
    generalize run.runLayers layers start [] = ending at *
    obtain ⟨ctx, finished⟩ := ending
    cases error : ctx.error with
    | none =>
      left
      obtain ⟨recorded, completed, complete, kept⟩ := ended.clean error
      rw [if_neg (by simp)]
      exact ⟨error, listsCompleted recorded completed, complete, kept⟩
    | some message =>
      right
      obtain ⟨good, bad, lost, split, recorded, completed, failed, incomplete, kept⟩ :=
        ended.broken (by simp [error])
      obtain rfl : finished = good ++ bad :: lost := split
      rw [if_pos (by simp), kept]
      refine ⟨by simp [(run.rollback_kept ctx).2, error], ?_, incomplete, ?_⟩
      · exact not_listsCompleted ⟨recorded.distinct, recorded.names, recorded.outcomes,
          recorded.results⟩ failed ended.distinct
      · exact ⟨run.rollback_complete recorded completed failed ended.distinct,
          run.rollback_sound recorded completed failed ended.distinct⟩

theorem execute_contract_iff (run : Compositing) :
    (run.Contract run.execute ↔ run.AllComplete ∅ run.layers) ∧
      ((run.execute.ctx.error.isSome → run.RollsBack run.execute) ↔ run.NoneLost ∅ run.layers) := by
  rcases run.execute_cases with ⟨finished, undone, names, complete, kept⟩ |
    ⟨noError, listed, complete, kept⟩ | ⟨error, unlisted, incomplete, rolled⟩
  · have nothing : run.RollsBack run.execute :=
      ⟨by simp [finished], by simp [undone], by simp [undone], by simp [undone], by simp [finished]⟩
    have listed : ListsCompleted run.execute := by
      intro name
      simp [names, finished]
    exact ⟨iff_of_true ⟨fun _ => nothing, listed⟩ complete, iff_of_true (fun _ => nothing) kept⟩
  · have vacuous : run.execute.ctx.error.isSome → run.RollsBack run.execute := by simp [noError]
    exact ⟨iff_of_true ⟨vacuous, listed⟩ complete, iff_of_true vacuous kept⟩
  · refine ⟨iff_of_false (fun contract => unlisted contract.listed) incomplete, ?_⟩
    rw [← rolled]
    exact ⟨fun rollback => rollback error, fun rollback _ => rollback⟩

def authorize : Registered where
  saga :=
    { name := "authorize"
      steps := [{ name := "card", execute := fun ctx => (⟨.error "declined", false⟩, ctx) }] }

def book : Registered where
  saga :=
    { name := "book"
      steps := [{ name := "seat", execute := fun ctx =>
        (⟨.ok (), false⟩, ctx.setResult "seat" (.string "12A")) }] }
  undo := some fun _ => .ok ()

def booking : Compositing where
  compositor :=
    ⟨((∅ : Std.TreeMap String Registered).insert "authorize" authorize).insert "book" book⟩
  composition :=
    ⟨"trip", ((∅ : Std.TreeMap String CompositionEntry).insert "authorize"
      { sagaName := "authorize" }).insert "book" { sagaName := "book" }⟩
  initialInput := .null
  correlationId := "c-1"
  sched := fun _ => .inOrder _

theorem booking_seat_kept : booking.composition.validate = .ok () ∧
    booking.execute.ctx.error =
      some "saga \"authorize\" failed in composition \"trip\": step \"card\": declined" ∧
    ¬ booking.RollsBack booking.execute ∧ ¬ ListsCompleted booking.execute := by
  have finished : booking.execute.finished.map (fun one => (one.saga, one.completed)) =
      [("authorize", false), ("book", true)] := by decide
  have undone : booking.execute.undone.map Undone.saga = [] := by decide
  have names : booking.execute.ctx.completedSagas = ["authorize"] := by decide
  refine ⟨by decide, by decide, fun rolled => ?_, fun listed => ?_⟩
  · have member : ("book", true) ∈
        booking.execute.finished.map (fun one => (one.saga, one.completed)) := by simp [finished]
    obtain ⟨one, ran, isBook⟩ := List.mem_map.mp member
    obtain ⟨named, completes⟩ := Prod.mk.inj isBook
    have called := rolled.once one ran completes (by rw [named]; decide)
    simp [undone] at called
  · obtain ⟨one, ran, named, completes⟩ := (listed "authorize").mp (by simp [names])
    have member := List.mem_map_of_mem (f := fun one => (one.saga, one.completed)) ran
    simp [finished, named, completes] at member

end Compositing

end Firefly.Orchestration
