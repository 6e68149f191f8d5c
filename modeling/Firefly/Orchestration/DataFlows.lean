import Firefly.Orchestration.SagaCompositionContract

set_option autoImplicit false

-- A saga's input is resolved when the layers before its own have run; a flow whose source has not
-- run by then is passed over.

namespace Firefly.Orchestration.Compositing

open Json DataFlowManager

abbrev StepResults := Std.TreeMap String (Std.TreeMap String Value)

def resultsAfter (run : Compositing) (stepResults : StepResults) : List (List String) → StepResults
  | [] => stepResults
  | layer :: rest =>
    run.resultsAfter (addResults stepResults (run.layerRuns stepResults layer)) rest

structure Delivers (run : Compositing) (execution : Execution) (name : String)
    (entry : CompositionEntry) (before : List (List String)) : Prop where
  input : execution.ctx.sagaInputs[name]? =
    some (resolveInput entry (run.resultsAfter ∅ before) run.initialInput)
  ran : run.runSaga name (resolveInput entry (run.resultsAfter ∅ before) run.initialInput) ∈
    execution.finished
  flows : ∀ flow ∈ entry.dataFlows, ∀ value,
    flowValue execution.ctx.sagaStepResults flow = some value →
    flowValue (run.resultsAfter ∅ before) flow = some value

def AllDelivered (run : Compositing) (execution : Execution) : Prop :=
  ∀ name entry, run.composition.entries[name]? = some entry →
    ∃ before layer after, run.layers = before ++ layer :: after ∧ name ∈ layer ∧
      run.Delivers execution name entry before

def SourcesEarlier (run : Compositing) (execution : Execution) : Prop :=
  ∀ name entry, run.composition.entries[name]? = some entry → ∀ flow ∈ entry.dataFlows,
    (flowValue execution.ctx.sagaStepResults flow).isSome →
    ∃ before layer after, run.layers = before ++ layer :: after ∧ name ∈ layer ∧
      flow.sourceSaga ∈ before.flatten

section Layers

variable {run : Compositing} {stepResults : StepResults}

theorem addResults_other {results : List Finished} {name : String}
    (fresh : name ∉ results.map Finished.saga) (stepResults : StepResults) :
    (addResults stepResults results)[name]? = stepResults[name]? := by
  induction results generalizing stepResults with
  | nil => rfl
  | cons one results ih =>
    simp only [List.map_cons, List.mem_cons, not_or] at fresh
    show (addResults (stepResults.insert one.saga one.stepResults) results)[name]? = _
    rw [ih fresh.2, Std.TreeMap.getElem?_insert]
    simp [Ne.symm fresh.1]

theorem resultsAfter_other {layers : List (List String)} {name : String}
    (fresh : name ∉ layers.flatten) (stepResults : StepResults) :
    (run.resultsAfter stepResults layers)[name]? = stepResults[name]? := by
  induction layers generalizing stepResults with
  | nil => rfl
  | cons layer layers ih =>
    simp only [List.flatten_cons, List.mem_append, not_or] at fresh
    rw [resultsAfter, ih fresh.2, addResults_other]
    rw [layerRuns_names]
    exact fresh.1

theorem resultsAfter_append (first second : List (List String)) (stepResults : StepResults) :
    run.resultsAfter stepResults (first ++ second) =
      run.resultsAfter (run.resultsAfter stepResults first) second := by
  induction first generalizing stepResults with
  | nil => rfl
  | cons layer first ih => exact ih _

def withInputs (run : Compositing) (ctx : CompositionContext) (layer : List String) :
    CompositionContext :=
  { ctx with
    sagaInputs := (layer.map fun name => (name, run.inputOf ctx.sagaStepResults name)).foldl
      (fun map input => map.insert input.1 input.2) ctx.sagaInputs }

theorem runLayers_step (run : Compositing) (layer : List String) (rest : List (List String))
    (ctx : CompositionContext) (finished : List Finished) :
    run.runLayers (layer :: rest) ctx finished =
      let results := run.layerRuns ctx.sagaStepResults layer
      let next := run.inspect results (run.withInputs ctx layer)
      if next.error.isSome then (next, finished ++ results)
      else run.runLayers rest next (finished ++ results) := by
  simp only [runLayers, List.map_map]
  rfl

theorem record_inputs (ctx : CompositionContext) (results : List Finished) :
    (results.foldl record ctx).sagaInputs = ctx.sagaInputs := by
  induction results generalizing ctx with
  | nil => rfl
  | cons one results ih => rw [List.foldl_cons, ih, record]

theorem inspect_clean {results : List Finished} {ctx : CompositionContext}
    (clean : (run.inspect results ctx).error = none) :
    run.inspect results ctx = results.foldl record ctx := by
  by_cases completed : ∀ one ∈ results, one.completed
  · exact run.inspect_all ctx completed
  · obtain ⟨good, bad, lost, rfl, succeeded, failed, -⟩ := exists_first_failure completed
    rw [run.inspect_failed lost ctx succeeded failed] at clean
    cases clean

theorem withInputs_listed {ctx : CompositionContext} {layer : List String} (distinct : layer.Nodup)
    {name : String} (among : name ∈ layer) :
    (run.withInputs ctx layer).sagaInputs[name]? = some (run.inputOf ctx.sagaStepResults name) := by
  refine foldl_insert_listed ?_ (List.mem_map.mpr ⟨name, among, rfl⟩) _
  rw [List.map_map]
  simpa [Function.comp_def] using distinct

theorem withInputs_other {ctx : CompositionContext} {layer : List String} {name : String}
    (fresh : name ∉ layer) :
    (run.withInputs ctx layer).sagaInputs[name]? = ctx.sagaInputs[name]? := by
  refine foldl_insert_other ?_ _
  rw [List.map_map]
  simpa [Function.comp_def] using fresh

structure Clean (run : Compositing) (ctx : CompositionContext) (layers : List (List String))
    (finished : List Finished) (ended : CompositionContext × List Finished) : Prop where
  results : ended.1.sagaStepResults = run.resultsAfter ctx.sagaStepResults layers
  kept : ∀ one ∈ finished, one ∈ ended.2
  inputs : ∀ before layer after, layers = before ++ layer :: after → ∀ name ∈ layer,
    ended.1.sagaInputs[name]? = some (run.inputOf (run.resultsAfter ctx.sagaStepResults before) name) ∧
    run.runSaga name (run.inputOf (run.resultsAfter ctx.sagaStepResults before) name) ∈ ended.2
  others : ∀ name ∉ layers.flatten, ended.1.sagaInputs[name]? = ctx.sagaInputs[name]?

theorem runLayers_clean (layers : List (List String)) (ctx : CompositionContext)
    (finished : List Finished) (distinct : layers.flatten.Nodup)
    (clean : (run.runLayers layers ctx finished).1.error = none) :
    run.Clean ctx layers finished (run.runLayers layers ctx finished) := by
  induction layers generalizing ctx finished with
  | nil =>
    refine ⟨rfl, fun one among => among, ?_, fun _ _ => rfl⟩
    intro before layer after split
    simp at split
  | cons layer layers ih =>
    rw [runLayers_step] at clean ⊢
    simp only at clean ⊢
    rw [List.flatten_cons, List.nodup_append] at distinct
    obtain ⟨here, later, apart⟩ := distinct
    cases failed : (run.inspect (run.layerRuns ctx.sagaStepResults layer)
        (run.withInputs ctx layer)).error with
    | some error =>
      simp only [failed, Option.isSome_some, if_true] at clean
      cases clean
    | none =>
      simp only [failed, Option.isSome_none, Bool.false_eq_true, if_false] at clean ⊢
      rw [inspect_clean failed] at clean ⊢
      have rest := ih _ _ later clean
      have results : ((run.layerRuns ctx.sagaStepResults layer).foldl record
          (run.withInputs ctx layer)).sagaStepResults =
            addResults ctx.sagaStepResults (run.layerRuns ctx.sagaStepResults layer) :=
        record_stepResults _ _
      refine ⟨?_, ?_, ?_, ?_⟩
      · rw [rest.results, results]
        rfl
      · intro one among
        exact rest.kept one (by simp [among])
      · intro before next after split name among
        cases before with
        | nil =>
          obtain ⟨rfl, rfl⟩ := List.cons.inj split
          have gone : name ∉ layers.flatten := fun again => apart name among name again rfl
          constructor
          · rw [rest.others name gone, record_inputs]
            exact withInputs_listed here among
          · refine rest.kept _ (List.mem_append_right _ ?_)
            exact List.mem_map.mpr ⟨name, among, rfl⟩
        | cons first before =>
          obtain ⟨rfl, rfl⟩ := List.cons.inj split
          have found := rest.inputs before next after rfl name among
          rw [results] at found
          exact found
      · intro name fresh
        simp only [List.flatten_cons, List.mem_append, not_or] at fresh
        rw [rest.others name fresh.2, record_inputs]
        exact withInputs_other fresh.1

end Layers

-- A name stands in one layer, so the layers before it are determined.
theorem split_unique {before before' after after' : List (List String)} {layer layer' : List String}
    {name : String} (distinct : (before ++ layer :: after).flatten.Nodup)
    (same : before ++ layer :: after = before' ++ layer' :: after') (here : name ∈ layer)
    (here' : name ∈ layer') : before = before' := by
  induction before generalizing before' with
  | nil =>
    cases before' with
    | nil => rfl
    | cons first before' =>
      obtain ⟨rfl, rfl⟩ := List.cons.inj same
      simp only [List.nil_append, List.flatten_cons, List.nodup_append] at distinct
      exact absurd rfl (distinct.2.2 name here name (by simp [here']))
  | cons first before ih =>
    rw [List.cons_append, List.flatten_cons, List.nodup_append] at distinct
    cases before' with
    | nil =>
      obtain ⟨rfl, rfl⟩ := List.cons.inj same
      exact absurd rfl (distinct.2.2 name here' name (by simp [here]))
    | cons first' before' =>
      obtain ⟨rfl, rest⟩ := List.cons.inj same
      rw [ih distinct.2.1 rest]

theorem flowValue_congr {first second : StepResults} {flow : SagaDataFlow}
    (same : first[flow.sourceSaga]? = second[flow.sourceSaga]?) :
    flowValue first flow = flowValue second flow := by
  unfold flowValue
  rw [same]

theorem entry_eq {run : Compositing} {name : String} {entry : CompositionEntry}
    (found : run.composition.entries[name]? = some entry) : run.entry name = entry := by
  rw [Compositing.entry, Std.TreeMap.getD_eq_getD_getElem?, found]
  rfl

def emptyContext (run : Compositing) : CompositionContext :=
  { correlationId := run.correlationId, compositionName := run.composition.name }

theorem execute_clean (run : Compositing) (noError : run.execute.ctx.error = none) :
    run.Clean run.emptyContext run.layers [] (run.execute.ctx, run.execute.finished) ∧
      ∀ name entry, run.composition.entries[name]? = some entry → name ∈ run.layers.flatten := by
  have distinct := run.layers_nodup
  have clean := run.runLayers_clean run.layers run.emptyContext [] distinct
  rw [layers] at *
  rw [execute] at noError ⊢
  cases computed : computeLayers run.composition.deps with
  | error stuck =>
    simp only [computed] at noError
    cases noError
  | ok layers =>
    simp only [computed] at clean noError ⊢
    split at noError
    next failed =>
      rw [(run.rollback_kept _).2] at noError
      rw [noError] at failed
      cases failed
    next sound =>
      have ended := clean noError
      rw [if_neg sound]
      refine ⟨ended, ?_⟩
      intro name entry found
      rw [(computeLayers_flatten computed).mem_iff, mem_keys_iff]
      exact ⟨entry.dependsOn, by simp [SagaComposition.deps, Std.TreeMap.getElem?_map, found]⟩

theorem delivers_of_earlier {run : Compositing} (noError : run.execute.ctx.error = none)
    {name : String} {entry : CompositionEntry}
    (found : run.composition.entries[name]? = some entry) {before after : List (List String)}
    {layer : List String} (split : run.layers = before ++ layer :: after) (among : name ∈ layer)
    (earlier : ∀ flow ∈ entry.dataFlows, (flowValue run.execute.ctx.sagaStepResults flow).isSome →
      flow.sourceSaga ∈ before.flatten) : run.Delivers run.execute name entry before := by
  obtain ⟨clean, -⟩ := run.execute_clean noError
  obtain ⟨input, ran⟩ := clean.inputs before layer after split name among
  rw [inputOf, entry_eq found] at input ran
  refine ⟨input, ran, ?_⟩
  intro flow declared value published
  have source := earlier flow declared (by rw [published]; rfl)
  have distinct := run.layers_nodup
  rw [split, List.flatten_append, List.nodup_append] at distinct
  have gone : flow.sourceSaga ∉ (layer :: after).flatten := fun again =>
    distinct.2.2 _ source _ again rfl
  rw [clean.results, split, resultsAfter_append,
    flowValue_congr (resultsAfter_other gone _)] at published
  exact published

theorem allDelivered_iff (run : Compositing) (noError : run.execute.ctx.error = none) :
    run.AllDelivered run.execute ↔ run.SourcesEarlier run.execute := by
  obtain ⟨clean, listed⟩ := run.execute_clean noError
  constructor
  · intro delivered name entry found flow declared published
    obtain ⟨before, layer, after, split, among, delivers⟩ := delivered name entry found
    refine ⟨before, layer, after, split, among, ?_⟩
    obtain ⟨value, published⟩ := Option.isSome_iff_exists.mp published
    have available := delivers.flows flow declared value published
    by_contra late
    have nothing : (run.resultsAfter ∅ before)[flow.sourceSaga]? = none := by
      rw [resultsAfter_other late]
      simp
    rw [flowValue, nothing] at available
    split at available <;> cases available
  · intro earlier name entry found
    obtain ⟨layer, member, among⟩ := List.mem_flatten.mp (listed name entry found)
    obtain ⟨before, after, split⟩ := List.append_of_mem member
    refine ⟨before, layer, after, split, among, delivers_of_earlier noError found split among ?_⟩
    intro flow declared published
    obtain ⟨before', layer', after', split', among', source⟩ :=
      earlier name entry found flow declared published
    have same : before = before' := by
      have distinct := run.layers_nodup
      rw [split] at distinct
      exact split_unique distinct (split.symm.trans split') among among'
    rw [same]
    exact source

def seatOf : SagaDataFlow := { sourceSaga := "book", sourceStep := some "seat", targetKey := some "seat" }

def printed : Registered where
  saga := { name := "print", steps := [] }

def ticket (dependsOn : List String) : Compositing where
  compositor := ⟨((∅ : Std.TreeMap String Registered).insert "book" book).insert "print" printed⟩
  composition :=
    ⟨"trip", ((∅ : Std.TreeMap String CompositionEntry).insert "book"
      { sagaName := "book" }).insert "print"
      { sagaName := "print", dependsOn := dependsOn, dataFlows := [seatOf] }⟩
  initialInput := .null
  correlationId := "c-1"
  sched := fun _ => .inOrder _

theorem ticket_delivered : (ticket ["book"]).execute.ctx.error = none ∧
    ((ticket ["book"]).AllDelivered (ticket ["book"]).execute ↔
      (ticket ["book"]).SourcesEarlier (ticket ["book"]).execute) :=
  ⟨by decide, allDelivered_iff _ (by decide)⟩

theorem ticket_without_seat : (ticket []).composition.validate = .ok () ∧
    (ticket []).execute.ctx.error = none ∧ ¬ (ticket []).AllDelivered (ticket []).execute := by
  refine ⟨by decide, by decide, fun delivered => ?_⟩
  have layers : (ticket []).layers = [["book", "print"]] := by decide
  have published : flowValue (ticket []).execute.ctx.sagaStepResults seatOf =
      some (.string "12A") := by decide
  obtain ⟨before, layer, after, split, -, delivers⟩ := delivered "print"
    { sagaName := "print", dataFlows := [seatOf] } (by decide)
  obtain rfl : before = [] := by
    rw [layers] at split
    cases before with
    | nil => rfl
    | cons first before => simp at split
  have available := delivers.flows seatOf (by simp) _ published
  simp [flowValue, resultsAfter, seatOf] at available

end Firefly.Orchestration.Compositing
