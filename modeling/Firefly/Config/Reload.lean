import Firefly.Config.Placeholder

set_option autoImplicit false

namespace Firefly.Config

section Reload

variable {T : Type} (deserialize : Flat → Except ConfigError T)

structure Moment where
  sources : List Source
  env : Environment

/-- `version` counts the snapshots sent to the watch receivers, `events` are the changed keys of the
refresh events that the listeners on the bus were given. -/
structure ReloadableConfig (T : Type) where
  snapshot : T
  flat : Flat
  version : Nat
  events : List (List Text)

def mergedResolved (moment : Moment) : Except ConfigError Flat :=
  match merge moment.env moment.sources with
  | .error e => .error e
  | .ok flat => resolvePlaceholders moment.env flat

def ReloadableConfig.load (moment : Moment) : Except ConfigError (ReloadableConfig T) :=
  match mergedResolved moment with
  | .error e => .error e
  | .ok flat =>
    match bind deserialize moment.env flat with
    | .error e => .error e
    | .ok snapshot => .ok { snapshot, flat, version := 0, events := [] }

def changedTopLevelKeys (old new : Flat) : List Text :=
  let keys := (old ++ new).map Prod.fst
  let changed := keys.filter fun key => fetch old key ≠ fetch new key
  ((changed.map fun key => key.takeWhile (· ≠ '.')).dedup).mergeSort (· ≤ ·)

def ReloadableConfig.reload (config : ReloadableConfig T) (moment : Moment) :
    Except ConfigError (List Text) × ReloadableConfig T :=
  match mergedResolved moment with
  | .error e => (.error e, config)
  | .ok newFlat =>
    match bind deserialize moment.env newFlat with
    | .error e => (.error e, config)
    | .ok value =>
      (.ok (changedTopLevelKeys config.flat newFlat),
        { config with snapshot := value, flat := newFlat, version := config.version + 1 })

def ReloadableConfig.reloadAndPublish (config : ReloadableConfig T) (moment : Moment) :
    Except ConfigError (List Text) × ReloadableConfig T :=
  match config.reload deserialize moment with
  | (.error e, config) => (.error e, config)
  | (.ok changed, config) => (.ok changed, { config with events := config.events ++ [changed] })

structure Replay where
  moment : Moment
  publish : Bool

def ReloadableConfig.replay (config : ReloadableConfig T) (later : Replay) :
    Except ConfigError (List Text) × ReloadableConfig T :=
  if later.publish then config.reloadAndPublish deserialize later.moment
  else config.reload deserialize later.moment

def advance (last : ReloadableConfig T × Moment) (replay : Replay) : ReloadableConfig T × Moment :=
  match last.1.replay deserialize replay with
  | (.ok _, config) => (config, replay.moment)
  | (.error _, config) => (config, last.2)

def replays (first : ReloadableConfig T × Moment) (later : List Replay) :
    ReloadableConfig T × Moment :=
  later.foldl (advance deserialize) first

structure Live (first : Moment) (later : List Replay) : Prop where
  starts : ((ReloadableConfig.load deserialize first).toOption.map (·.snapshot)) =
    (load deserialize first.env first.sources).toOption
  follows : ∀ config, ReloadableConfig.load deserialize first = .ok config →
    ∀ taken rest, later = taken ++ rest →
      let last := replays deserialize (config, first) taken
      load deserialize last.2.env last.2.sources = .ok last.1.snapshot
  keeps : ∀ (config : ReloadableConfig T) (replay : Replay),
    (config.replay deserialize replay).1.toOption = none →
      (config.replay deserialize replay).2 = config

def Stable (moment : Moment) : Prop :=
  ∀ flat, mergedResolved moment = .ok flat → resolvePlaceholders moment.env flat = .ok flat

def StableOrFails (moment : Moment) : Prop :=
  ∀ flat again, mergedResolved moment = .ok flat →
    resolvePlaceholders moment.env flat = .ok again → again = flat

end Reload

section Merge

variable {env : Environment} {flat : Flat}

def NormalKeys (flat : Flat) : Prop := ∀ entry ∈ flat, ∀ c ∈ entry.1, c ≠ '-' ∧ c.isUpper = false

theorem needsNormalize_of_normal (normal : NormalKeys flat) : needsNormalize flat = false := by
  rw [needsNormalize, List.any_eq_false]
  intro entry among
  rw [List.any_eq_true]
  rintro ⟨c, inside, odd⟩
  obtain ⟨dash, upper⟩ := normal entry among c inside
  simp [dash, upper] at odd

theorem normal_normalizeKey (env : Environment) (key : Text) :
    ∀ c ∈ normalizeKey env key, c ≠ '-' ∧ c.isUpper = false := by
  intro c among
  obtain ⟨d, inside, rfl⟩ := List.mem_map.mp among
  by_cases dash : d = '-'
  · simp [dash]
  · simp [dash, env.lowered key d inside]

theorem normal_insertKey (normal : NormalKeys flat) (key value : Text) :
    NormalKeys (insertKey flat (normalizeKey env key) value) := by
  intro entry among
  unfold insertKey at among
  split at among
  next =>
    obtain ⟨other, inside, rfl⟩ := List.mem_map.mp among
    split
    next => exact normal_normalizeKey env key
    next => exact normal other inside
  next =>
    rcases List.mem_append.mp among with inside | here
    · exact normal entry inside
    · obtain rfl := List.mem_singleton.mp here
      exact normal_normalizeKey env key

theorem normal_normalizeKeys (entries : List (Text × Text)) (normal : NormalKeys flat) :
    NormalKeys (normalizeKeys env entries flat) := by
  induction entries generalizing flat with
  | nil => exact normal
  | cons entry entries ih => exact ih (normal_insertKey normal entry.1 entry.2)

theorem merge_keeps {P : Flat → Prop} (keeps : ∀ entries flat, P flat → P (normalizeKeys env entries flat))
    {sources : List Source} {before : Flat} (start : P before)
    (merged : sources.foldlM (mergeSource env) before = .ok flat) : P flat := by
  induction sources generalizing before with
  | nil =>
    cases merged
    exact start
  | cons source sources ih =>
    rw [List.foldlM_cons] at merged
    cases read : source.entries with
    | error e => simp [mergeSource, read, Bind.bind, Except.bind] at merged
    | ok entries =>
      simp only [mergeSource, read] at merged
      exact ih (keeps entries before start) merged

theorem normal_merge {sources : List Source} {before : Flat} (normal : NormalKeys before)
    (merged : sources.foldlM (mergeSource env) before = .ok flat) : NormalKeys flat :=
  merge_keeps (fun entries _ => normal_normalizeKeys entries) normal merged

theorem resolved_keys {flat resolved : Flat} {source : Flat}
    (done : flat.mapM (resolveEntry env source) = .ok resolved) :
    resolved.map Prod.fst = flat.map Prod.fst := by
  induction flat generalizing resolved with
  | nil =>
    cases done
    rfl
  | cons entry flat ih =>
    rw [List.mapM_cons] at done
    cases here : resolveEntry env source entry with
    | error e => simp [here, Bind.bind, Except.bind] at done
    | ok value =>
      cases there : flat.mapM (resolveEntry env source) with
      | error e => simp [here, there, Bind.bind, Except.bind] at done
      | ok values =>
        simp only [here, there, Bind.bind, Except.bind, pure, Except.pure, Except.ok.injEq] at done
        subst done
        have same : value.1 = entry.1 := by
          unfold resolveEntry at here
          split at here
          next =>
            split at here
            next => cases here
            next =>
              cases here
              rfl
          next =>
            cases here
            rfl
        rw [List.map_cons, List.map_cons, same, ih there]

end Merge

section Pipeline

variable {T : Type} {deserialize : Flat → Except ConfigError T} {env : Environment} {flat : Flat}

theorem resolvePlaceholders_plain (plain : ∀ entry ∈ flat, containsMarker entry.2 = false) :
    resolvePlaceholders env flat = .ok flat := by
  have general : ∀ entries : Flat, (∀ entry ∈ entries, containsMarker entry.2 = false) →
      entries.mapM (resolveEntry env flat) = .ok entries := by
    intro entries plain
    induction entries with
    | nil => rfl
    | cons entry entries ih =>
      have here : resolveEntry env flat entry = .ok entry := by
        rw [resolveEntry, if_neg (by simp [plain entry (by simp)])]
      rw [List.mapM_cons, here, ih fun other among => plain other (by simp [among])]
      rfl
  exact general flat plain

theorem bind_normal (normal : NormalKeys flat) :
    bind deserialize env flat =
      match resolvePlaceholders env flat with
      | .error e => .error e
      | .ok resolved => deserialize resolved := by
  rw [bind]
  simp only [needsNormalize_of_normal normal, Bool.not_false, Bool.true_and, Bool.false_eq_true,
    if_false]
  cases marked : flat.any fun entry => containsMarker entry.2 with
  | true =>
    cases resolvePlaceholders env flat with
    | error e => simp
    | ok again => simp
  | false =>
    have plain : ∀ entry ∈ flat, containsMarker entry.2 = false := by
      simpa [List.any_eq_false] using marked
    simp [resolvePlaceholders_plain plain]

theorem load_eq (moment : Moment) :
    load deserialize moment.env moment.sources =
      match mergedResolved moment with
      | .error e => .error e
      | .ok flat => deserialize flat := by
  rw [load, mergedResolved]
  cases merged : merge moment.env moment.sources with
  | error e => rfl
  | ok flat =>
    have normal : NormalKeys flat := normal_merge (by simp [NormalKeys]) merged
    exact bind_normal normal

theorem normal_mergedResolved {moment : Moment} (resolved : mergedResolved moment = .ok flat) :
    NormalKeys flat := by
  rw [mergedResolved] at resolved
  split at resolved
  next => cases resolved
  next merged done =>
    have normal : NormalKeys merged := normal_merge (by simp [NormalKeys]) done
    have keys := resolved_keys resolved
    intro entry among
    have key : entry.1 ∈ merged.map Prod.fst := keys ▸ List.mem_map_of_mem among
    obtain ⟨other, inside, same⟩ := List.mem_map.mp key
    rw [← same]
    exact normal other inside

theorem bind_resolved {moment : Moment} (resolved : mergedResolved moment = .ok flat) :
    bind deserialize moment.env flat =
      match resolvePlaceholders moment.env flat with
      | .error e => .error e
      | .ok again => deserialize again :=
  bind_normal (normal_mergedResolved resolved)

variable (deserialize) in
def reread (moment : Moment) : Except ConfigError (Flat × T) :=
  match mergedResolved moment with
  | .error e => .error e
  | .ok flat =>
    match bind deserialize moment.env flat with
    | .error e => .error e
    | .ok value => .ok (flat, value)

theorem load_config (moment : Moment) :
    ReloadableConfig.load deserialize moment =
      match reread deserialize moment with
      | .error e => .error e
      | .ok (flat, snapshot) => .ok { snapshot, flat, version := 0, events := [] } := by
  unfold ReloadableConfig.load reread
  split
  next => rfl
  next flat resolved => cases bind deserialize moment.env flat <;> rfl

theorem replay_error {replay : Replay} {e : ConfigError}
    (failed : reread deserialize replay.moment = .error e) (config : ReloadableConfig T) :
    config.replay deserialize replay = (.error e, config) := by
  have reload : config.reload deserialize replay.moment = (.error e, config) := by
    unfold reread at failed
    unfold ReloadableConfig.reload
    split at failed
    next => simp [Except.error.inj failed]
    next flat merged =>
      split at failed
      next => simp [Except.error.inj failed]
      next => cases failed
  simp only [ReloadableConfig.replay, ReloadableConfig.reloadAndPublish, reload, ite_self]

theorem replay_ok {replay : Replay} {value : T}
    (done : reread deserialize replay.moment = .ok (flat, value)) (config : ReloadableConfig T) :
    ∃ changed, (config.replay deserialize replay).1 = .ok changed ∧
      (config.replay deserialize replay).2.snapshot = value := by
  have reload : config.reload deserialize replay.moment =
      (.ok (changedTopLevelKeys config.flat flat),
        { config with snapshot := value, flat, version := config.version + 1 }) := by
    unfold reread at done
    unfold ReloadableConfig.reload
    split at done
    next => cases done
    next flat' merged =>
      split at done
      next => cases done
      next value' bound =>
        obtain ⟨rfl, rfl⟩ := Prod.mk.inj (Except.ok.inj done)
        simp
  refine ⟨changedTopLevelKeys config.flat flat, ?_⟩
  cases publish : replay.publish <;>
    simp [ReloadableConfig.replay, publish, ReloadableConfig.reloadAndPublish, reload]

theorem replay_keeps (config : ReloadableConfig T) (replay : Replay)
    (failed : (config.replay deserialize replay).1.toOption = none) :
    (config.replay deserialize replay).2 = config := by
  cases read : reread deserialize replay.moment with
  | error e => rw [replay_error read]
  | ok value =>
    obtain ⟨changed, done, -⟩ := replay_ok read config
    simp [done, Except.toOption] at failed

theorem reread_load {moment : Moment} {value : T} (stable : StableOrFails moment)
    (read : reread deserialize moment = .ok (flat, value)) :
    load deserialize moment.env moment.sources = .ok value := by
  unfold reread at read
  split at read
  next => cases read
  next flat' resolved =>
    rw [bind_resolved resolved] at read
    rw [load_eq, resolved]
    cases twice : resolvePlaceholders moment.env flat' with
    | error e => simp [twice] at read
    | ok again =>
      obtain rfl := stable flat' again resolved twice
      simp only [twice] at read
      cases bound : deserialize again with
      | error e => simp [bound] at read
      | ok value' =>
        simp only [bound, Except.ok.injEq, Prod.mk.injEq] at read
        rw [← read.2]
        exact bound

theorem reread_stable {moment : Moment} (stable : Stable moment) :
    (reread deserialize moment).toOption.map Prod.snd =
      (load deserialize moment.env moment.sources).toOption := by
  rw [load_eq, reread]
  cases resolved : mergedResolved moment with
  | error e => rfl
  | ok flat =>
    simp only [bind_resolved resolved, stable flat resolved]
    cases deserialize flat <;> rfl

theorem advance_ok {replay : Replay} {value : T}
    (done : reread deserialize replay.moment = .ok (flat, value))
    (last : ReloadableConfig T × Moment) :
    ∃ config, advance deserialize last replay = (config, replay.moment) ∧
      config.snapshot = value := by
  obtain ⟨changed, answered, snapshot⟩ := replay_ok done last.1
  refine ⟨(last.1.replay deserialize replay).2, ?_, snapshot⟩
  unfold advance
  split
  next answered' => rw [answered']
  next answered' => simp [answered'] at answered

theorem replays_snapshot {config : ReloadableConfig T} {moment : Moment} (taken : List Replay)
    (stable : ∀ replay ∈ taken, StableOrFails replay.moment)
    (correct : load deserialize moment.env moment.sources = .ok config.snapshot) :
    let last := replays deserialize (config, moment) taken
    load deserialize last.2.env last.2.sources = .ok last.1.snapshot := by
  induction taken generalizing config moment with
  | nil => exact correct
  | cons replay taken ih =>
    have later := fun other among => stable other (List.mem_cons_of_mem replay among)
    cases read : reread deserialize replay.moment with
    | error e =>
      have kept : advance deserialize (config, moment) replay = (config, moment) := by
        rw [advance, replay_error read]
      rw [replays, List.foldl_cons, kept]
      exact ih later correct
    | ok result =>
      have correct' := reread_load (stable replay (by simp)) read
      obtain ⟨config', moved, snapshot⟩ := advance_ok read (config, moment)
      rw [replays, List.foldl_cons, moved]
      exact ih later (snapshot ▸ correct')

end Pipeline

theorem live_iff_stable (first : Moment) (later : List Replay) :
    (∀ (T : Type) (deserialize : Flat → Except ConfigError T), Live deserialize first later) ↔
      Stable first ∧ ((mergedResolved first).toOption.isSome = true →
        ∀ replay ∈ later, StableOrFails replay.moment) := by
  constructor
  · intro live
    have whole := live Flat Except.ok
    have stable : Stable first := by
      intro flat resolved
      have starts := whole.starts
      rw [load_config, load_eq, reread, resolved] at starts
      simp only [bind_resolved resolved] at starts
      cases twice : resolvePlaceholders first.env flat with
      | error e => simp [twice, Except.toOption] at starts
      | ok again =>
        simp only [twice, Except.toOption, Option.map_some, Option.some.injEq] at starts
        rw [starts]
    refine ⟨stable, fun loads replay among flat again resolved twice => ?_⟩
    obtain ⟨taken, rest, rfl⟩ := List.append_of_mem among
    obtain ⟨start, merged⟩ := Option.isSome_iff_exists.mp loads
    have resolved₀ : mergedResolved first = .ok start := by
      cases resolved₀ : mergedResolved first with
      | error e => simp [resolved₀, Except.toOption] at merged
      | ok flat => simpa [resolved₀, Except.toOption] using merged
    have loaded : ReloadableConfig.load Except.ok first =
        .ok { snapshot := start, flat := start, version := 0, events := [] } := by
      rw [load_config, reread, resolved₀]
      simp only [bind_resolved resolved₀, stable start resolved₀]
    -- the identity reads the map that was resolved twice
    have follows := whole.follows _ loaded (taken ++ [replay]) rest (by simp)
    have read : reread Except.ok replay.moment = .ok (flat, again) := by
      rw [reread, resolved]
      simp only [bind_resolved resolved, twice]
    obtain ⟨config, moved, snapshot⟩ := advance_ok read (replays Except.ok
      ({ snapshot := start, flat := start, version := 0, events := [] }, first) taken)
    have moved' : replays Except.ok
        ({ snapshot := start, flat := start, version := 0, events := [] }, first)
        (taken ++ [replay]) = (config, replay.moment) := by
      rw [replays, List.foldl_append]
      exact moved
    rw [moved'] at follows
    simp only [load_eq, resolved, Except.ok.injEq] at follows
    rw [follows, snapshot]
  · rintro ⟨stable, later_stable⟩ T deserialize
    constructor
    · rw [← reread_stable stable, load_config]
      cases reread deserialize first <;> rfl
    · intro config loaded taken rest split
      have read : ∃ flat, reread deserialize first = .ok (flat, config.snapshot) := by
        rw [load_config] at loaded
        split at loaded
        next => cases loaded
        next flat snapshot read =>
          obtain rfl := Except.ok.inj loaded
          exact ⟨flat, read⟩
      obtain ⟨flat, read⟩ := read
      have fails : StableOrFails first := by
        intro flat again resolved twice
        rw [stable flat resolved] at twice
        exact (Except.ok.inj twice).symm
      have loads : (mergedResolved first).toOption.isSome = true := by
        unfold reread at read
        split at read
        next => cases read
        next => simp [‹mergedResolved first = _›, Except.toOption]
      refine replays_snapshot taken (fun replay among => ?_) (reread_load fails read)
      exact later_stable loads replay (split ▸ List.mem_append_left rest among)
    · exact replay_keeps

end Firefly.Config
