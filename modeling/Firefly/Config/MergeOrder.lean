import Firefly.Config.Placeholder

set_option autoImplicit false

-- A source hands its entries over in a hash map, and the merge meets them in whatever order the map
-- is gone through.

namespace Firefly.Config

section Maps

variable {flat below above : Flat} {key other value : Text}

theorem fetch_nil (key : Text) : fetch [] key = none := rfl

theorem fetch_cons (entry : Text × Text) (flat : Flat) (key : Text) :
    fetch (entry :: flat) key = if entry.1 = key then some entry.2 else fetch flat key := by
  by_cases same : entry.1 = key <;> simp [fetch, same]

theorem fetch_append (first second : Flat) (key : Text) :
    fetch (first ++ second) key = (fetch first key).or (fetch second key) := by
  induction first with
  | nil => rfl
  | cons entry first ih =>
    rw [List.cons_append, fetch_cons, fetch_cons, ih]
    split <;> rfl

theorem fetch_eq_none_of_absent (absent : flat.any (·.1 = key) = false) : fetch flat key = none := by
  rw [fetch, List.find?_eq_none.mpr, Option.map_none]
  simpa using absent

theorem fetch_replaced (flat : Flat) (key value other : Text) :
    fetch (flat.map fun entry => if entry.1 = key then (key, value) else entry) other =
      if other = key then (fetch flat key).map fun _ => value else fetch flat other := by
  induction flat with
  | nil => simp [fetch_nil]
  | cons entry flat ih =>
    rw [List.map_cons, fetch_cons, fetch_cons, fetch_cons, ih]
    by_cases here : entry.1 = key
    · by_cases same : other = key
      · simp [here, same]
      · simp [here, same, Ne.symm same]
    · by_cases same : other = key
      · simp [here, same]
      · simp [here, same]

@[simp] theorem fetch_insertKey (flat : Flat) (key value other : Text) :
    fetch (insertKey flat key value) other = if other = key then some value else fetch flat other := by
  unfold insertKey
  split
  · rename_i present
    rw [fetch_replaced]
    obtain ⟨entry, among, same⟩ := List.any_eq_true.mp present
    have found : ∃ old, fetch flat key = some old := by
      cases none_yet : flat.find? (·.1 = key) with
      | none => exact absurd same (List.find?_eq_none.mp none_yet entry among)
      | some old => exact ⟨old.2, by rw [fetch, none_yet, Option.map_some]⟩
    obtain ⟨old, found⟩ := found
    rw [found, Option.map_some]
  · rename_i absent
    rw [fetch_append, fetch_cons, fetch_nil]
    by_cases same : other = key
    · subst same
      rw [fetch_eq_none_of_absent (Bool.eq_false_iff.mpr absent)]
      simp
    · simp [same, Ne.symm same]

theorem insertKey_distinct (distinct : (flat.map Prod.fst).Nodup) (key value : Text) :
    ((insertKey flat key value).map Prod.fst).Nodup := by
  unfold insertKey
  split
  · have keys : (flat.map fun entry => if entry.1 = key then (key, value) else entry).map Prod.fst =
        flat.map Prod.fst := by
      rw [List.map_map]
      refine List.map_congr_left fun entry _ => ?_
      by_cases same : entry.1 = key <;> simp [same]
    rw [keys]
    exact distinct
  · rename_i absent
    rw [List.map_append]
    refine List.nodup_append.mpr ⟨distinct, by simp, ?_⟩
    rintro one among other own rfl
    obtain ⟨entry, inside, rfl⟩ := List.mem_map.mp among
    have same : entry.1 = key := by simpa using own
    exact absent (List.any_eq_true.mpr ⟨entry, inside, by simp [same]⟩)

def overlay (below above : Flat) : Flat := above.foldl (fun out entry => insertKey out entry.1 entry.2) below

theorem fetch_overlay (distinct : (above.map Prod.fst).Nodup) (below : Flat) (key : Text) :
    fetch (overlay below above) key = (fetch above key).or (fetch below key) := by
  induction above generalizing below with
  | nil => rfl
  | cons entry above ih =>
    obtain ⟨fresh, distinct⟩ := List.nodup_cons.mp distinct
    change fetch (overlay (insertKey below entry.1 entry.2) above) key = _
    rw [ih distinct, fetch_insertKey, fetch_cons]
    by_cases here : entry.1 = key
    · subst here
      have elsewhere : fetch above entry.1 = none := by
        refine fetch_eq_none_of_absent (List.any_eq_false.mpr fun other among => ?_)
        simpa using fun same => fresh (List.mem_map.mpr ⟨other, among, same⟩)
      simp [elsewhere]
    · simp [here, Ne.symm here]

end Maps

structure Table where
  entries : Flat
  distinct : (entries.map Prod.fst).Nodup

def Table.empty : Table where
  entries := []
  distinct := List.nodup_nil

def Table.insert (table : Table) (key value : Text) : Table where
  entries := insertKey table.entries key value
  distinct := insertKey_distinct table.distinct key value

/-- A flag source with the calls of `set` that it has taken, or a source of another kind. -/
inductive Origin where
  | flags (sets : List (Text × Text))
  | other (name : Text) (loaded : Except ConfigError Table)

section Order

variable (env : Environment)

def FlagSource.set (table : Table) (call : Text × Text) : Table :=
  table.insert (env.toLowercase call.1) call.2

def Origin.name : Origin → Text
  | .flags _ => "flags".toList
  | .other name _ => name

def Origin.load : Origin → Except ConfigError Table
  | .flags sets => .ok (sets.foldl (FlagSource.set env) Table.empty)
  | .other _ loaded => loaded

def Origin.Read (origin : Origin) (source : Source) : Prop :=
  source.name = origin.name ∧
    match origin.load env with
    | .error e => source.entries = .error e
    | .ok table => ∃ order : Flat, order.Perm table.entries ∧ source.entries = .ok order

def Reading (origins : List Origin) (sources : List Source) : Prop :=
  List.Forall₂ (Origin.Read env) origins sources

def Origin.writes : Origin → List (Text × Text)
  | .flags sets => sets
  | .other _ (.ok table) => table.entries
  | .other _ (.error _) => []

def ofClass (key : Text) (entries : List (Text × Text)) : List Text :=
  (entries.filter fun entry => normalizeKey env entry.1 = key).map Prod.snd

def lastWritten (origins : List Origin) (key : Text) : Option Text :=
  (ofClass env key (origins.flatMap Origin.writes)).getLast?

def failure : List Origin → Option ConfigError
  | [] => none
  | origin :: origins =>
    match origin.load env with
    | .error e => some (.source origin.name e)
    | .ok _ => failure origins

def SameMap : Except ConfigError Flat → Except ConfigError Flat → Prop
  | .error one, .error other => one = other
  | .ok one, .ok other => ∀ key, fetch one key = fetch other key
  | _, _ => False

structure OrderDecides (origins : List Origin) : Prop where
  last : ∀ sources, Reading env origins sources → ∀ flat, merge env sources = .ok flat →
    ∀ key, fetch flat key = lastWritten env origins key
  stable : ∀ sources others, Reading env origins sources → Reading env origins others →
    SameMap (merge env sources) (merge env others)
  overlaid : ∀ first second, origins = first ++ second → ∀ sources front back,
    Reading env origins sources → Reading env first front → Reading env second back →
    SameMap (merge env sources) (do return overlay (← merge env front) (← merge env back))

def Settled (origins : List Origin) (key : Text) : Prop :=
  ∀ before origin after table, origins = before ++ origin :: after →
    (∀ later ∈ after, ofClass env key later.writes = []) → origin.load env = .ok table →
    ∀ one ∈ ofClass env key table.entries, ∀ other ∈ ofClass env key table.entries, one = other

section Classes

variable {env} {key value : Text} {entries order sets : List (Text × Text)} {table : Table}
  {origin : Origin}

theorem mem_ofClass : value ∈ ofClass env key entries ↔
    ∃ entry ∈ entries, normalizeKey env entry.1 = key ∧ entry.2 = value := by
  simp only [ofClass, List.mem_map, List.mem_filter, decide_eq_true_eq, and_assoc]

@[simp] theorem ofClass_append (key : Text) (first second : List (Text × Text)) :
    ofClass env key (first ++ second) = ofClass env key first ++ ofClass env key second := by
  simp [ofClass]

theorem ofClass_cons (key : Text) (entry : Text × Text) (entries : List (Text × Text)) :
    ofClass env key (entry :: entries) = ofClass env key [entry] ++ ofClass env key entries :=
  ofClass_append key [entry] entries

theorem ofClass_own (same : normalizeKey env key = value) (text : Text) :
    ofClass env value [(key, text)] = [text] := by
  simp [ofClass, same]

theorem ofClass_foreign {raw : Text} (foreign : normalizeKey env raw ≠ key) (text : Text) :
    ofClass env key [(raw, text)] = [] := by
  simp [ofClass, foreign]

variable (env) in
theorem ofClass_perm (key : Text) (perm : order.Perm entries) :
    (ofClass env key order).Perm (ofClass env key entries) :=
  (perm.filter _).map _

theorem getLast?_of_constant {first second : List Text} (perm : first.Perm second)
    (constant : ∀ one ∈ second, ∀ other ∈ second, one = other) : first.getLast? = second.getLast? := by
  cases last : second.getLast? with
  | none =>
    obtain rfl := List.getLast?_eq_none_iff.mp last
    rw [perm.eq_nil, List.getLast?_nil]
  | some value =>
    cases final : first.getLast? with
    | none =>
      obtain rfl := List.getLast?_eq_none_iff.mp final
      rw [← perm.nil_eq] at last
      exact last
    | some other =>
      have among := perm.subset (List.mem_of_getLast? final)
      rw [constant other among value (List.mem_of_getLast? last)]

-- An entry of another class leaves the values of this one alone.
variable (env key) in
theorem ofClass_insertKey_foreign {raw : Text} (foreign : normalizeKey env raw ≠ key) (flat : Flat)
    (text : Text) : ofClass env key (insertKey flat raw text) = ofClass env key flat := by
  have replaced : ofClass env key (flat.map fun entry => if entry.1 = raw then (raw, text) else entry) =
      ofClass env key flat := by
    induction flat with
    | nil => rfl
    | cons entry flat ih =>
      rw [List.map_cons, ofClass_cons, ih, ofClass_cons key entry flat]
      by_cases here : entry.1 = raw
      · have before : ofClass env key [entry] = [] := ofClass_foreign (here ▸ foreign) entry.2
        rw [if_pos here, ofClass_foreign foreign, before]
      · rw [if_neg here]
  unfold insertKey
  split
  · exact replaced
  · rw [ofClass_append, ofClass_foreign foreign, List.append_nil]

theorem mem_ofClass_insertKey {raw : Text} (own : normalizeKey env raw = key) (flat : Flat)
    (text : Text) : text ∈ ofClass env key (insertKey flat raw text) := by
  refine mem_ofClass.mpr ⟨(raw, text), ?_, own, rfl⟩
  unfold insertKey
  split
  · rename_i present
    obtain ⟨entry, among, same⟩ := List.any_eq_true.mp present
    exact List.mem_map.mpr ⟨entry, among, if_pos (by simpa using same)⟩
  · exact List.mem_append_right _ List.mem_cons_self

variable (idempotent : ∀ text, env.toLowercase (env.toLowercase text) = env.toLowercase text)
include idempotent

theorem normalizeKey_lowered (key : Text) : normalizeKey env (env.toLowercase key) = normalizeKey env key := by
  rw [normalizeKey, normalizeKey, idempotent]

theorem sets_survive (key : Text) (sets : List (Text × Text)) :
    let table := sets.foldl (FlagSource.set env) Table.empty
    (∀ value, (ofClass env key sets).getLast? = some value → value ∈ ofClass env key table.entries) ∧
      (ofClass env key sets = [] → ofClass env key table.entries = []) := by
  induction sets using List.reverseRecOn with
  | nil => exact ⟨by simp [ofClass], fun _ => rfl⟩
  | append_singleton sets call ih =>
    obtain ⟨survives, from_sets⟩ := ih
    rw [List.foldl_append]
    have lowered := normalizeKey_lowered idempotent call.1
    by_cases own : normalizeKey env call.1 = key
    · have here : ofClass env key [call] = [call.2] := ofClass_own own call.2
      refine ⟨fun value last => ?_, fun none => ?_⟩
      · rw [ofClass_append, here, List.getLast?_concat] at last
        obtain rfl := Option.some.inj last
        exact mem_ofClass_insertKey (lowered.trans own) _ _
      · rw [ofClass_append, here] at none
        simp at none
    · have here : ofClass env key [call] = [] := ofClass_foreign own call.2
      have same := ofClass_insertKey_foreign env key (by rw [lowered]; exact own)
        (sets.foldl (FlagSource.set env) Table.empty).entries call.2
      rw [ofClass_append, here, List.append_nil]
      exact ⟨fun value last => same ▸ survives value last, fun none => same.trans (from_sets none)⟩

theorem load_absent (loaded : origin.load env = .ok table) (none : ofClass env key origin.writes = []) :
    ofClass env key table.entries = [] := by
  cases origin with
  | flags sets =>
    obtain rfl := Except.ok.inj loaded
    exact (sets_survive idempotent key sets).2 none
  | other name load =>
    have same : load = .ok table := loaded
    rw [same] at none
    exact none

theorem load_last (loaded : origin.load env = .ok table) (perm : order.Perm table.entries)
    (constant : ∀ one ∈ ofClass env key table.entries, ∀ other ∈ ofClass env key table.entries,
      one = other) :
    (ofClass env key order).getLast? = (ofClass env key origin.writes).getLast? := by
  rw [getLast?_of_constant (ofClass_perm env key perm) constant]
  cases origin with
  | flags sets =>
    obtain rfl := Except.ok.inj loaded
    obtain ⟨survives, from_sets⟩ := sets_survive idempotent key sets
    cases last : (ofClass env key sets).getLast? with
    | none =>
      rw [from_sets (List.getLast?_eq_none_iff.mp last)]
      exact last.symm
    | some value =>
      have among := survives value last
      cases final : (ofClass env key (sets.foldl (FlagSource.set env) Table.empty).entries).getLast? with
      | none => simp [List.getLast?_eq_none_iff.mp final] at among
      | some other =>
        rw [constant other (List.mem_of_getLast? final) value among]
        exact last.symm
  | other name load =>
    have same : load = .ok table := loaded
    rw [same]
    rfl

end Classes

section Merge

variable {env} {key : Text} {before flat : Flat} {origins : List Origin} {sources : List Source}

def Source.loaded (source : Source) : List (Text × Text) :=
  match source.entries with
  | .ok entries => entries
  | .error _ => []

theorem fetch_normalizeKeys (entries : List (Text × Text)) (out : Flat) (key : Text) :
    fetch (normalizeKeys env entries out) key =
      (ofClass env key entries).getLast?.or (fetch out key) := by
  induction entries generalizing out with
  | nil => rfl
  | cons entry entries ih =>
    change fetch (normalizeKeys env entries (insertKey out (normalizeKey env entry.1) entry.2)) key = _
    rw [ih, fetch_insertKey, ofClass_cons, List.getLast?_append]
    by_cases own : normalizeKey env entry.1 = key
    · have here : ofClass env key [entry] = [entry.2] := ofClass_own own entry.2
      rw [here, if_pos own.symm]
      cases (ofClass env key entries).getLast? <;> rfl
    · have here : ofClass env key [entry] = [] := ofClass_foreign own entry.2
      rw [here, if_neg (Ne.symm own)]
      cases (ofClass env key entries).getLast? <;> rfl

variable (env) in
theorem normalizeKeys_distinct {out : Flat} (distinct : (out.map Prod.fst).Nodup)
    (entries : List (Text × Text)) : ((normalizeKeys env entries out).map Prod.fst).Nodup := by
  induction entries generalizing out with
  | nil => exact distinct
  | cons entry entries ih => exact ih (insertKey_distinct distinct _ _)

def Merged (env : Environment) (failed : Option ConfigError) (sources : List Source) (before : Flat)
    (result : Except ConfigError Flat) : Prop :=
  match failed with
  | some e => result = .error e
  | none => ∃ flat, result = .ok flat ∧ (flat.map Prod.fst).Nodup ∧ ∀ key,
      fetch flat key = (ofClass env key (sources.flatMap Source.loaded)).getLast?.or (fetch before key)

theorem merge_from (reading : Reading env origins sources) (distinct : (before.map Prod.fst).Nodup) :
    Merged env (failure env origins) sources before (sources.foldlM (mergeSource env) before) := by
  induction reading generalizing before with
  | nil => exact ⟨before, rfl, distinct, fun _ => rfl⟩
  | @cons origin source origins sources read reading ih =>
    obtain ⟨name, entries⟩ := read
    rw [List.foldlM_cons, failure]
    cases loaded : origin.load env with
    | error e =>
      rw [loaded] at entries
      simp [Merged, mergeSource, entries, name, Bind.bind, Except.bind]
    | ok table =>
      rw [loaded] at entries
      obtain ⟨order, -, entries⟩ := entries
      have rest := ih (normalizeKeys_distinct env distinct order)
      simp only [mergeSource, entries, Bind.bind, Except.bind]
      unfold Merged at rest ⊢
      cases failed : failure env origins with
      | some e => simpa only [failed] using rest
      | none =>
        simp only [failed] at rest
        obtain ⟨flat, merged, distinct, fetched⟩ := rest
        refine ⟨flat, merged, distinct, fun key => ?_⟩
        have here : source.loaded = order := by rw [Source.loaded, entries]
        rw [fetched, fetch_normalizeKeys, List.flatMap_cons, ofClass_append, List.getLast?_append, here,
          Option.or_assoc]

theorem merge_ok (reading : Reading env origins sources) (loads : failure env origins = none) :
    ∃ flat, merge env sources = .ok flat ∧ (flat.map Prod.fst).Nodup ∧ ∀ key,
      fetch flat key = (ofClass env key (sources.flatMap Source.loaded)).getLast? := by
  have merged : Merged env (failure env origins) sources [] (merge env sources) :=
    merge_from reading List.nodup_nil
  simpa only [Merged, loads, fetch_nil, Option.or_none] using merged

theorem merge_error (reading : Reading env origins sources) {e : ConfigError}
    (failed : failure env origins = some e) : merge env sources = .error e := by
  have merged : Merged env (failure env origins) sources [] (merge env sources) :=
    merge_from reading List.nodup_nil
  simpa only [Merged, failed] using merged

end Merge

section Settling

variable {env} {key : Text} {origins first second : List Origin} {sources others : List Source}

theorem lastWritten_append (first second : List Origin) (key : Text) :
    lastWritten env (first ++ second) key =
      (lastWritten env second key).or (lastWritten env first key) := by
  rw [lastWritten, List.flatMap_append, ofClass_append, List.getLast?_append]
  rfl

theorem failure_append (first second : List Origin) :
    failure env (first ++ second) = (failure env first).or (failure env second) := by
  induction first with
  | nil => rfl
  | cons origin first ih =>
    rw [List.cons_append, failure, failure, ih]
    cases origin.load env <;> rfl

theorem writes_absent (none : lastWritten env origins key = none) :
    ∀ origin ∈ origins, ofClass env key origin.writes = [] := by
  intro origin among
  have all := List.getLast?_eq_none_iff.mp none
  refine List.eq_nil_iff_forall_not_mem.mpr fun value written => ?_
  obtain ⟨entry, inside, own, rfl⟩ := mem_ofClass.mp written
  have somewhere : entry.2 ∈ ofClass env key (origins.flatMap Origin.writes) :=
    mem_ofClass.mpr ⟨entry, List.mem_flatMap.mpr ⟨origin, among, inside⟩, own, rfl⟩
  simp [all] at somewhere

variable (first) in
theorem Settled.suffix (settled : Settled env (first ++ second) key) : Settled env second key := by
  intro before origin after table split
  exact settled (first ++ before) origin after table (by rw [split, List.append_assoc])

theorem Settled.before (settled : Settled env (first ++ second) key)
    (none : lastWritten env second key = none) : Settled env first key := by
  intro before origin after table split absent
  refine settled before origin (after ++ second) table (by simp [split]) fun later among => ?_
  rcases List.mem_append.mp among with inside | beyond
  · exact absent later inside
  · exact writes_absent none later beyond

variable (env) in
theorem exists_reading (origins : List Origin) : ∃ sources, Reading env origins sources := by
  induction origins with
  | nil => exact ⟨[], .nil⟩
  | cons origin origins ih =>
    obtain ⟨sources, reading⟩ := ih
    refine ⟨⟨origin.name, (origin.load env).map Table.entries⟩ :: sources, .cons ⟨rfl, ?_⟩ reading⟩
    cases origin.load env with
    | error e => rfl
    | ok table => exact ⟨table.entries, .refl _, rfl⟩

section Lowering

variable (idempotent : ∀ text, env.toLowercase (env.toLowercase text) = env.toLowercase text)
include idempotent

theorem reading_last (reading : Reading env origins sources) (loads : failure env origins = none)
    (settled : Settled env origins key) :
    (ofClass env key (sources.flatMap Source.loaded)).getLast? = lastWritten env origins key := by
  induction reading with
  | nil => rfl
  | @cons origin source origins sources read reading ih =>
    obtain ⟨-, entries⟩ := read
    cases loaded : origin.load env with
    | error e => simp [failure, loaded] at loads
    | ok table =>
      rw [loaded] at entries
      obtain ⟨order, perm, entries⟩ := entries
      rw [failure, loaded] at loads
      have rest := ih loads (Settled.suffix [origin] settled)
      have here : source.loaded = order := by rw [Source.loaded, entries]
      rw [List.flatMap_cons, ofClass_append, List.getLast?_append, rest, here,
        ← List.singleton_append, lastWritten_append]
      cases later : lastWritten env origins key with
      | some value => rfl
      | none =>
        have constant := settled [] origin origins table rfl (writes_absent later) loaded
        rw [Option.none_or, Option.none_or, load_last idempotent loaded perm constant]
        simp [lastWritten]

theorem merge_last (reading : Reading env origins sources) (loads : failure env origins = none)
    (settled : ∀ key, Settled env origins key) :
    ∃ flat, merge env sources = .ok flat ∧ (flat.map Prod.fst).Nodup ∧
      ∀ key, fetch flat key = lastWritten env origins key := by
  obtain ⟨flat, merged, distinct, fetched⟩ := merge_ok reading loads
  refine ⟨flat, merged, distinct, fun key => ?_⟩
  rw [fetched, reading_last idempotent reading loads (settled key)]

theorem overlaid_of_settled (loads : failure env (first ++ second) = none)
    (settled : ∀ key, Settled env (first ++ second) key) {front back : List Source}
    (reading : Reading env (first ++ second) sources) (front_read : Reading env first front)
    (back_read : Reading env second back) :
    SameMap (merge env sources) (do return overlay (← merge env front) (← merge env back)) := by
  obtain ⟨flat, merged, -, fetched⟩ := merge_last idempotent reading loads settled
  rw [failure_append] at loads
  obtain ⟨front_loads, back_loads⟩ := Option.or_eq_none_iff.mp loads
  obtain ⟨below, front_merged, -, below_fetched⟩ := merge_ok front_read front_loads
  obtain ⟨above, back_merged, distinct, above_fetched⟩ :=
    merge_last idempotent back_read back_loads fun key => (settled key).suffix
  rw [merged, front_merged, back_merged]
  change ∀ key, fetch flat key = fetch (overlay below above) key
  intro key
  rw [fetched, lastWritten_append, fetch_overlay distinct, above_fetched]
  cases later : lastWritten env second key with
  | some value => rfl
  | none =>
    rw [below_fetched, reading_last idempotent front_read front_loads ((settled key).before later),
      Option.none_or]

theorem settled_decides (settled : failure env origins = none → ∀ key, Settled env origins key) :
    OrderDecides env origins := by
  cases loads : failure env origins with
  | some e =>
    refine ⟨fun sources reading flat merged => ?_, fun sources others reading other => ?_, ?_⟩
    · simp [merge_error reading loads] at merged
    · rw [merge_error reading loads, merge_error other loads]
      rfl
    · rintro first second rfl sources front back reading front_read back_read
      rw [merge_error reading loads]
      rw [failure_append] at loads
      cases front_loads : failure env first with
      | some e =>
        rw [front_loads] at loads
        obtain rfl := Option.some.inj loads
        rw [merge_error front_read front_loads]
        rfl
      | none =>
        rw [front_loads, Option.none_or] at loads
        obtain ⟨below, front_merged, -⟩ := merge_ok front_read front_loads
        rw [front_merged, merge_error back_read loads]
        rfl
  | none =>
    refine ⟨fun sources reading flat merged => ?_, fun sources others reading other => ?_, ?_⟩
    · obtain ⟨same, found, -, fetched⟩ := merge_last idempotent reading loads (settled loads)
      obtain rfl := Except.ok.inj (merged.symm.trans found)
      exact fetched
    · obtain ⟨one, found, -, fetched⟩ := merge_last idempotent reading loads (settled loads)
      obtain ⟨two, also_found, -, also_fetched⟩ := merge_last idempotent other loads (settled loads)
      rw [found, also_found]
      exact fun key => (fetched key).trans (also_fetched key).symm
    · rintro first second rfl sources front back
      exact overlaid_of_settled idempotent loads (settled loads)

theorem exists_reading_last {before after : List Origin} {origin : Origin} {table : Table} {value : Text}
    (loads : failure env (before ++ origin :: after) = none) (loaded : origin.load env = .ok table)
    (absent : ∀ later ∈ after, ofClass env key later.writes = [])
    (among : value ∈ ofClass env key table.entries) :
    ∃ sources flat, Reading env (before ++ origin :: after) sources ∧ merge env sources = .ok flat ∧
      fetch flat key = some value := by
  obtain ⟨entry, inside, own, rfl⟩ := mem_ofClass.mp among
  obtain ⟨front, front_read⟩ := exists_reading env before
  obtain ⟨back, back_read⟩ := exists_reading env after
  let order := table.entries.erase entry ++ [entry]
  let source : Source := ⟨origin.name, .ok order⟩
  have perm : order.Perm table.entries :=
    (List.perm_append_singleton entry _).trans (List.perm_cons_erase inside).symm
  have read : origin.Read env source := by
    refine ⟨rfl, ?_⟩
    rw [loaded]
    exact ⟨order, perm, rfl⟩
  have reading : Reading env (before ++ origin :: after) (front ++ source :: back) :=
    List.rel_append front_read (.cons read back_read)
  obtain ⟨flat, merged, -, fetched⟩ := merge_ok reading loads
  have back_loads : failure env after = none := by
    rw [failure_append, failure, loaded] at loads
    exact (Option.or_eq_none_iff.mp loads).2
  have back_absent : ofClass env key (back.flatMap Source.loaded) = [] := by
    clear reading merged fetched loads
    induction back_read with
    | nil => rfl
    | @cons later source after sources read _ ih =>
      obtain ⟨-, entries⟩ := read
      cases later_loaded : later.load env with
      | error e => simp [failure, later_loaded] at back_loads
      | ok found =>
        rw [later_loaded] at entries
        obtain ⟨order, perm, entries⟩ := entries
        rw [failure, later_loaded] at back_loads
        have none_here := load_absent idempotent later_loaded (absent later List.mem_cons_self)
        have here : ofClass env key source.loaded = [] := by
          rw [Source.loaded, entries]
          exact (none_here ▸ ofClass_perm env key perm).eq_nil
        rw [List.flatMap_cons, ofClass_append, here, List.nil_append]
        exact ih (fun other member => absent other (List.mem_cons_of_mem _ member)) back_loads
  refine ⟨_, flat, reading, merged, ?_⟩
  have here : ofClass env key source.loaded = ofClass env key (table.entries.erase entry) ++ [entry.2] := by
    have own_class : ofClass env key [entry] = [entry.2] := ofClass_own own entry.2
    change ofClass env key (_ ++ [entry]) = _
    rw [ofClass_append, own_class]
  rw [fetched, List.flatMap_append, List.flatMap_cons, ofClass_append, ofClass_append, back_absent, here]
  simp

theorem order_decides_exactly (origins : List Origin) :
    OrderDecides env origins ↔ (failure env origins = none → ∀ key, Settled env origins key) := by
  refine ⟨fun decides loads key => ?_, settled_decides idempotent⟩
  rintro before origin after table rfl absent loaded one first other second
  obtain ⟨sources, flat, reading, merged, fetched⟩ :=
    exists_reading_last idempotent loads loaded absent first
  obtain ⟨others, map, other_reading, other_merged, other_fetched⟩ :=
    exists_reading_last idempotent loads loaded absent second
  have same := decides.stable sources others reading other_reading
  rw [merged, other_merged] at same
  have values : some one = some other := fetched.symm.trans ((same key).trans other_fetched)
  exact Option.some.inj values

end Lowering

end Settling

end Order

section Spellings

def asciiEnvironment : Environment where
  var := fun _ => none
  toLowercase := fun text => text.map Char.toLower
  toUppercase := fun text => text.map Char.toUpper
  lowered := by
    intro text c among
    obtain ⟨d, -, rfl⟩ := List.mem_map.mp among
    exact Char.isUpper_toLower_eq_false d

def portFlags : List Origin := [.flags [("Web.Port".toList, "1".toList), ("web.port".toList, "2".toList)]]

theorem order_decides_ports : OrderDecides asciiEnvironment portFlags ∧
    lastWritten asciiEnvironment portFlags "web.port".toList = some "2".toList := by
  refine ⟨(order_decides_exactly (fun text => ?_) portFlags).mpr fun _ key => ?_, by decide⟩
  · simp [asciiEnvironment]
  · rintro before origin after table split - loaded one first other second
    have only : before = [] ∧
        origin = .flags [("Web.Port".toList, "1".toList), ("web.port".toList, "2".toList)] := by
      cases before with
      | nil => exact ⟨rfl, (List.cons.inj split).1.symm⟩
      | cons head before =>
        have rest := (List.cons.inj split).2
        simp at rest
    obtain ⟨-, rfl⟩ := only
    obtain rfl := Except.ok.inj loaded
    obtain ⟨entry, inside, -, rfl⟩ := mem_ofClass.mp first
    obtain ⟨entry', inside', -, rfl⟩ := mem_ofClass.mp second
    have single : ∀ entry ∈ [("web.port".toList, "2".toList)], entry.2 = "2".toList := by decide
    exact (single entry inside).trans (single entry' inside').symm

def timeoutFlags : List Origin :=
  [.flags [("server.graceful-timeout".toList, "30".toList), ("server.graceful_timeout".toList, "60".toList)]]

theorem flag_order_lost : ¬ OrderDecides asciiEnvironment timeoutFlags := by
  intro decides
  let reversed : Flat :=
    [("server.graceful_timeout".toList, "60".toList), ("server.graceful-timeout".toList, "30".toList)]
  have reading : Reading asciiEnvironment timeoutFlags [⟨"flags".toList, .ok reversed⟩] :=
    .cons ⟨rfl, reversed, .swap _ _ _, rfl⟩ .nil
  have last := decides.last _ reading _ rfl "server.graceful_timeout".toList
  exact absurd last (by decide)

end Spellings

end Firefly.Config
