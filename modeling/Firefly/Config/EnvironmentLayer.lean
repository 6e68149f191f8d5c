import Firefly.Config.MergeOrder

set_option autoImplicit false

-- A placeholder looks for one variable of its own making; the environment layer turns every
-- variable with the prefix into a key.

namespace Firefly.Config

/-- The variables whose names and values are UTF-8, in the order in which the process lists them. -/
structure Variables (env : Environment) where
  vars : Flat
  listed : ∀ name, env.var name = fetch vars name

section EnvSource

variable (env : Environment)

def stripPrefix (start : Text) (text : Text) : Option Text :=
  if start.isPrefixOf text then some (text.drop start.length) else none

theorem stripPrefix_append (start rest : Text) : stripPrefix start (start ++ rest) = some rest := by
  rw [stripPrefix, if_pos (List.isPrefixOf_iff_prefix.mpr (List.prefix_append _ _)), List.drop_left]

def EnvSource.key (start name : Text) : Option Text :=
  (stripPrefix (env.toUppercase start ++ ['_']) name).map fun rest =>
    (env.toLowercase rest).map fun c => if c = '_' then '.' else c

def EnvSource.insert (start : Text) (out : Table) (variable_ : Text × Text) : Table :=
  match EnvSource.key env start variable_.1 with
  | none => out
  | some key => out.insert key variable_.2

def EnvSource.load (start : Text) (vars : Flat) : Table :=
  vars.foldl (EnvSource.insert env start) Table.empty

def fromEnv (start : Text) (vars : Flat) : Origin :=
  .other ("env(".toList ++ start ++ ")".toList) (.ok (EnvSource.load env start vars))

def Survives (start : Text) (vars : Flat) (key value : Text) : Prop :=
  ∃ before name after, vars = before ++ (name, value) :: after ∧
    EnvSource.key env start name = some key ∧ ∀ later ∈ after, EnvSource.key env start later.1 ≠ some key

def Provided (start : Text) (vars : Flat) (key value : Text) : Prop :=
  (∃ raw text, Survives env start vars raw text ∧ normalizeKey env raw = key) ∧
    ∀ raw text, Survives env start vars raw text → normalizeKey env raw = key → text = value

def Overridden (vars : Flat) (key value : Text) : Prop :=
  ∀ origins, failure env origins = none →
    ∀ sources, Reading env (origins ++ [fromEnv env "FIREFLY".toList vars]) sources →
      ∃ flat, merge env sources = .ok flat ∧ fetch flat (normalizeKey env key) = some value

variable {env} {start key value : Text} {vars flat : Flat}

theorem mem_insertKey (flat : Flat) (key value : Text) (entry : Text × Text) :
    entry ∈ insertKey flat key value ↔ entry = (key, value) ∨ entry.1 ≠ key ∧ entry ∈ flat := by
  unfold insertKey
  split
  · rename_i present
    obtain ⟨old, among, same⟩ := List.any_eq_true.mp present
    rw [List.mem_map]
    constructor
    · rintro ⟨other, inside, rfl⟩
      by_cases here : other.1 = key
      · exact .inl (if_pos here)
      · rw [if_neg here]
        exact .inr ⟨here, inside⟩
    · rintro (rfl | ⟨apart, inside⟩)
      · exact ⟨old, among, if_pos (by simpa using same)⟩
      · exact ⟨entry, inside, if_neg apart⟩
  · rename_i absent
    rw [List.mem_append, List.mem_singleton, or_comm]
    have apart : entry ∈ flat → entry.1 ≠ key := fun inside same =>
      absent (List.any_eq_true.mpr ⟨entry, inside, by simp [same]⟩)
    exact or_congr_right ⟨fun inside => ⟨apart inside, inside⟩, And.right⟩

theorem survives_concat (vars : Flat) (name text : Text) :
    Survives env start (vars ++ [(name, text)]) key value ↔
      (EnvSource.key env start name = some key ∧ text = value) ∨
        (EnvSource.key env start name ≠ some key ∧ Survives env start vars key value) := by
  constructor
  · rintro ⟨before, found, after, split, read, last⟩
    rcases after.eq_nil_or_concat with rfl | ⟨inner, final, rfl⟩
    · obtain ⟨rfl, same⟩ := List.append_inj' split rfl
      obtain ⟨rfl, rfl⟩ := Prod.mk.inj (List.singleton_injective same)
      exact .inl ⟨read, rfl⟩
    · have split : vars ++ [(name, text)] = before ++ (found, value) :: inner ++ [final] := by
        simpa using split
      obtain ⟨rfl, same⟩ := List.append_inj' split rfl
      obtain rfl := List.singleton_injective same
      exact .inr ⟨last (name, text) (by simp), before, found, inner, rfl, read,
        fun later among => last later (by simp [among])⟩
  · rintro (⟨read, rfl⟩ | ⟨apart, before, found, after, rfl, read, last⟩)
    · exact ⟨vars, name, [], rfl, read, by simp⟩
    · refine ⟨before, found, after ++ [(name, text)], by simp, read, fun later among => ?_⟩
      rcases List.mem_append.mp among with inside | final
      · exact last later inside
      · obtain rfl := List.mem_singleton.mp final
        exact apart

theorem mem_load (vars : Flat) (key value : Text) :
    (key, value) ∈ (EnvSource.load env start vars).entries ↔ Survives env start vars key value := by
  induction vars using List.reverseRecOn with
  | nil =>
    refine ⟨fun among => ?_, ?_⟩
    · simp [EnvSource.load, Table.empty] at among
    · rintro ⟨before, _, _, split, -⟩
      simp at split
  | append_singleton vars last ih =>
    rw [survives_concat, ← ih, EnvSource.load, List.foldl_append]
    change (key, value) ∈ (EnvSource.insert env start (EnvSource.load env start vars) last).entries ↔ _
    rw [EnvSource.insert]
    cases read : EnvSource.key env start last.1 with
    | none => simp
    | some own =>
      change (key, value) ∈ insertKey _ own last.2 ↔ _
      rw [mem_insertKey]
      simp only [Prod.mk.injEq, Option.some.injEq, ne_eq]
      grind

theorem mem_class_load (vars : Flat) (key value : Text) :
    value ∈ ofClass env key (EnvSource.load env start vars).entries ↔
      ∃ raw, Survives env start vars raw value ∧ normalizeKey env raw = key := by
  rw [mem_ofClass]
  constructor
  · rintro ⟨entry, among, own, rfl⟩
    exact ⟨entry.1, (mem_load vars entry.1 entry.2).mp among, own⟩
  · rintro ⟨raw, survives, own⟩
    exact ⟨(raw, value), (mem_load vars raw value).mpr survives, own, rfl⟩

theorem provided_iff (vars : Flat) (key value : Text) : Provided env start vars key value ↔
    ofClass env key (EnvSource.load env start vars).entries ≠ [] ∧
      ∀ text ∈ ofClass env key (EnvSource.load env start vars).entries, text = value := by
  constructor
  · rintro ⟨⟨raw, text, survives, own⟩, all⟩
    have among := (mem_class_load vars key text).mpr ⟨raw, survives, own⟩
    refine ⟨List.ne_nil_of_mem among, fun other among => ?_⟩
    obtain ⟨raw, survives, own⟩ := (mem_class_load vars key other).mp among
    exact all raw other survives own
  · rintro ⟨some_text, all⟩
    obtain ⟨text, among⟩ := List.exists_mem_of_ne_nil _ some_text
    obtain ⟨raw, survives, own⟩ := (mem_class_load vars key text).mp among
    exact ⟨⟨raw, text, survives, own⟩, fun raw other survives own =>
      all other ((mem_class_load vars key other).mpr ⟨raw, survives, own⟩)⟩

theorem reading_concat {origins : List Origin} {origin : Origin} {sources : List Source}
    (reading : Reading env (origins ++ [origin]) sources) :
    ∃ front source, sources = front ++ [source] ∧ origin.Read env source := by
  induction origins generalizing sources with
  | nil =>
    obtain ⟨source, rest, read, none, rfl⟩ := List.forall₂_cons_left_iff.mp reading
    obtain rfl := List.forall₂_nil_left_iff.mp none
    exact ⟨[], source, rfl, read⟩
  | cons first origins ih =>
    obtain ⟨head, rest, -, others, rfl⟩ := List.forall₂_cons_left_iff.mp reading
    obtain ⟨front, source, rfl, read⟩ := ih others
    exact ⟨head :: front, source, rfl, read⟩

theorem overridden_of_provided
    (provided : Provided env "FIREFLY".toList vars (normalizeKey env key) value) :
    Overridden env vars key value := by
  obtain ⟨some_text, all⟩ := (provided_iff vars _ value).mp provided
  intro origins loads sources reading
  have concat_loads : failure env (origins ++ [fromEnv env "FIREFLY".toList vars]) = none := by
    rw [failure_append, loads]
    rfl
  obtain ⟨flat, merged, -, fetched⟩ := merge_ok reading concat_loads
  refine ⟨flat, merged, ?_⟩
  obtain ⟨front, source, rfl, -, order, perm, entries⟩ := reading_concat reading
  have here : source.loaded = order := by rw [Source.loaded, entries]
  have classes := ofClass_perm env (normalizeKey env key) perm
  rw [fetched, List.flatMap_append, ofClass_append, List.getLast?_append]
  simp only [List.flatMap_singleton, here]
  cases last : (ofClass env (normalizeKey env key) order).getLast? with
  | none =>
    rw [List.getLast?_eq_none_iff.mp last] at classes
    exact absurd classes.nil_eq.symm some_text
  | some text =>
    rw [all text (classes.subset (List.mem_of_getLast? last))]
    rfl

theorem provided_of_overridden (overridden : Overridden env vars key value) :
    Provided env "FIREFLY".toList vars (normalizeKey env key) value := by
  have alone : ∀ order : Flat, order.Perm (EnvSource.load env "FIREFLY".toList vars).entries →
      (ofClass env (normalizeKey env key) order).getLast? = some value := by
    intro order perm
    have reading : Reading env [fromEnv env "FIREFLY".toList vars]
        [⟨"env(".toList ++ "FIREFLY".toList ++ ")".toList, .ok order⟩] :=
      .cons ⟨rfl, order, perm, rfl⟩ .nil
    obtain ⟨flat, merged, found⟩ := overridden [] rfl _ reading
    obtain ⟨same, also_merged, -, fetched⟩ := merge_ok reading rfl
    obtain rfl := Except.ok.inj (merged.symm.trans also_merged)
    rw [fetched] at found
    simpa [Source.loaded] using found
  refine (provided_iff vars _ value).mpr ⟨fun none => ?_, fun text among => ?_⟩
  · have last := alone _ (.refl _)
    rw [none] at last
    cases last
  · obtain ⟨entry, inside, own, rfl⟩ := mem_ofClass.mp among
    have last := alone ((EnvSource.load env "FIREFLY".toList vars).entries.erase entry ++ [entry])
      ((List.perm_append_singleton entry _).trans (List.perm_cons_erase inside).symm)
    have here : ofClass env (normalizeKey env key) [entry] = [entry.2] := ofClass_own own entry.2
    rw [ofClass_append, here, List.getLast?_concat] at last
    exact Option.some.inj last

end EnvSource

section Naming

variable {env : Environment} {key : Text} {c : Char}

/-- The case mappings on ASCII. -/
structure AsciiCase (env : Environment) : Prop where
  lower : ∀ text : Text, (∀ c ∈ text, c.toNat < 128) → env.toLowercase text = text.map Char.toLower
  upper : ∀ text : Text, (∀ c ∈ text, c.toNat < 128) → env.toUppercase text = text.map Char.toUpper

def isKeyChar (c : Char) : Bool := c.isLower || c.isDigit || c == '.' || c == '-' || c == '_'

def Plain (key : Text) : Prop :=
  ¬ "firefly.".toList <+: key ∧ '-' ∉ key ∧ '_' ∉ key

theorem toNat_lt_of_isKeyChar (keyed : isKeyChar c = true) : c.toNat < 128 := by
  simp only [isKeyChar, Char.isLower, Char.isDigit, Bool.or_eq_true, Bool.and_eq_true,
    decide_eq_true_eq, beq_iff_eq] at keyed
  rcases keyed with (((⟨-, high⟩ | ⟨-, high⟩) | rfl) | rfl) | rfl
  · exact lt_of_le_of_lt (UInt32.le_iff_toNat_le.mp high) (by decide)
  · exact lt_of_le_of_lt (UInt32.le_iff_toNat_le.mp high) (by decide)
  · decide
  · decide
  · decide

theorem not_isUpper_of_isKeyChar (keyed : isKeyChar c = true) : c.isUpper = false := by
  simp only [isKeyChar, Char.isLower, Char.isDigit, Bool.or_eq_true, Bool.and_eq_true,
    decide_eq_true_eq, beq_iff_eq] at keyed
  rcases keyed with (((⟨low, -⟩ | ⟨-, high⟩) | rfl) | rfl) | rfl
  · simp [Char.isUpper, UInt32.le_iff_toNat_le] at low ⊢
    omega
  · simp [Char.isUpper, UInt32.le_iff_toNat_le] at high ⊢
    omega
  · rfl
  · rfl
  · rfl

theorem toLower_of_isKeyChar (keyed : isKeyChar c = true) : c.toLower = c :=
  Char.toLower_eq_of_not_isUpper (by rw [not_isUpper_of_isKeyChar keyed]; simp)

theorem toLower_toUpper_of_isKeyChar (keyed : isKeyChar c = true) : c.toUpper.toLower = c := by
  rw [Char.toLower_toUpper_eq_toLower, toLower_of_isKeyChar keyed]

theorem toUpper_lt_of_isKeyChar (keyed : isKeyChar c = true) : c.toUpper.toNat < 128 := by
  cases upper : c.toUpper.isUpper with
  | true =>
    simp [Char.isUpper, UInt32.le_iff_toNat_le] at upper
    exact lt_of_le_of_lt upper.2 (by decide)
  | false =>
    have back := toLower_toUpper_of_isKeyChar keyed
    rw [Char.toLower_eq_of_not_isUpper (by rw [upper]; simp)] at back
    rw [back]
    exact toNat_lt_of_isKeyChar keyed

def fold (marks : List Char) (mark c : Char) : Char := if c ∈ marks then mark else c

theorem normalizeKey_keyed (ascii : AsciiCase env) (keyed : ∀ c ∈ key, isKeyChar c = true) :
    normalizeKey env key = key.map (fold ['-'] '_') := by
  rw [normalizeKey, ascii.lower key fun c among => toNat_lt_of_isKeyChar (keyed c among), List.map_map]
  refine List.map_congr_left fun c among => ?_
  simp [fold, toLower_of_isKeyChar (keyed c among)]

theorem fold_raised (keyed : isKeyChar c = true) :
    (fun c => if c = '_' then '.' else c)
      (Char.toLower (if c.toUpper = '.' ∨ c.toUpper = '-' then '_' else c.toUpper)) =
    fold ['.', '-', '_'] '.' c := by
  have back := toLower_toUpper_of_isKeyChar keyed
  by_cases dot : c.toUpper = '.'
  · obtain rfl : c = '.' := by rw [← back, dot]; rfl
    rfl
  · by_cases dash : c.toUpper = '-'
    · obtain rfl : c = '-' := by rw [← back, dash]; rfl
      rfl
    · have apart : c ≠ '.' ∧ c ≠ '-' := by
        constructor
        · rintro rfl
          exact dot rfl
        · rintro rfl
          exact dash rfl
      simp [dot, dash, back, fold, apart.1, apart.2]

def base (key : Text) : Text := if "firefly.".toList.isPrefixOf key then key.drop 8 else key

theorem base_keyed (keyed : ∀ c ∈ key, isKeyChar c = true) : ∀ c ∈ base key, isKeyChar c = true := by
  intro c among
  unfold base at among
  split at among
  · exact keyed c (List.mem_of_mem_drop among)
  · exact keyed c among

theorem key_envKey (ascii : AsciiCase env) (keyed : ∀ c ∈ key, isKeyChar c = true) :
    EnvSource.key env "FIREFLY".toList (envKey env key) =
      some ((base key).map (fold ['.', '-', '_'] '.')) := by
  have keyed := base_keyed keyed
  have want : env.toUppercase "FIREFLY".toList ++ ['_'] = "FIREFLY_".toList := by
    rw [ascii.upper _ (by simp)]
    rfl
  have raised : env.toUppercase (base key) = (base key).map Char.toUpper :=
    ascii.upper _ fun c among => toNat_lt_of_isKeyChar (keyed c among)
  let rest := (base key).map fun c => if c.toUpper = '.' ∨ c.toUpper = '-' then '_' else c.toUpper
  have named : envKey env key = "FIREFLY_".toList ++ rest := by
    change _ ++ (env.toUppercase (base key)).map _ = _
    rw [raised, List.map_map]
    rfl
  have small : ∀ c ∈ rest, c.toNat < 128 := by
    intro c among
    obtain ⟨d, inside, rfl⟩ := List.mem_map.mp among
    split
    · decide
    · exact toUpper_lt_of_isKeyChar (keyed d inside)
  rw [EnvSource.key, want, named, stripPrefix_append, Option.map_some, ascii.lower rest small, List.map_map,
    List.map_map]
  exact congrArg some (List.map_congr_left fun c among => fold_raised (keyed c among))

theorem read_as_own_key_iff (ascii : AsciiCase env) (keyed : ∀ c ∈ key, isKeyChar c = true) :
    (∃ raw, EnvSource.key env "FIREFLY".toList (envKey env key) = some raw ∧
      normalizeKey env raw = normalizeKey env key) ↔ Plain key := by
  have raw_keyed : ∀ c ∈ (base key).map (fold ['.', '-', '_'] '.'), isKeyChar c = true := by
    intro c among
    obtain ⟨d, inside, rfl⟩ := List.mem_map.mp among
    unfold fold
    split
    · rfl
    · exact base_keyed keyed d inside
  have raw_normal : normalizeKey env ((base key).map (fold ['.', '-', '_'] '.')) =
      (base key).map (fold ['.', '-', '_'] '.') := by
    rw [normalizeKey_keyed ascii raw_keyed]
    refine (List.map_congr_left fun c among => ?_).trans (List.map_id _)
    have no_dash : c ≠ '-' := by
      obtain ⟨d, -, rfl⟩ := List.mem_map.mp among
      unfold fold
      split <;> simp_all
    simp [fold, no_dash]
  simp only [key_envKey ascii keyed, Option.some.injEq, exists_eq_left', raw_normal,
    normalizeKey_keyed ascii keyed]
  constructor
  · intro same
    have unstripped : ¬ "firefly.".toList <+: key := by
      intro stripped
      have short : base key = key.drop 8 := if_pos (List.isPrefixOf_iff_prefix.mpr stripped)
      have lengths := congrArg List.length same
      have long : 8 ≤ key.length := stripped.length_le
      simp only [short, List.length_map, List.length_drop] at lengths
      omega
    have whole : base key = key := if_neg (by simpa using unstripped)
    rw [whole] at same
    have each := List.map_inj_left.mp same
    refine ⟨unstripped, fun dash => ?_, fun score => ?_⟩
    · exact absurd (each '-' dash) (by decide)
    · exact absurd (each '_' score) (by decide)
  · rintro ⟨unstripped, no_dash, no_score⟩
    have whole : base key = key := if_neg (by simpa using unstripped)
    rw [whole]
    refine List.map_congr_left fun c among => ?_
    have apart : c ≠ '-' ∧ c ≠ '_' :=
      ⟨fun same => no_dash (same ▸ among), fun same => no_score (same ▸ among)⟩
    by_cases dot : c = '.' <;> simp [fold, apart.1, apart.2, dot]

end Naming

section Agreement

variable {env : Environment}

theorem environment_overrides_exactly (ascii : AsciiCase env) (listing : Variables env) (key : Text) :
    ((∀ value, env.var (envKey env key) = some value → Overridden env listing.vars key value) ↔
      ∀ value, env.var (envKey env key) = some value →
        Provided env "FIREFLY".toList listing.vars (normalizeKey env key) value) ∧
    ((∀ c ∈ key, isKeyChar c = true) →
      ((∃ raw, EnvSource.key env "FIREFLY".toList (envKey env key) = some raw ∧
        normalizeKey env raw = normalizeKey env key) ↔ Plain key)) :=
  ⟨forall_congr' fun _ => imp_congr_right fun _ => ⟨provided_of_overridden, overridden_of_provided⟩,
    read_as_own_key_iff ascii⟩

def environmentOf (vars : Flat) : Environment := { asciiEnvironment with var := fetch vars }

theorem environmentOf_ascii (vars : Flat) : AsciiCase (environmentOf vars) :=
  ⟨fun _ _ => rfl, fun _ _ => rfl⟩

def portVariables : Flat := [("PATH".toList, "/bin".toList), ("FIREFLY_WEB_PORT".toList, "8081".toList)]

theorem port_overridden :
    (environmentOf portVariables).var (envKey (environmentOf portVariables) "web.port".toList) =
      some "8081".toList ∧
    Overridden (environmentOf portVariables) portVariables "web.port".toList "8081".toList := by
  have agree := (environment_overrides_exactly (environmentOf_ascii portVariables) ⟨portVariables, fun _ => rfl⟩
    "web.port".toList).1.mpr
  have named : (environmentOf portVariables).var (envKey (environmentOf portVariables) "web.port".toList) =
    some "8081".toList := by decide
  refine ⟨named, agree (fun value same => ?_) _ named⟩
  obtain rfl := Option.some.inj (named.symm.trans same)
  exact (provided_iff _ _ _).mpr ⟨by decide, by decide⟩

def shopVariables : Flat := [("FIREFLY_APP_DISPLAY_NAME".toList, "Shop".toList)]

theorem display_name_not_overridden :
    (environmentOf shopVariables).var (envKey (environmentOf shopVariables) "app.display-name".toList) =
      some "Shop".toList ∧
    ¬ Overridden (environmentOf shopVariables) shopVariables "app.display-name".toList "Shop".toList := by
  refine ⟨by decide, fun overridden => ?_⟩
  let yaml : Table := ⟨[("app.display-name".toList, "Old".toList)], by decide⟩
  have reading : Reading (environmentOf shopVariables)
      ([.other "yaml(application.yaml)".toList (.ok yaml)] ++
        [fromEnv (environmentOf shopVariables) "FIREFLY".toList shopVariables])
      [⟨"yaml(application.yaml)".toList, .ok yaml.entries⟩,
        ⟨"env(FIREFLY)".toList, .ok [("app.display.name".toList, "Shop".toList)]⟩] :=
    .cons ⟨rfl, _, .refl _, rfl⟩ (.cons ⟨rfl, _, .refl _, rfl⟩ .nil)
  obtain ⟨flat, merged, found⟩ := overridden _ rfl _ reading
  obtain rfl := Except.ok.inj (show Except.ok _ = Except.ok flat from merged)
  exact absurd found (by decide)

end Agreement

end Firefly.Config
