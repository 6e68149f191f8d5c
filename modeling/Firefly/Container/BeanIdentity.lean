import Firefly.Container.Beans

set_option autoImplicit false

namespace Firefly.Container.Beans

open Runs Tables

variable {app : App} {r : Registry} {s s' : State}

def Registry.Reachable (r : Registry) (reg : Registration) : Prop :=
  (∃ type, reg ∈ r.byType type) ∨ ∃ name, r.byName name = some reg

def Registry.Live (r : Registry) (id : Nat) : Prop := ∃ reg ∈ r.registered, reg.id = id

def Registry.OnlyBound (r : Registry) (interface implementation : Nat) : Prop :=
  r.binds.filter (·.1 = interface) = [(interface, implementation)]

def Registry.Singleton (r : Registry) (type : Nat) : Prop :=
  ∀ reg ∈ r.registered, reg.implType = type → reg.scope = .builtin .singleton

structure ResolveToThemselves (app : App) (s : State) : Prop where
  named : ∀ h ∈ s.handouts, ∀ type name, h.query = .named type name →
    h.latest = some h.handed.producer
  apart : ∀ a ∈ s.handouts, ∀ b ∈ s.handouts, s.registry.Live a.registration →
    s.registry.Live b.registration → a.registration ≠ b.registration → a.handed ≠ b.handed
  bound : ∀ interface implementation, s.registry.OnlyBound interface implementation →
    s.registry.Singleton implementation → ∀ x,
      ((resolve app (.type (.interface interface)) s).1 = .ok x →
        (resolve app (.type (.bean implementation))
          (resolve app (.type (.interface interface)) s).2).1 = .ok x) ∧
      ((resolve app (.type (.bean implementation)) s).1 = .ok x →
        (resolve app (.type (.interface interface))
          (resolve app (.type (.bean implementation)) s).2).1 = .ok x)

def Registration.KeptBy (reg : Registration) (app : App) (handler : Nat) : Prop :=
  reg.scope.handled = true ∧ app.handlers reg.scope.name = some handler

/-- A registration that a handler is to keep finds nothing there under its type name, and no other
registration under it but the one that it replaces, which no interface is bound to. A registration
of a type that is bound to an interface leaves `resolve` to choose the bound one; and `bind` takes
the one that `resolve` chooses. -/
def Fresh (app : App) (s : State) : Choice → Prop
  | .register type scope name primary =>
    (∀ handler, (newRegistration app s.registry type scope name primary).KeptBy app handler →
      s.caches handler (newRegistration app s.registry type scope name primary).cacheKey = none ∧
      ∀ other, s.registry.Reachable other → other.KeptBy app handler →
        other.cacheKey = (newRegistration app s.registry type scope name primary).cacheKey →
          other.implType = type ∧ other.name = name ∧
            ∀ interface, other ∉ s.registry.byType (.interface interface)) ∧
    ∀ interface bound, s.registry.OnlyBound interface type →
      s.registry.byType (.interface interface) = [bound] →
        bound.name ≠ name ∧ bound.primary = true ∧ primary = false
  | .bind _ implementation => ∀ reg,
      (s.registry.byType (.bean implementation)).find? (·.implType = implementation) = some reg →
        chooseEntry app s.registry (.bean implementation) = .ok reg
  | _ => True

structure Registry.Coherent (app : App) (r : Registry) : Prop where
  known : ∀ reg, r.Reachable reg → reg.id < r.nextId
  told : ∀ a b, r.Reachable a → r.Reachable b → a.id = b.id → a = b
  own : ∀ type reg, reg ∈ r.byType (.bean type) → reg ∈ r.registered ∧ reg.implType = type
  typed : ∀ reg, r.Reachable reg → reg.implType ∈ r.registered.map (·.implType)
  named : ∀ name reg, r.byName name = some reg →
    name ≠ "" ∧ reg.name = name ∧ r.latest name = some reg.id
  alone : ∀ a b handler, r.Reachable a → r.Reachable b → a.KeptBy app handler →
    b.KeptBy app handler → a.cacheKey = b.cacheKey → a = b
  unbound : ∀ interface, r.binds.filter (·.1 = interface) = [] → r.byType (.interface interface) = []
  bound : ∀ interface implementation, r.OnlyBound interface implementation →
    ∃ reg, r.byType (.interface interface) = [reg] ∧ chooseEntry app r (.bean implementation) = .ok reg

theorem mem_of_chooseEntry {type : TypeId} {reg : Registration}
    (chosen : chooseEntry app r type = .ok reg) : reg ∈ r.byType type := by
  unfold chooseEntry at chosen
  split at chosen
  · cases chosen
  next only entries =>
    obtain rfl := Except.ok.inj chosen
    simp [entries]
  · split at chosen
    next primary entries =>
      obtain rfl := Except.ok.inj chosen
      exact List.mem_of_mem_filter (entries ▸ List.mem_singleton_self _)
    · cases chosen

theorem chooseEntry_congr {r' : Registry} {type : TypeId} (same : r'.byType type = r.byType type) :
    chooseEntry app r' type = chooseEntry app r type := by
  simp only [chooseEntry, same]

theorem chooseEntry_of_sole {type : TypeId} {reg : Registration} (sole : r.byType type = [reg]) :
    chooseEntry app r type = .ok reg := by
  simp [chooseEntry, sole]

theorem chooseEntry_of_primary {type : TypeId} {reg : Registration}
    (primaries : (r.byType type).filter (·.primary) = [reg]) :
    chooseEntry app r type = .ok reg := by
  unfold chooseEntry
  split
  next empty => simp [empty] at primaries
  next only entries =>
    rw [entries] at primaries
    have among : reg ∈ [only].filter (·.primary) := primaries ▸ List.mem_singleton_self _
    rw [List.mem_singleton.mp (List.mem_of_mem_filter among)]
  next entries _ _ => simp [primaries]

theorem primary_of_chosen {type : TypeId} {reg : Registration}
    (chosen : chooseEntry app r type = .ok reg) (primary : reg.primary = true) :
    (r.byType type).filter (·.primary) = [reg] := by
  unfold chooseEntry at chosen
  split at chosen
  · cases chosen
  next only entries =>
    obtain rfl := Except.ok.inj chosen
    simp [entries, primary]
  · split at chosen
    next sole entries =>
      obtain rfl := Except.ok.inj chosen
      exact entries
    · cases chosen

section Install

variable {type : Nat} {scope : ScopeSpec} {name : String} {primary : Bool}

theorem mem_without {reg : Registration} {regs : List Registration} :
    reg ∈ without type name regs ↔ reg ∈ regs ∧ ¬ (reg.implType = type ∧ reg.name = name) := by
  simp only [without, List.mem_filter, decide_eq_true_eq]

theorem reachable_of_install {other : Registration}
    (reached : (install app r type scope name primary).Reachable other) :
    other = newRegistration app r type scope name primary ∨ r.Reachable other := by
  rcases reached with ⟨key, among⟩ | ⟨called, there⟩
  · by_cases same : key = .bean type
    · subst same
      simp only [install, Function.update_self, List.mem_append, List.mem_singleton] at among
      rcases among with before | rfl
      · exact .inr (.inl ⟨_, (mem_without.mp before).1⟩)
      · exact .inl rfl
    · simp only [install, Function.update_of_ne same] at among
      exact .inr (.inl ⟨key, among⟩)
  · by_cases unnamed : name = ""
    · exact .inr (.inr ⟨called, by simpa [install, unnamed] using there⟩)
    · simp only [install, unnamed, if_false] at there
      rcases update_eq_some.mp there with ⟨-, rfl⟩ | ⟨-, before⟩
      · exact .inl rfl
      · exact .inr (.inr ⟨called, before⟩)

theorem typed_install {other : Nat} (typed : other = type ∨ other ∈ r.registered.map (·.implType)) :
    other ∈ (install app r type scope name primary).registered.map (·.implType) := by
  rw [List.mem_map]
  rcases typed with rfl | before
  · exact ⟨_, List.mem_append_right _ (List.mem_singleton_self _), rfl⟩
  · obtain ⟨reg, listed, same⟩ := List.mem_map.mp before
    by_cases replaced : reg.implType = type ∧ reg.name = name
    · exact ⟨_, List.mem_append_right _ (List.mem_singleton_self _), replaced.1.symm.trans same⟩
    · exact ⟨reg, List.mem_append_left _ (mem_without.mpr ⟨listed, replaced⟩), same⟩

theorem reachable_install {other : Registration} (coherent : r.Coherent app)
    (reached : (install app r type scope name primary).Reachable other) :
    other = newRegistration app r type scope name primary ∨
      r.Reachable other ∧ (other.implType = type → other.name = name →
        ∃ interface, other ∈ r.byType (.interface interface)) := by
  rcases reached with ⟨key, among⟩ | ⟨called, there⟩
  · cases key with
    | interface interface =>
      have among : other ∈ r.byType (.interface interface) := by
        simpa [install] using among
      exact .inr ⟨.inl ⟨_, among⟩, fun _ _ => ⟨interface, among⟩⟩
    | bean bean =>
      by_cases same : bean = type
      · subst same
        simp only [install, Function.update_self, List.mem_append, List.mem_singleton] at among
        rcases among with before | rfl
        · obtain ⟨before, kept⟩ := mem_without.mp before
          exact .inr ⟨.inl ⟨_, before⟩, fun typed called => absurd ⟨typed, called⟩ kept⟩
        · exact .inl rfl
      · have among : other ∈ r.byType (.bean bean) := by
          simpa [install, Function.update_of_ne, same] using among
        refine .inr ⟨.inl ⟨_, among⟩, fun typed _ => ?_⟩
        exact absurd ((coherent.own bean other among).2.symm.trans typed) same
  · by_cases unnamed : name = ""
    · have there : r.byName called = some other := by simpa [install, unnamed] using there
      obtain ⟨nonempty, own, -⟩ := coherent.named called other there
      refine .inr ⟨.inr ⟨called, there⟩, fun _ same => ?_⟩
      exact absurd (own.symm.trans (same.trans unnamed)) nonempty
    · simp only [install, unnamed, if_false] at there
      rcases update_eq_some.mp there with ⟨-, rfl⟩ | ⟨differs, before⟩
      · exact .inl rfl
      · refine .inr ⟨.inr ⟨called, before⟩, fun _ same => ?_⟩
        exact absurd ((coherent.named called other before).2.1.symm.trans same) differs

theorem chooseEntry_install {bean : Nat} {bound : Registration}
    (chosen : chooseEntry app r (.bean bean) = .ok bound)
    (steady : bean = type → bound.name ≠ name ∧ bound.primary = true ∧ primary = false) :
    chooseEntry app (install app r type scope name primary) (.bean bean) = .ok bound := by
  by_cases same : bean = type
  · subst same
    obtain ⟨differs, first, second⟩ := steady rfl
    apply chooseEntry_of_primary
    have primaries := primary_of_chosen chosen first
    simp only [install, Function.update_self, List.filter_append, without]
    rw [List.filter_comm, primaries]
    simp [newRegistration, differs, second]
  · refine (chooseEntry_congr ?_).trans chosen
    simp [install, Function.update_of_ne, same]

theorem Registry.Coherent.install (coherent : r.Coherent app)
    (sole : ∀ handler, (newRegistration app r type scope name primary).KeptBy app handler →
      ∀ other, r.Reachable other → other.KeptBy app handler →
        other.cacheKey = (newRegistration app r type scope name primary).cacheKey →
          other.implType = type ∧ other.name = name ∧
            ∀ interface, other ∉ r.byType (.interface interface))
    (steady : ∀ interface bound, r.OnlyBound interface type → r.byType (.interface interface) = [bound] →
      bound.name ≠ name ∧ bound.primary = true ∧ primary = false) :
    (Beans.install app r type scope name primary).Coherent app where
  known := by
    intro reg reached
    rcases reachable_install coherent reached with rfl | ⟨before, -⟩
    · exact Nat.lt_succ_self _
    · exact Nat.lt_succ_of_lt (coherent.known reg before)
  told := by
    have fresh : ∀ reg, r.Reachable reg → reg.id ≠ r.nextId := fun reg reached =>
      Nat.ne_of_lt (coherent.known reg reached)
    intro a b reachA reachB same
    rcases reachable_install coherent reachA with rfl | ⟨beforeA, -⟩
    · rcases reachable_install coherent reachB with rfl | ⟨beforeB, -⟩
      · rfl
      · exact absurd same.symm (fresh b beforeB)
    · rcases reachable_install coherent reachB with rfl | ⟨beforeB, -⟩
      · exact absurd same (fresh a beforeA)
      · exact coherent.told a b beforeA beforeB same
  own := by
    intro bean reg among
    by_cases same : bean = type
    · subst same
      simp only [Beans.install, Function.update_self, List.mem_append, List.mem_singleton] at among ⊢
      rcases among with before | rfl
      · obtain ⟨before, kept⟩ := mem_without.mp before
        obtain ⟨listed, typed⟩ := coherent.own bean reg before
        exact ⟨.inl (mem_without.mpr ⟨listed, kept⟩), typed⟩
      · exact ⟨.inr rfl, rfl⟩
    · have among : reg ∈ r.byType (.bean bean) := by
        simpa [Beans.install, Function.update_of_ne, same] using among
      obtain ⟨listed, typed⟩ := coherent.own bean reg among
      refine ⟨List.mem_append_left _ (mem_without.mpr ⟨listed, fun both => ?_⟩), typed⟩
      exact same (typed.symm.trans both.1)
  typed := by
    intro reg reached
    rcases reachable_of_install reached with rfl | before
    · exact typed_install (.inl rfl)
    · exact typed_install (.inr (coherent.typed reg before))
  named := by
    intro called reg there
    by_cases unnamed : name = ""
    · have there : r.byName called = some reg := by simpa [Beans.install, unnamed] using there
      obtain ⟨nonempty, own, last⟩ := coherent.named called reg there
      refine ⟨nonempty, own, ?_⟩
      simpa [Beans.install, unnamed, Function.update_of_ne nonempty] using last
    · simp only [Beans.install, unnamed, if_false] at there ⊢
      rcases update_eq_some.mp there with ⟨rfl, rfl⟩ | ⟨differs, before⟩
      · exact ⟨unnamed, rfl, Function.update_self ..⟩
      · obtain ⟨nonempty, own, last⟩ := coherent.named called reg before
        exact ⟨nonempty, own, by rw [Function.update_of_ne differs, last]⟩
  alone := by
    have apart : ∀ handler other, r.Reachable other →
        (other.implType = type → other.name = name → ∃ interface, other ∈ r.byType (.interface interface)) →
        (newRegistration app r type scope name primary).KeptBy app handler → other.KeptBy app handler →
        other.cacheKey ≠ (newRegistration app r type scope name primary).cacheKey := by
      intro handler other before replaced keptNew kept same
      obtain ⟨typed, called, unbound⟩ := sole handler keptNew other before kept same
      obtain ⟨interface, among⟩ := replaced typed called
      exact unbound interface among
    intro a b handler reachA reachB keptA keptB same
    rcases reachable_install coherent reachA with rfl | ⟨beforeA, replacedA⟩
    · rcases reachable_install coherent reachB with rfl | ⟨beforeB, replacedB⟩
      · rfl
      · exact absurd same.symm (apart handler b beforeB replacedB keptA keptB)
    · rcases reachable_install coherent reachB with rfl | ⟨beforeB, replacedB⟩
      · exact absurd same (apart handler a beforeA replacedA keptB keptA)
      · exact coherent.alone a b handler beforeA beforeB keptA keptB same
  unbound := by
    intro interface none
    simpa [Beans.install] using coherent.unbound interface none
  bound := by
    intro interface implementation only
    obtain ⟨reg, entries, chosen⟩ := coherent.bound interface implementation only
    refine ⟨reg, by simpa [Beans.install] using entries, chooseEntry_install chosen ?_⟩
    rintro rfl
    exact steady interface reg only entries

end Install

theorem reachable_of_bind {r' : Registry} {interface implementation : Nat} {other : Registration}
    (bound : Beans.bind r interface implementation = some r') (reached : r'.Reachable other) :
    r.Reachable other := by
  obtain ⟨reg, first, rfl⟩ := Option.map_eq_some_iff.mp bound
  rcases reached with ⟨key, among⟩ | called
  · by_cases same : key = .interface interface
    · subst same
      simp only [Function.update_self, List.mem_append, List.mem_singleton] at among
      rcases among with before | rfl
      · exact .inl ⟨_, before⟩
      · exact .inl ⟨_, List.mem_of_find?_eq_some first⟩
    · simp only [Function.update_of_ne same] at among
      exact .inl ⟨key, among⟩
  · exact .inr called

theorem Registry.Coherent.bind (coherent : r.Coherent app) {r' : Registry}
    {interface implementation : Nat}
    (choosing : ∀ reg, (r.byType (.bean implementation)).find? (·.implType = implementation) = some reg →
      chooseEntry app r (.bean implementation) = .ok reg)
    (bound : Beans.bind r interface implementation = some r') :
    r'.Coherent app ∧ ∀ other, r'.Reachable other → r.Reachable other := by
  have reached : ∀ other, r'.Reachable other → r.Reachable other := fun _ => reachable_of_bind bound
  obtain ⟨reg, first, rfl⟩ := Option.map_eq_some_iff.mp bound
  have beans : ∀ bean, Function.update r.byType (.interface interface)
      (r.byType (.interface interface) ++ [reg]) (.bean bean) = r.byType (.bean bean) := fun bean =>
    Function.update_of_ne (by simp) ..
  refine ⟨?_, reached⟩
  constructor
  case known => exact fun other there => coherent.known other (reached other there)
  case told => exact fun a b reachA reachB => coherent.told a b (reached a reachA) (reached b reachB)
  case own =>
    intro bean other among
    exact coherent.own bean other (beans bean ▸ among)
  case typed => exact fun other there => coherent.typed other (reached other there)
  case named => exact coherent.named
  case alone =>
    exact fun a b handler reachA reachB =>
      coherent.alone a b handler (reached a reachA) (reached b reachB)
  case unbound =>
    intro other none
    by_cases same : interface = other
    · simp [same] at none
    · have before : r.binds.filter (·.1 = other) = [] := by simpa [same] using none
      have entries := coherent.unbound other before
      simpa [Function.update_of_ne, Ne.symm same] using entries
  case bound =>
    intro other bean only
    have same_choice : ∀ chosen, chooseEntry app r (.bean bean) = .ok chosen →
        chooseEntry app { r with
          byType := Function.update r.byType (.interface interface)
            (r.byType (.interface interface) ++ [reg])
          binds := (interface, implementation) :: r.binds } (.bean bean) = .ok chosen := by
      intro chosen choice
      exact (chooseEntry_congr (beans bean)).trans choice
    by_cases same : interface = other
    · subst same
      have parts : implementation = bean ∧ r.binds.filter (·.1 = interface) = [] := by
        simpa [Registry.OnlyBound] using only
      obtain ⟨rfl, none⟩ := parts
      refine ⟨reg, ?_, same_choice reg (choosing reg first)⟩
      simp [coherent.unbound interface none]
    · have before : r.OnlyBound other bean := by simpa [Registry.OnlyBound, same] using only
      obtain ⟨chosen, entries, choice⟩ := coherent.bound other bean before
      refine ⟨chosen, ?_, same_choice chosen choice⟩
      simpa [Function.update_of_ne, Ne.symm same] using entries

def Instance.MadeBy (x : Instance) (reg : Registration) : Prop :=
  x.producer = reg.id ∧ x.type = reg.implType

structure Sound (app : App) (s : State) : Prop where
  coherent : s.registry.Coherent app
  singletons : ∀ id x, s.instances id = some x → id < s.registry.nextId ∧
    ∀ reg, s.registry.Reachable reg → reg.id = id → x.MadeBy reg
  cached : ∀ handler reg x, s.registry.Reachable reg → reg.KeptBy app handler →
    s.caches handler reg.cacheKey = some x → x.MadeBy reg
  handed : ∀ h ∈ s.handouts, h.handed.producer = h.registration
  latest : ∀ h ∈ s.handouts, ∀ type name, h.query = .named type name → h.latest = some h.registration

structure Outcome (app : App) (r : Registry) (reg : Registration) (outcome : Result × State) : Prop where
  sound : Sound app outcome.2
  registry : outcome.2.registry = r
  made : ∀ x, outcome.1 = .ok x → x.MadeBy reg

def Makes (app : App) (create : Registration → State → Result × State) : Prop :=
  ∀ reg s, Sound app s → s.registry.Reachable reg → Outcome app s.registry reg (create reg s)

section Resolving

variable {create : Registration → State → Result × State} {reg : Registration}

theorem getOrCreate_outcome {cached : State → Option Instance} {cache : State → Instance → State}
    (holds : ∀ s, Sound app s → s.registry = r → ∀ x, cached s = some x → x.MadeBy reg)
    (keeps : ∀ s x, Sound app s → s.registry = r → x.MadeBy reg →
      Sound app (cache s x) ∧ (cache s x).registry = r)
    (sound : Sound app s) (same : s.registry = r) (makes : Outcome app r reg (create reg s)) :
    Outcome app r reg (getOrCreate cached cache (create reg) s) := by
  unfold getOrCreate
  split
  next existing found =>
    refine ⟨sound, same, fun x given => ?_⟩
    obtain rfl := Except.ok.inj given
    exact holds s sound same existing found
  · cases created : create reg s with
    | mk result after =>
      rw [created] at makes
      cases result with
      | error error => exact makes
      | ok built =>
        cases again : cached after with
        | some existing =>
          simp only [again]
          refine ⟨makes.sound, makes.registry, fun x given => ?_⟩
          obtain rfl := Except.ok.inj given
          exact holds after makes.sound makes.registry existing again
        | none =>
          simp only [again]
          have made := makes.made built rfl
          obtain ⟨kept, unchanged⟩ := keeps after built makes.sound makes.registry made
          refine ⟨kept, unchanged, fun x given => ?_⟩
          obtain rfl := Except.ok.inj given
          exact made

theorem Sound.cacheInstance (sound : Sound app s) (reached : s.registry.Reachable reg) {x : Instance}
    (made : x.MadeBy reg) : Sound app (Beans.cacheInstance reg.id s x) where
  coherent := sound.coherent
  singletons := by
    intro id y there
    rcases update_eq_some.mp there with ⟨rfl, rfl⟩ | ⟨-, before⟩
    · refine ⟨sound.coherent.known reg reached, fun other among same => ?_⟩
      exact sound.coherent.told other reg among reached same ▸ made
    · exact sound.singletons id y before
  cached := sound.cached
  handed := sound.handed
  latest := sound.latest

theorem Sound.cacheScoped (sound : Sound app s) (reached : s.registry.Reachable reg) {handler : Nat}
    (kept : reg.KeptBy app handler) {x : Instance} (made : x.MadeBy reg) :
    Sound app (Beans.cacheScoped handler reg.cacheKey s x) where
  coherent := sound.coherent
  singletons := sound.singletons
  cached := by
    intro other_handler other y among keptOther there
    by_cases same : other_handler = handler
    · subst same
      have there : Function.update (s.caches other_handler) reg.cacheKey (some x) other.cacheKey =
          some y := by
        simpa [Beans.cacheScoped] using there
      rcases update_eq_some.mp there with ⟨key, rfl⟩ | ⟨-, before⟩
      · exact sound.coherent.alone other reg other_handler among reached keptOther kept key ▸ made
      · exact sound.cached other_handler other y among keptOther before
    · have before : s.caches other_handler other.cacheKey = some y := by
        simpa [Beans.cacheScoped, Function.update_of_ne, same] using there
      exact sound.cached other_handler other y among keptOther before
  handed := sound.handed
  latest := sound.latest

theorem resolveRegistration_outcome (makes : Makes app create) (sound : Sound app s)
    (reached : s.registry.Reachable reg) :
    Outcome app s.registry reg (resolveRegistration app create reg s) := by
  have created := makes reg s sound reached
  have viaHandler : reg.scope.handled = true →
      Outcome app s.registry reg (viaScopeHandler app create reg s) := by
    intro handled
    unfold viaScopeHandler
    cases registered : app.handlers reg.scope.name with
    | none => exact ⟨sound, rfl, fun _ given => by cases given⟩
    | some handler =>
      refine getOrCreate_outcome (fun s' sound' same x found => ?_)
        (fun s' x sound' same made => ?_) sound rfl created
      · exact sound'.cached handler reg x (same ▸ reached) ⟨handled, registered⟩ found
      · exact ⟨sound'.cacheScoped (same ▸ reached) ⟨handled, registered⟩ made, same⟩
  unfold resolveRegistration
  split
  · refine getOrCreate_outcome (fun s' sound' same x found => ?_)
      (fun s' x sound' same made => ?_) sound rfl created
    · exact (sound'.singletons reg.id x found).2 reg (same ▸ reached) rfl
    · exact ⟨sound'.cacheInstance (same ▸ reached) made, same⟩
  · exact created
  next spec other transient =>
    apply viaHandler
    cases scope : reg.scope with
    | custom name => rfl
    | builtin kind =>
      cases kind with
      | singleton => exact absurd scope other
      | transient => exact absurd scope transient
      | request => rfl
      | session => rfl

theorem Sound.handOut (sound : Sound app s) {query : Query} {latest : Option Nat} {x : Instance}
    (made : x.MadeBy reg) (last : ∀ type name, query = .named type name → latest = some reg.id) :
    Sound app (Beans.handOut s query reg latest x) where
  coherent := sound.coherent
  singletons := sound.singletons
  cached := sound.cached
  handed := by
    intro h among
    rcases List.mem_cons.mp among with rfl | earlier
    · exact made.1
    · exact sound.handed h earlier
  latest := by
    intro h among
    rcases List.mem_cons.mp among with rfl | earlier
    · exact last
    · exact sound.latest h earlier

theorem resolveQuery_sound (makes : Makes app create) (sound : Sound app s) (query : Query) :
    Sound app (resolveQuery app create query s).2 ∧
      (resolveQuery app create query s).2.registry = s.registry := by
  cases query with
  | type type =>
    cases chosen : chooseEntry app s.registry type with
    | error error =>
      simpa only [resolveQuery, chosen] using ⟨sound, trivial⟩
    | ok reg =>
      have outcome := resolveRegistration_outcome makes sound (.inl ⟨type, mem_of_chooseEntry chosen⟩)
      simp only [resolveQuery, chosen]
      cases resolved : resolveRegistration app create reg s with
      | mk result after =>
        rw [resolved] at outcome
        cases result with
        | error error => exact ⟨outcome.sound, outcome.registry⟩
        | ok shared =>
          simp only
          split
          · exact ⟨outcome.sound.handOut (outcome.made shared rfl) (fun _ _ same => by cases same),
              outcome.registry⟩
          · exact ⟨outcome.sound, outcome.registry⟩
  | named type name =>
    cases found : s.registry.byName name with
    | none =>
      simpa only [resolveQuery, found] using ⟨sound, trivial⟩
    | some reg =>
      have outcome := resolveRegistration_outcome makes sound (.inr ⟨name, found⟩)
      simp only [resolveQuery, found]
      cases resolved : resolveRegistration app create reg s with
      | mk result after =>
        rw [resolved] at outcome
        cases result with
        | error error => exact ⟨outcome.sound, outcome.registry⟩
        | ok shared =>
          simp only
          split
          · refine ⟨outcome.sound.handOut (outcome.made shared rfl) fun _ _ _ => ?_, outcome.registry⟩
            have same : after.registry = s.registry := outcome.registry
            rw [same]
            exact (sound.coherent.named name reg found).2.2
          · exact ⟨outcome.sound, outcome.registry⟩

theorem runProgram_sound {resolve : Query → State → Result × State}
    (keeps : ∀ query s, Sound app s →
      Sound app (resolve query s).2 ∧ (resolve query s).2.registry = s.registry)
    (program : Program) (sound : Sound app s) :
    Sound app (runProgram resolve program s).2 ∧
      (runProgram resolve program s).2.registry = s.registry := by
  induction program generalizing s with
  | done result => exact ⟨sound, rfl⟩
  | resolve query next ih =>
    obtain ⟨after, same⟩ := keeps query s sound
    obtain ⟨final, unchanged⟩ := ih (resolve query s).1 after
    exact ⟨final, unchanged.trans same⟩

end Resolving

-- By induction on the fuel: nested creations make instances of their registrations.
theorem createInstance_makes (fuel : Nat) (creating : List (Nat × String)) :
    Makes app (createInstance app fuel creating) := by
  induction fuel generalizing creating with
  | zero => exact fun reg s sound _ => ⟨sound, rfl, fun _ given => by cases given⟩
  | succ fuel ih =>
    intro reg s sound reached
    unfold createInstance
    split
    · exact ⟨sound, rfl, fun _ given => by cases given⟩
    · have numbered : Sound app { s with nextInstance := s.nextInstance + 1 } :=
        ⟨sound.coherent, sound.singletons, sound.cached, sound.handed, sound.latest⟩
      have nested := ih (creating ++ [(reg.implType, reg.typeName)])
      have ran := runProgram_sound (fun query s sound => resolveQuery_sound nested sound query)
        (app.factories reg.id s.nextInstance) numbered
      simp only
      cases built : runProgram (resolveQuery app (createInstance app fuel
          (creating ++ [(reg.implType, reg.typeName)]))) (app.factories reg.id s.nextInstance)
          { s with nextInstance := s.nextInstance + 1 } with
      | mk result after =>
        rw [built] at ran
        cases result with
        | error error => exact ⟨ran.1, ran.2, fun _ given => by cases given⟩
        | ok _ =>
          refine ⟨ran.1, ran.2, fun x given => ?_⟩
          obtain rfl := Except.ok.inj given
          exact ⟨rfl, rfl⟩

theorem resolveQuery_congr {first second : Registration → State → Result × State} (query : Query)
    (same : ∀ reg, s.registry.Reachable reg → first reg s = second reg s) :
    resolveQuery app first query s = resolveQuery app second query s := by
  have each : ∀ reg, s.registry.Reachable reg →
      resolveRegistration app first reg s = resolveRegistration app second reg s := by
    intro reg reached
    simp only [resolveRegistration, viaScopeHandler, getOrCreate, same reg reached]
  cases query with
  | type type =>
    cases chosen : chooseEntry app s.registry type with
    | error error => simp only [resolveQuery, chosen]
    | ok reg => simp only [resolveQuery, chosen, each reg (.inl ⟨type, mem_of_chooseEntry chosen⟩)]
  | named type name =>
    cases found : s.registry.byName name with
    | none => simp only [resolveQuery, found]
    | some reg => simp only [resolveQuery, found, each reg (.inr ⟨name, found⟩)]

theorem runProgram_congr {first second : Query → State → Result × State} (program : Program)
    (keeps : ∀ query s, Sound app s →
      Sound app (first query s).2 ∧ (first query s).2.registry = s.registry)
    (same : ∀ query s, Sound app s → s.registry = r → first query s = second query s)
    (sound : Sound app s) (registry : s.registry = r) :
    runProgram first program s = runProgram second program s := by
  induction program generalizing s with
  | done result => rfl
  | resolve query next ih =>
    obtain ⟨after, unchanged⟩ := keeps query s sound
    rw [runProgram, runProgram, ← same query s sound registry]
    exact ih _ after (unchanged.trans registry)

-- More fuel than there are registrations changes nothing: the types in creation differ.
theorem createInstance_fuel (fuel : Nat) {creating : List (Nat × String)} {reg : Registration}
    (distinct : (creating.map Prod.fst).Nodup)
    (listed : creating.map Prod.fst ⊆ s.registry.registered.map (·.implType))
    (enough : s.registry.registered.length < fuel + creating.length)
    (sound : Sound app s) (reached : s.registry.Reachable reg) :
    createInstance app (fuel + 1) creating reg s = createInstance app fuel creating reg s := by
  induction fuel generalizing creating reg s with
  | zero =>
    have bound := (List.subperm_of_subset distinct listed).length_le
    rw [List.length_map, List.length_map] at bound
    omega
  | succ fuel ih =>
    rw [createInstance]
    conv_rhs => rw [createInstance]
    by_cases nested : creating.any (·.1 = reg.implType)
    · rw [if_pos nested, if_pos nested]
    · have fresh : reg.implType ∉ creating.map Prod.fst := by
        intro among
        obtain ⟨entry, inside, same⟩ := List.mem_map.mp among
        exact nested (List.any_eq_true.mpr ⟨entry, inside, by simpa using same⟩)
      have numbered : Sound app { s with nextInstance := s.nextInstance + 1 } :=
        ⟨sound.coherent, sound.singletons, sound.cached, sound.handed, sound.latest⟩
      have same : runProgram (resolveQuery app (createInstance app (fuel + 1)
            (creating ++ [(reg.implType, reg.typeName)]))) (app.factories reg.id s.nextInstance)
            { s with nextInstance := s.nextInstance + 1 } =
          runProgram (resolveQuery app (createInstance app fuel
            (creating ++ [(reg.implType, reg.typeName)]))) (app.factories reg.id s.nextInstance)
            { s with nextInstance := s.nextInstance + 1 } := by
        refine runProgram_congr _ (fun query s sound => resolveQuery_sound
          (createInstance_makes _ _) sound query)
          (fun query s' sound' registry => resolveQuery_congr query fun inner among => ?_) numbered rfl
        have registry : s'.registry = s.registry := registry
        refine ih ?_ ?_ ?_ sound' among
        · rw [List.map_append]
          exact distinct.append (List.nodup_singleton _) (List.disjoint_singleton.mpr fresh)
        · rw [registry, List.map_append]
          refine List.append_subset.mpr ⟨listed, fun type inside => ?_⟩
          obtain rfl : type = reg.implType := by simpa using inside
          exact sound.coherent.typed reg reached
        · rw [registry, List.length_append, List.length_singleton]
          omega
      simp only [if_neg nested, same]

theorem getOrCreate_cached {cached : State → Option Instance} {cache : State → Instance → State}
    {create : State → Result × State} {x : Instance}
    (keeps : ∀ s x, cached (cache s x) = some x)
    (given : (getOrCreate cached cache create s).1 = .ok x) :
    cached (getOrCreate cached cache create s).2 = some x := by
  unfold getOrCreate at given ⊢
  split at given
  next existing found =>
    obtain rfl := Except.ok.inj given
    exact found
  next missing =>
    cases created : create s with
    | mk result after =>
      cases result with
      | error error => simp [created] at given
      | ok built =>
        simp only [created] at given ⊢
        cases again : cached after with
        | some existing =>
          simp only [again] at given ⊢
          exact congrArg some (Except.ok.inj given)
        | none =>
          simp only [again] at given ⊢
          rw [keeps, Except.ok.inj given]

theorem resolve_again {first second : TypeId} {reg : Registration} (sound : Sound app s)
    (chosen : chooseEntry app s.registry first = .ok reg)
    (again : chooseEntry app s.registry second = .ok reg)
    (singleton : reg.scope = .builtin .singleton) {x : Instance}
    (given : (resolve app (.type first) s).1 = .ok x) :
    (resolve app (.type second) (resolve app (.type first) s).2).1 = .ok x := by
  have outcome := resolveRegistration_outcome (createInstance_makes
    (s.registry.registered.length + 1) []) sound (.inl ⟨first, mem_of_chooseEntry chosen⟩)
  have cached : ∀ x, (resolveRegistration app (createInstance app
      (s.registry.registered.length + 1) []) reg s).1 = .ok x →
      (resolveRegistration app (createInstance app (s.registry.registered.length + 1) []) reg s).2.instances
        reg.id = some x := by
    intro x given
    simp only [resolveRegistration, singleton] at given ⊢
    exact getOrCreate_cached (fun s x => Function.update_self ..) given
  simp only [resolve, resolveQuery, chosen] at given ⊢
  cases resolved : resolveRegistration app (createInstance app
      (s.registry.registered.length + 1) []) reg s with
  | mk result after =>
    rw [resolved] at outcome cached
    simp only [resolved] at given ⊢
    cases result with
    | error error => cases given
    | ok shared =>
      have typed := (outcome.made shared rfl).2
      have kept : after.instances reg.id = some shared := cached shared rfl
      have same : after.registry = s.registry := outcome.registry
      simp only [if_pos typed] at given ⊢
      have choice : chooseEntry app (handOut after (.type first) reg none shared).registry second =
          .ok reg := by
        show chooseEntry app after.registry second = .ok reg
        rw [same, again]
      have held : (handOut after (.type first) reg none shared).instances reg.id = some shared := kept
      simp only [choice, resolveRegistration, singleton, getOrCreate, held, if_pos typed]
      exact given

theorem Sound.resolveToThemselves (sound : Sound app s) : ResolveToThemselves app s where
  named := by
    intro h among type name asked
    rw [sound.handed h among]
    exact sound.latest h among type name asked
  apart := by
    intro a amongA b amongB _ _ differ same
    rw [← sound.handed a amongA, ← sound.handed b amongB, same] at differ
    exact differ rfl
  bound := by
    intro interface implementation only singleton x
    obtain ⟨reg, entries, chosen⟩ := sound.coherent.bound interface implementation only
    obtain ⟨listed, typed⟩ := sound.coherent.own implementation reg (mem_of_chooseEntry chosen)
    have kind := singleton reg listed typed
    exact ⟨resolve_again sound (chooseEntry_of_sole entries) chosen kind,
      resolve_again sound chosen (chooseEntry_of_sole entries) kind⟩

theorem Sound.step {choice : Choice} (sound : Sound app s) (fresh : Fresh app s choice)
    (stepped : Beans.step app s choice = some s') : Sound app s' := by
  cases choice with
  | register type scope name primary =>
    obtain rfl := Option.some.inj stepped
    obtain ⟨unkept, steady⟩ := fresh
    refine ⟨sound.coherent.install (fun handler kept => (unkept handler kept).2) steady, ?_, ?_,
      sound.handed, sound.latest⟩
    · intro id x there
      obtain ⟨known, made⟩ := sound.singletons id x there
      refine ⟨Nat.lt_succ_of_lt known, fun reg reached same => ?_⟩
      rcases reachable_install sound.coherent reached with rfl | ⟨before, -⟩
      · exact absurd same (Nat.ne_of_gt known)
      · exact made reg before same
    · intro handler reg x reached kept there
      rcases reachable_install sound.coherent reached with rfl | ⟨before, -⟩
      · cases (unkept handler kept).1.symm.trans there
      · exact sound.cached handler reg x before kept there
  | bind interface implementation =>
    obtain ⟨registry, bound, rfl⟩ := Option.map_eq_some_iff.mp stepped
    obtain ⟨coherent, reached⟩ := sound.coherent.bind fresh bound
    have counter : registry.nextId = s.registry.nextId := by
      obtain ⟨reg, -, rfl⟩ := Option.map_eq_some_iff.mp bound
      rfl
    refine ⟨coherent, fun id x there => ?_, fun handler reg x among kept there => ?_, sound.handed,
      sound.latest⟩
    · obtain ⟨known, made⟩ := sound.singletons id x there
      exact ⟨counter.symm ▸ known, fun reg among same => made reg (reached reg among) same⟩
    · exact sound.cached handler reg x (reached reg among) kept there
  | resolve query =>
    obtain rfl := Option.some.inj stepped
    exact (resolveQuery_sound (createInstance_makes _ _) sound query).1
  | refresh handler =>
    obtain rfl := Option.some.inj stepped
    refine ⟨sound.coherent, sound.singletons, fun other reg x reached kept there => ?_, sound.handed,
      sound.latest⟩
    by_cases same : other = handler
    · subst same
      simp at there
    · have before : s.caches other reg.cacheKey = some x := by
        simpa [Function.update_of_ne, same] using there
      exact sound.cached other reg x reached kept before

theorem sound_start : Sound app start where
  coherent := by
    have nowhere : ∀ reg, ¬ start.registry.Reachable reg := by
      rintro reg (⟨type, among⟩ | ⟨name, there⟩)
      · cases among
      · cases there
    constructor
    case known => exact fun reg reached => absurd reached (nowhere reg)
    case told => exact fun a _ reached => absurd reached (nowhere a)
    case own => exact fun _ _ among => by cases among
    case typed => exact fun reg reached => absurd reached (nowhere reg)
    case named => exact fun _ _ there => by cases there
    case alone => exact fun a _ _ reached => absurd reached (nowhere a)
    case unbound => exact fun _ _ => rfl
    case bound => exact fun _ _ only => by cases only
  singletons := fun _ _ there => by cases there
  cached := fun _ _ _ _ _ there => by cases there
  handed := fun _ among => by cases among
  latest := fun _ among => by cases among

theorem beans_resolve_to_themselves (app : App) (choices : List Choice)
    (fresh : Along (Beans.step app) (Fresh app) start choices) :
    Always (Beans.step app) (ResolveToThemselves app) start choices := by
  have always := fresh.always (Sound app)
    (fun _ _ _ allowed sound stepped => sound.step allowed stepped) sound_start
  exact always.mono fun _ sound => sound.resolveToThemselves

def shop : App where
  typeName
    | .bean 0 => "shop::RedisCache"
    | .bean _ => "shop::Catalog"
    | .interface _ => "dyn shop::Cache"
  factories id _ := if id = 1 then .resolve (.type (.interface 0)) fun _ => .done (.ok ())
    else .done (.ok ())
  handlers name := if name = "refresh" then some 0 else none

theorem beans_resolve_to_themselves_bound :
    Always (Beans.step shop) (ResolveToThemselves shop) start
      [.register 1 (.custom "refresh") "catalog" false, .register 0 (.builtin .singleton) "" false,
        .bind 0 0, .resolve (.named 1 "catalog"), .resolve (.type (.bean 0))] := by
  refine beans_resolve_to_themselves shop _ ?_
  refine ⟨⟨fun handler _ => ⟨rfl, ?_⟩, fun _ _ only => (by cases only)⟩, ?_⟩
  · rintro other (⟨type, among⟩ | ⟨name, there⟩)
    · cases among
    · cases there
  rintro _ ⟨⟩
  refine ⟨⟨fun handler kept => (by cases kept.1), fun _ _ only => (by cases only)⟩, ?_⟩
  rintro _ ⟨⟩
  refine ⟨?_, ?_⟩
  · rintro reg ⟨⟩
    rfl
  rintro _ ⟨⟩
  exact ⟨trivial, fun _ _ => ⟨trivial, fun _ _ => trivial⟩⟩

theorem refreshed_beans_of_one_type_shared :
    ¬ ∀ (app : App) (choices : List Choice),
      Always (Beans.step app) (ResolveToThemselves app) start choices := by
  intro always
  obtain ⟨s, ran, h, among, asked, last, made⟩ : ∃ s, run (Beans.step shop) start
      [.register 0 (.custom "refresh") "primary" false, .register 0 (.custom "refresh") "replica" false,
        .resolve (.named 0 "primary"), .resolve (.named 0 "replica")] = some s ∧
      ∃ h ∈ s.handouts, h.query = .named 0 "replica" ∧ h.latest = some 1 ∧ h.handed.producer = 0 :=
    ⟨_, rfl, _, List.mem_cons_self, rfl, rfl, rfl⟩
  have same := (always shop _ _ [] (List.append_nil _).symm s ran).named h among 0 "replica" asked
  rw [last, made] at same
  cases same

end Firefly.Container.Beans
