import Firefly.Container.BeanIdentity

set_option autoImplicit false

namespace Firefly.Container.Cycles

open Beans Runs Relation Tables Text

/-- `resolving` are the types that the thread has in creation, outermost first. -/
structure Thread where
  container : State
  resolving : List (Nat × String)

def Thread.types (t : Thread) : List Nat := t.resolving.map (·.1)

variable (app : App)

-- `none`, here and below, where the fuel of `create` does not last.
def getOrCreate (cached : State → Option Instance) (cache : State → Instance → State)
    (create : Thread → Option (Result × Thread)) (t : Thread) : Option (Result × Thread) :=
  match cached t.container with
  | some existing => some (.ok existing, t)
  | none =>
    match create t with
    | none => none
    | some (.error error, t) => some (.error error, t)
    | some (.ok built, t) =>
      match cached t.container with
      | some existing => some (.ok existing, t)
      | none => some (.ok built, { t with container := cache t.container built })

def noHandler (reg : Registration) : ContainerError :=
  .noSuchBean (some reg.typeName) none (some ("custom scope " ++ debugStr reg.scope.name ++
    " is not registered for bean " ++ reg.displayName ++ "; call register_scope(" ++
    debugStr reg.scope.name ++ ", handler) first"))

def viaScopeHandler (create : Registration → Thread → Option (Result × Thread)) (reg : Registration)
    (t : Thread) : Option (Result × Thread) :=
  match app.handlers reg.scope.name with
  | none => some (.error (noHandler reg), t)
  | some handler =>
    getOrCreate (fun s => s.caches handler reg.cacheKey) (cacheScoped handler reg.cacheKey)
      (create reg) t

def resolveRegistration (create : Registration → Thread → Option (Result × Thread))
    (reg : Registration) (t : Thread) : Option (Result × Thread) :=
  match reg.scope with
  | .builtin .singleton =>
    getOrCreate (fun s => s.instances reg.id) (cacheInstance reg.id) (create reg) t
  | .builtin .transient => create reg t
  | _ => viaScopeHandler app create reg t

def handOut (t : Thread) (query : Query) (reg : Registration) (latest : Option Nat)
    (handed : Instance) : Thread :=
  { t with container := Beans.handOut t.container query reg latest handed }

def resolveQuery (create : Registration → Thread → Option (Result × Thread)) (query : Query)
    (t : Thread) : Option (Result × Thread) :=
  match query with
  | .type type =>
    match chooseEntry app t.container.registry type with
    | .error error => some (.error error, t)
    | .ok reg =>
      match resolveRegistration app create reg t with
      | none => none
      | some (.error error, t) => some (.error error, t)
      | some (.ok shared, t) =>
        if shared.type = reg.implType then some (.ok shared, handOut t query reg none shared)
        else some (.error (noSuchType (app.typeName type)), t)
  | .named type name =>
    match t.container.registry.byName name with
    | none => some (.error (noSuchName name), t)
    | some reg =>
      match resolveRegistration app create reg t with
      | none => none
      | some (.error error, t) => some (.error error, t)
      | some (.ok shared, t) =>
        if shared.type = type then
          some (.ok shared, handOut t query reg (t.container.registry.latest name) shared)
        else
          some (.error (.noSuchBean (some (app.typeName (.bean type))) (some name)
            (some ("bean " ++ debugStr name ++ " is registered as " ++ reg.typeName ++
              ", not assignable to " ++ app.typeName (.bean type)))), t)

def runProgram (resolve : Query → Thread → Option (Result × Thread)) :
    Program → Thread → Option (Except ContainerError Unit × Thread)
  | .done result, t => some (result, t)
  | .resolve query next, t =>
    match resolve query t with
    | none => none
    | some (result, t) => runProgram resolve (next result) t

def push (reg : Registration) (t : Thread) : Thread :=
  { container := { t.container with nextInstance := t.container.nextInstance + 1 }
    resolving := t.resolving ++ [(reg.implType, reg.typeName)] }

def pop (t : Thread) : Thread := { t with resolving := t.resolving.dropLast }

def createInstance : Nat → Registration → Thread → Option (Result × Thread)
  | 0, _, _ => none
  | fuel + 1, reg, t =>
    if t.resolving.any (·.1 = reg.implType) then
      some (.error (.circularDependency (t.resolving.map (·.2)) reg.typeName), t)
    else
      match runProgram (resolveQuery app (createInstance fuel))
          (app.factories reg.id t.container.nextInstance) (push reg t) with
      | none => none
      -- The pop comes before the error is looked at.
      | some (.error error, after) => some (.error error, pop after)
      | some (.ok _, after) =>
        some (.ok { number := t.container.nextInstance, type := reg.implType, producer := reg.id },
          pop after)

def call (t : Thread) (reg : Registration) : Option (Result × Thread) :=
  resolveRegistration app (createInstance app (t.container.registry.registered.length + 1)) reg t

def step (t : Thread) (reg : Registration) : Option Thread := (call app t reg).map (·.2)

section Agreement

variable {app} {stack : List (Nat × String)} {create : Registration → Thread → Option (Result × Thread)}
  {created : Registration → State → Result × State}

def Agrees (stack : List (Nat × String)) (resolve : Thread → Option (Result × Thread))
    (resolved : State → Result × State) : Prop :=
  ∀ t result after, t.resolving = stack → resolve t = some (result, after) →
    resolved t.container = (result, after.container) ∧ after.resolving = stack

theorem getOrCreate_agrees {cached : State → Option Instance} {cache : State → Instance → State}
    {resolve : Thread → Option (Result × Thread)} {resolved : State → Result × State}
    (agrees : Agrees stack resolve resolved) :
    Agrees stack (getOrCreate cached cache resolve) (Beans.getOrCreate cached cache resolved) := by
  intro t result after stacked returned
  unfold getOrCreate at returned
  unfold Beans.getOrCreate
  cases kept : cached t.container with
  | some existing =>
    simp only [kept, Option.some.injEq, Prod.mk.injEq] at returned
    obtain ⟨rfl, rfl⟩ := returned
    exact ⟨rfl, stacked⟩
  | none =>
    simp only [kept] at returned
    cases made : resolve t with
    | none => simp [made] at returned
    | some outcome =>
      obtain ⟨answer, next⟩ := outcome
      obtain ⟨same, left⟩ := agrees t answer next stacked made
      simp only [made, same] at returned ⊢
      cases answer with
      | error error =>
        simp only [Option.some.injEq, Prod.mk.injEq] at returned
        obtain ⟨rfl, rfl⟩ := returned
        exact ⟨rfl, left⟩
      | ok built =>
        cases again : cached next.container <;>
          simp only [again, Option.some.injEq, Prod.mk.injEq] at returned ⊢ <;>
          obtain ⟨rfl, rfl⟩ := returned <;> exact ⟨⟨rfl, rfl⟩, left⟩

theorem resolveRegistration_agrees
    (agrees : ∀ reg, Agrees stack (create reg) (created reg)) (reg : Registration) :
    Agrees stack (resolveRegistration app create reg) (Beans.resolveRegistration app created reg) := by
  have handled : Agrees stack (viaScopeHandler app create reg)
      (Beans.viaScopeHandler app created reg) := by
    unfold viaScopeHandler Beans.viaScopeHandler
    cases app.handlers reg.scope.name with
    | none =>
      rintro t result after stacked returned
      simp only [Option.some.injEq, Prod.mk.injEq] at returned
      obtain ⟨rfl, rfl⟩ := returned
      exact ⟨rfl, stacked⟩
    | some handler => exact getOrCreate_agrees (agrees reg)
  unfold resolveRegistration Beans.resolveRegistration
  cases reg.scope with
  | custom name => exact handled
  | builtin scope =>
    cases scope with
    | singleton => exact getOrCreate_agrees (agrees reg)
    | transient => exact agrees reg
    | request => exact handled
    | session => exact handled

theorem resolveQuery_agrees (agrees : ∀ reg, Agrees stack (create reg) (created reg)) (query : Query) :
    Agrees stack (resolveQuery app create query) (Beans.resolveQuery app created query) := by
  intro t result after stacked returned
  have each (reg : Registration) : Agrees stack (resolveRegistration app create reg)
      (Beans.resolveRegistration app created reg) := resolveRegistration_agrees agrees reg
  cases query with
  | type type =>
    simp only [resolveQuery] at returned
    simp only [Beans.resolveQuery]
    cases chosen : chooseEntry app t.container.registry type with
    | error error =>
      simp only [chosen, Option.some.injEq, Prod.mk.injEq] at returned
      obtain ⟨rfl, rfl⟩ := returned
      exact ⟨rfl, stacked⟩
    | ok reg =>
      simp only [chosen] at returned
      cases resolved : resolveRegistration app create reg t with
      | none => simp [resolved] at returned
      | some outcome =>
        obtain ⟨answer, next⟩ := outcome
        obtain ⟨same, left⟩ := each reg t answer next stacked resolved
        simp only [resolved, same] at returned ⊢
        cases answer with
        | error error =>
          simp only [Option.some.injEq, Prod.mk.injEq] at returned
          obtain ⟨rfl, rfl⟩ := returned
          exact ⟨rfl, left⟩
        | ok shared =>
          by_cases typed : shared.type = reg.implType <;>
            simp only [typed, if_true, if_false, Option.some.injEq, Prod.mk.injEq] at returned ⊢ <;>
            obtain ⟨rfl, rfl⟩ := returned <;> exact ⟨⟨rfl, rfl⟩, left⟩
  | named type name =>
    simp only [resolveQuery] at returned
    simp only [Beans.resolveQuery]
    cases there : t.container.registry.byName name with
    | none =>
      simp only [there, Option.some.injEq, Prod.mk.injEq] at returned
      obtain ⟨rfl, rfl⟩ := returned
      exact ⟨rfl, stacked⟩
    | some reg =>
      simp only [there] at returned
      cases resolved : resolveRegistration app create reg t with
      | none => simp [resolved] at returned
      | some outcome =>
        obtain ⟨answer, next⟩ := outcome
        obtain ⟨same, left⟩ := each reg t answer next stacked resolved
        simp only [resolved, same] at returned ⊢
        cases answer with
        | error error =>
          simp only [Option.some.injEq, Prod.mk.injEq] at returned
          obtain ⟨rfl, rfl⟩ := returned
          exact ⟨rfl, left⟩
        | ok shared =>
          by_cases typed : shared.type = type <;>
            simp only [typed, if_true, if_false, Option.some.injEq, Prod.mk.injEq] at returned ⊢ <;>
            obtain ⟨rfl, rfl⟩ := returned <;> exact ⟨⟨rfl, rfl⟩, left⟩

theorem runProgram_agrees {resolve : Query → Thread → Option (Result × Thread)}
    {resolved : Query → State → Result × State}
    (agrees : ∀ query, Agrees stack (resolve query) (resolved query)) (program : Program)
    {t after : Thread} {result : Except ContainerError Unit} (stacked : t.resolving = stack)
    (ran : runProgram resolve program t = some (result, after)) :
    Beans.runProgram resolved program t.container = (result, after.container) ∧
      after.resolving = stack := by
  induction program generalizing t with
  | done outcome =>
    simp only [runProgram, Option.some.injEq, Prod.mk.injEq] at ran
    obtain ⟨rfl, rfl⟩ := ran
    exact ⟨rfl, stacked⟩
  | resolve query next ih =>
    simp only [runProgram] at ran
    cases asked : resolve query t with
    | none => simp [asked] at ran
    | some outcome =>
      obtain ⟨answer, middle⟩ := outcome
      obtain ⟨same, left⟩ := agrees query t answer middle stacked asked
      simp only [asked] at ran
      simpa only [Beans.runProgram, same] using ih answer left ran

theorem createInstance_agrees (fuel : Nat) : ∀ stack reg, Agrees stack (createInstance app fuel reg)
    (Beans.createInstance app fuel stack reg) := by
  induction fuel with
  | zero => exact fun _ _ _ _ _ _ returned => (nomatch returned)
  | succ fuel ih =>
    intro stack reg t result after stacked returned
    subst stacked
    simp only [createInstance] at returned
    simp only [Beans.createInstance]
    by_cases creating : t.resolving.any (·.1 = reg.implType) = true
    · simp only [creating, if_true, Option.some.injEq, Prod.mk.injEq] at returned ⊢
      obtain ⟨rfl, rfl⟩ := returned
      exact ⟨⟨rfl, rfl⟩, rfl⟩
    · simp only [creating] at returned ⊢
      cases ran : runProgram (resolveQuery app (createInstance app fuel))
          (app.factories reg.id t.container.nextInstance) (push reg t) with
      | none => simp [ran] at returned
      | some outcome =>
        obtain ⟨answer, last⟩ := outcome
        obtain ⟨same, left⟩ :=
          runProgram_agrees (resolveQuery_agrees (ih (push reg t).resolving)) _ rfl ran
        have popped : (pop last).resolving = t.resolving := by simp [pop, left, push]
        simp only [push] at same
        cases answer <;> simp only [ran] at returned <;>
          obtain ⟨rfl, rfl⟩ := Prod.mk.inj (Option.some.inj returned) <;>
          exact ⟨by simp [same, pop], popped⟩

theorem resolve_agrees (query : Query) {t after : Thread} {result : Result} (idle : t.resolving = [])
    (returned : resolveQuery app (createInstance app (t.container.registry.registered.length + 1))
      query t = some (result, after)) :
    Beans.resolve app query t.container = (result, after.container) ∧ after.resolving = [] :=
  resolveQuery_agrees (createInstance_agrees _ []) query t result after idle returned

end Agreement

def inOrder : List Query → Program
  | [] => .done (.ok ())
  | query :: rest => .resolve query fun
    | .ok _ => inOrder rest
    | .error error => .done (.error error)

def Declares : Choice → Prop
  | .register _ scope _ _ => scope = .builtin .singleton ∨ scope = .builtin .transient
  | .bind _ _ => True
  | .resolve _ | .refresh _ => False

def denotes (r : Registry) : Query → Option Registration
  | .type type => (chooseEntry app r type).toOption
  | .named type name => (r.byName name).filter (·.implType = type)

variable (dependencies : Nat → List Query) (r : Registry)

def FixedLists : Prop := ∀ id number, app.factories id number = inOrder (dependencies id)

def Wired : Prop :=
  ∀ reg, r.Reachable reg → ∀ query ∈ dependencies reg.id, ∃ other, denotes app r query = some other

def Needs (reg other : Registration) : Prop :=
  ∃ query ∈ dependencies reg.id, denotes app r query = some other

def Cyclic (reg : Registration) : Prop :=
  ∃ other, ReflTransGen (Needs app dependencies r) reg other ∧
    TransGen (Needs app dependencies r) other other

def Exact (t : Thread) (reg : Registration) : Prop :=
  ∃ result after, call app t reg = some (result, after) ∧ after.resolving = t.resolving ∧
    ((∃ chain current, result = .error (.circularDependency chain current)) ↔
      Cyclic app dependencies r reg)

variable {app dependencies r} {reg other : Registration}

theorem cyclic_of_reaches (reaches : ReflTransGen (Needs app dependencies r) reg other)
    (cyclic : Cyclic app dependencies r other) : Cyclic app dependencies r reg := by
  obtain ⟨last, more, cycle⟩ := cyclic
  exact ⟨last, reaches.trans more, cycle⟩

theorem acyclic_step (below : ∀ other, Needs app dependencies r reg other →
    ¬ Cyclic app dependencies r other) : ¬ Cyclic app dependencies r reg := by
  rintro ⟨last, reaches, cycle⟩
  rcases ReflTransGen.cases_head reaches with rfl | ⟨next, needs, rest⟩
  · obtain ⟨next, needs, back⟩ := TransGen.head'_iff.mp cycle
    exact below next needs ⟨reg, back, cycle⟩
  · exact below next needs ⟨last, rest, cycle⟩

variable (app dependencies r) in
def Clash (types : List Nat) (reg : Registration) : Prop :=
  ∃ last, ReflTransGen (Needs app dependencies r) reg last ∧ (last.implType ∈ types ∨
    ∃ first, ReflTransGen (Needs app dependencies r) reg first ∧
      TransGen (Needs app dependencies r) first last ∧ first.implType = last.implType)

theorem Clash.of_needs {types : List Nat} (needs : Needs app dependencies r reg other)
    (clash : Clash app dependencies r (types ++ [reg.implType]) other) :
    Clash app dependencies r types reg := by
  obtain ⟨last, reaches, among | ⟨first, start, twice, same⟩⟩ := clash
  · rcases List.mem_append.mp among with before | own
    · exact ⟨last, .head needs reaches, .inl before⟩
    · refine ⟨last, .head needs reaches, .inr ⟨reg, .refl, ?_, (List.mem_singleton.mp own).symm⟩⟩
      exact TransGen.head' needs reaches
  · exact ⟨last, .head needs reaches, .inr ⟨first, .head needs start, twice, same⟩⟩

variable {P : Registration → Prop} {base : List Nat} {t after : Thread} {result : Result}

variable (app dependencies r) in
def Inductive (P : Registration → Prop) (base : List Nat) : Prop :=
  ∀ reg, reg.implType ∉ base → (∀ other, Needs app dependencies r reg other → P other) → P reg

variable (r) in
structure Ready (P : Registration → Prop) (base : List Nat) (t : Thread) : Prop where
  registry : t.container.registry = r
  above : ∀ type ∈ base, type ∈ t.types
  cached : ∀ reg, r.Reachable reg → ∀ x, t.container.instances reg.id = some x →
    x.type = reg.implType ∧ P reg

variable (app dependencies r) in
structure Outcome (P : Registration → Prop) (base : List Nat) (t : Thread) (reg : Registration)
    (result : Result) (after : Thread) : Prop where
  ready : Ready r P base after
  stack : after.resolving = t.resolving
  made : ∀ x, result = .ok x → x.type = reg.implType ∧ P reg
  failed : ∀ error, result = .error error →
    (∃ chain current, error = .circularDependency chain current) ∧
      Clash app dependencies r t.types reg

variable (app dependencies r) in
def Returns (P : Registration → Prop) (base : List Nat) (stack : List (Nat × String))
    (create : Registration → Thread → Option (Result × Thread)) : Prop :=
  ∀ reg t, r.Reachable reg → Ready r P base t → t.resolving = stack →
    ∃ result after, create reg t = some (result, after) ∧
      Outcome app dependencies r P base t reg result after

structure Declared (r : Registry) : Prop where
  known : ∀ reg, r.Reachable reg → reg.id < r.nextId
  told : ∀ a b, r.Reachable a → r.Reachable b → a.id = b.id → a = b
  typed : ∀ reg, r.Reachable reg → reg.implType ∈ r.registered.map (·.implType)
  plain : ∀ reg, r.Reachable reg →
    reg.scope = .builtin .singleton ∨ reg.scope = .builtin .transient

theorem Ready.cacheInstance (declared : Declared r) (ready : Ready r P base t)
    (reached : r.Reachable reg) {x : Instance} (typed : x.type = reg.implType) (holds : P reg) :
    Ready r P base { t with container := Beans.cacheInstance reg.id t.container x } where
  registry := ready.registry
  above := ready.above
  cached := by
    intro other there y kept
    rcases update_eq_some.mp kept with ⟨same, rfl⟩ | ⟨-, before⟩
    · obtain rfl := declared.told reg other reached there same.symm
      exact ⟨typed, holds⟩
    · exact ready.cached other there y before

theorem resolveRegistration_returns (declared : Declared r) {stack : List (Nat × String)}
    {create : Registration → Thread → Option (Result × Thread)}
    (creates : Returns app dependencies r P base stack create) :
    Returns app dependencies r P base stack (resolveRegistration app create) := by
  intro reg t reached ready stacked
  rcases declared.plain reg reached with scope | scope
  · simp only [resolveRegistration, scope, getOrCreate]
    cases kept : t.container.instances reg.id with
    | some existing =>
      refine ⟨.ok existing, t, rfl, ready, rfl, ?_, fun error failed => by cases failed⟩
      rintro x ⟨⟩
      exact ready.cached reg reached existing kept
    | none =>
      obtain ⟨result, after, created, outcome⟩ := creates reg t reached ready stacked
      simp only [created]
      cases result with
      | error error => exact ⟨_, _, rfl, outcome⟩
      | ok built =>
        obtain ⟨typed, holds⟩ := outcome.made built rfl
        cases again : after.container.instances reg.id with
        | some existing =>
          simp only [again]
          refine ⟨.ok existing, after, rfl, outcome.ready, outcome.stack, ?_,
            fun error failed => by cases failed⟩
          rintro x ⟨⟩
          exact outcome.ready.cached reg reached existing again
        | none =>
          simp only [again]
          refine ⟨.ok built, _, rfl, outcome.ready.cacheInstance declared reached typed holds,
            outcome.stack, ?_, fun error failed => by cases failed⟩
          rintro x ⟨⟩
          exact ⟨typed, holds⟩
  · simp only [resolveRegistration, scope]
    exact creates reg t reached ready stacked

theorem chosen_of_denotes {type : TypeId} (named : denotes app r (.type type) = some other) :
    chooseEntry app r type = .ok other := by
  rw [denotes] at named
  cases chosen : chooseEntry app r type <;> simp_all [Except.toOption]

theorem reachable_of_denotes {query : Query} (named : denotes app r query = some other) :
    r.Reachable other := by
  cases query with
  | type type =>
    exact .inl ⟨type, mem_of_chooseEntry (chosen_of_denotes named)⟩
  | named type name =>
    exact .inr ⟨name, (Option.filter_eq_some_iff.mp named).1⟩

theorem resolveQuery_returns (declared : Declared r)
    {create : Registration → Thread → Option (Result × Thread)}
    (creates : Returns app dependencies r P base t.resolving create) (ready : Ready r P base t)
    {query : Query} (named : denotes app r query = some other) :
    ∃ result after, resolveQuery app create query t = some (result, after) ∧
      Outcome app dependencies r P base t other result after := by
  obtain ⟨result, after, resolved, outcome⟩ :=
    resolveRegistration_returns declared creates other t (reachable_of_denotes named) ready rfl
  cases query with
  | type type =>
    simp only [resolveQuery, ready.registry, chosen_of_denotes named, resolved]
    cases result with
    | error error => exact ⟨_, _, rfl, outcome⟩
    | ok x =>
      simp only [(outcome.made x rfl).1, if_true]
      exact ⟨_, _, rfl, ⟨outcome.ready.registry, outcome.ready.above, outcome.ready.cached⟩,
        outcome.stack, outcome.made, outcome.failed⟩
  | named type name =>
    obtain ⟨there, typed⟩ := Option.filter_eq_some_iff.mp named
    have typed : other.implType = type := by simpa using typed
    simp only [resolveQuery, ready.registry, there, resolved]
    cases result with
    | error error => exact ⟨_, _, rfl, outcome⟩
    | ok x =>
      simp only [(outcome.made x rfl).1, typed, if_true]
      exact ⟨_, _, rfl, ⟨outcome.ready.registry, outcome.ready.above, outcome.ready.cached⟩,
        outcome.stack, outcome.made, outcome.failed⟩

theorem runProgram_returns (declared : Declared r)
    {create : Registration → Thread → Option (Result × Thread)}
    (creates : Returns app dependencies r P base t.resolving create) (ready : Ready r P base t)
    {queries : List Query} (wired : ∀ query ∈ queries, ∃ other, denotes app r query = some other) :
    ∃ result after, runProgram (resolveQuery app create) (inOrder queries) t = some (result, after) ∧
      Ready r P base after ∧ after.resolving = t.resolving ∧
      (∀ u, result = .ok u → ∀ query ∈ queries, ∀ other, denotes app r query = some other → P other) ∧
      ∀ error, result = .error error →
        (∃ chain current, error = .circularDependency chain current) ∧
          ∃ query ∈ queries, ∃ other, denotes app r query = some other ∧
            Clash app dependencies r t.types other := by
  induction queries generalizing t with
  | nil => exact ⟨_, _, rfl, ready, rfl, by simp, by simp⟩
  | cons query rest ih =>
    obtain ⟨other, named⟩ := wired query List.mem_cons_self
    obtain ⟨result, after, resolved, outcome⟩ := resolveQuery_returns declared creates ready named
    simp only [inOrder, runProgram, resolved]
    cases result with
    | error error =>
      refine ⟨_, _, rfl, outcome.ready, outcome.stack, by simp, ?_⟩
      rintro _ ⟨⟩
      obtain ⟨circular, clash⟩ := outcome.failed error rfl
      exact ⟨circular, query, List.mem_cons_self, other, named, clash⟩
    | ok x =>
      obtain ⟨result, last, ran, readied, stack, all, failed⟩ := ih (outcome.stack ▸ creates)
        outcome.ready fun query among => wired query (List.mem_cons_of_mem _ among)
      refine ⟨result, last, ran, readied, stack.trans outcome.stack, ?_, ?_⟩
      · intro u ok asked among bean denoted
        rcases List.mem_cons.mp among with rfl | later
        · obtain rfl : other = bean := Option.some.inj (named.symm.trans denoted)
          exact (outcome.made x rfl).2
        · exact all u ok asked later bean denoted
      · intro error erred
        obtain ⟨circular, asked, among, bean, denoted, clash⟩ := failed error erred
        refine ⟨circular, asked, List.mem_cons_of_mem _ among, bean, denoted, ?_⟩
        rwa [Thread.types, outcome.stack] at clash

def idle (r : Registry) (stack : List (Nat × String)) : Finset Nat :=
  (r.registered.map (·.implType)).toFinset \ (stack.map (·.1)).toFinset

theorem idle_card_le (stack : List (Nat × String)) : (idle r stack).card ≤ r.registered.length := by
  have listed := List.toFinset_card_le (r.registered.map (·.implType))
  rw [List.length_map] at listed
  exact (Finset.card_le_card Finset.sdiff_subset).trans listed

theorem idle_push (stack : List (Nat × String)) (typed : reg.implType ∈ r.registered.map (·.implType))
    (absent : reg.implType ∉ stack.map (·.1)) (name : String) :
    (idle r (stack ++ [(reg.implType, name)])).card < (idle r stack).card := by
  refine Finset.card_lt_card (Finset.ssubset_iff_of_subset ?_ |>.mpr ⟨reg.implType, ?_, ?_⟩)
  · refine Finset.sdiff_subset_sdiff (Finset.Subset.refl _) fun type among => ?_
    simp only [List.mem_toFinset, List.map_append, List.mem_append] at among ⊢
    exact .inl among
  · simp only [idle, Finset.mem_sdiff, List.mem_toFinset]
    exact ⟨typed, absent⟩
  · simp [idle]

theorem any_resolving {type : Nat} : t.resolving.any (·.1 = type) = true ↔ type ∈ t.types := by
  simp [Thread.types, List.any_eq_true]

@[simp] theorem types_push : (push reg t).types = t.types ++ [reg.implType] := by
  simp [push, Thread.types]

theorem createInstance_returns (declared : Declared r) (fixed : FixedLists app dependencies)
    (wired : Wired app dependencies r) (closed : Inductive app dependencies r P base)
    (fuel : Nat) : ∀ stack, (idle r stack).card < fuel →
      Returns app dependencies r P base stack (createInstance app fuel) := by
  induction fuel with
  | zero => exact fun stack less => absurd less (Nat.not_lt_zero _)
  | succ fuel ih =>
    intro stack less reg t reached ready stacked
    subst stacked
    by_cases creating : reg.implType ∈ t.types
    · simp only [createInstance, any_resolving.mpr creating, if_true]
      refine ⟨.error _, t, rfl, ready, rfl, fun x ok => (nomatch ok), ?_⟩
      rintro error ⟨⟩
      exact ⟨⟨_, _, rfl⟩, reg, .refl, .inl creating⟩
    · have pushed : Ready r P base (push reg t) :=
        ⟨ready.registry, fun type among => by simp [ready.above type among], ready.cached⟩
      have fewer := idle_push t.resolving (declared.typed reg reached) creating reg.typeName
      obtain ⟨result, after, ran, readied, stack, all, failed⟩ := runProgram_returns declared
        (ih (push reg t).resolving (by simp only [push]; omega)) pushed (wired reg reached)
      have stack : (pop after).resolving = t.resolving := by simp [pop, stack, push]
      have readied : Ready r P base (pop after) :=
        ⟨readied.registry, by rw [Thread.types, stack]; exact ready.above, readied.cached⟩
      simp only [createInstance, any_resolving.not.mpr creating, fixed reg.id, ran]
      cases result with
      | error error =>
        refine ⟨.error error, pop after, rfl, readied, stack, fun x ok => (nomatch ok), ?_⟩
        rintro _ ⟨⟩
        obtain ⟨circular, query, among, other, named, clash⟩ := failed error rfl
        rw [types_push] at clash
        exact ⟨circular, clash.of_needs ⟨query, among, named⟩⟩
      | ok u =>
        refine ⟨.ok _, pop after, rfl, readied, stack, ?_, fun error failed => (nomatch failed)⟩
        rintro x ⟨⟩
        refine ⟨rfl, closed reg (fun among => creating (ready.above _ among)) ?_⟩
        rintro other ⟨query, among, named⟩
        exact all u rfl query among other named

theorem needs_of_created (declared : Declared r) (fixed : FixedLists app dependencies)
    (wired : Wired app dependencies r) (closed : Inductive app dependencies r P base)
    (reached : r.Reachable reg) (ready : Ready r P base (push reg t)) {fuel : Nat}
    (less : (idle r (push reg t).resolving).card < fuel) {x : Instance}
    (created : createInstance app (fuel + 1) reg t = some (.ok x, after))
    (needs : Needs app dependencies r reg other) : P other := by
  obtain ⟨result, last, ran, -, -, all, -⟩ := runProgram_returns declared
    (createInstance_returns declared fixed wired closed fuel _ less) ready (wired reg reached)
  obtain ⟨query, among, named⟩ := needs
  by_cases creating : t.resolving.any (·.1 = reg.implType) = true
  · simp [createInstance, creating] at created
  · simp only [createInstance, creating, fixed reg.id, ran] at created
    cases result with
    | error error => simp at created
    | ok u => exact all u rfl query among other named

theorem call_returns (declared : Declared r) (fixed : FixedLists app dependencies)
    (wired : Wired app dependencies r) (closed : Inductive app dependencies r P base)
    (reached : r.Reachable reg) (ready : Ready r P base t) :
    ∃ result after, call app t reg = some (result, after) ∧
      Outcome app dependencies r P base t reg result after := by
  rw [call, ready.registry]
  exact resolveRegistration_returns declared (createInstance_returns declared fixed wired closed _ _
    (Nat.lt_succ_of_le (idle_card_le _))) reg t reached ready rfl

theorem created_of_call (declared : Declared r) (reached : r.Reachable reg)
    (registry : t.container.registry = r) (unkept : t.container.instances reg.id = none) {x : Instance}
    (called : call app t reg = some (.ok x, after)) :
    ∃ built last, createInstance app (r.registered.length + 1) reg t = some (.ok built, last) := by
  rw [call, registry] at called
  rcases declared.plain reg reached with scope | scope
  · simp only [resolveRegistration, scope, getOrCreate, unkept] at called
    split at called
    · cases called
    · cases called
    next built last created => exact ⟨built, last, created⟩
  · simp only [resolveRegistration, scope] at called
    exact ⟨x, after, called⟩

def Thread.Fresh (r : Registry) (t : Thread) : Prop :=
  t.container.registry = r ∧ t.resolving = [] ∧ t.container.instances = fun _ => none

theorem Thread.Fresh.ready (fresh : t.Fresh r) : Ready r P [] t where
  registry := fresh.1
  above := by simp
  cached := by simp [fresh.2.2]

theorem acyclic_closed : Inductive app dependencies r (¬ Cyclic app dependencies r ·) [] :=
  fun _ _ below => acyclic_step below

theorem unreached_closed (last : Registration) : Inductive app dependencies r
    (¬ ReflTransGen (Needs app dependencies r) · last) [last.implType] := by
  intro reg absent below reaches
  rcases ReflTransGen.cases_head reaches with rfl | ⟨next, needs, rest⟩
  · exact absent (List.mem_singleton_self _)
  · exact below next needs rest

theorem run_ready (declared : Declared r) (fixed : FixedLists app dependencies)
    (wired : Wired app dependencies r) {earlier : List Registration}
    (reached : ∀ reg ∈ earlier, r.Reachable reg) {start : Thread} (fresh : start.Fresh r)
    (ran : run (step app) start earlier = some t) :
    Ready r (¬ Cyclic app dependencies r ·) [] t ∧ t.resolving = [] := by
  refine run_invariant (fun t => Ready r (¬ Cyclic app dependencies r ·) [] t ∧ t.resolving = [])
    ?_ ⟨fresh.ready, fresh.2.1⟩ ran
  rintro t reg next among ⟨ready, empty⟩ stepped
  obtain ⟨result, after, called, outcome⟩ :=
    call_returns declared fixed wired acyclic_closed (reached reg among) ready
  obtain rfl : after = next := by simpa [step, called] using stepped
  exact ⟨outcome.ready, outcome.stack.trans empty⟩

/-- A registration that depends on one of its own type has a dependency cycle to run into. -/
def SelfTypedCyclic (app : App) (dependencies : Nat → List Query) (r : Registry) : Prop :=
  ∀ reg other, r.Reachable reg → TransGen (Needs app dependencies r) reg other →
    reg.implType = other.implType → Cyclic app dependencies r reg

theorem reachable_of_reaches (reaches : ReflTransGen (Needs app dependencies r) reg other)
    (reached : r.Reachable reg) : r.Reachable other := by
  induction reaches with
  | refl => exact reached
  | tail _ needs _ =>
    obtain ⟨query, -, named⟩ := needs
    exact reachable_of_denotes named

theorem cyclic_of_clash (typed : SelfTypedCyclic app dependencies r) (reached : r.Reachable reg)
    (clash : Clash app dependencies r [] reg) : Cyclic app dependencies r reg := by
  obtain ⟨last, -, none | ⟨first, reaches, twice, same⟩⟩ := clash
  · cases none
  · exact cyclic_of_reaches reaches (typed first last (reachable_of_reaches reaches reached) twice same)

theorem exact_of_selfTyped (declared : Declared r) (fixed : FixedLists app dependencies)
    (wired : Wired app dependencies r) (typed : SelfTypedCyclic app dependencies r)
    (reached : r.Reachable reg) (ready : Ready r (¬ Cyclic app dependencies r ·) [] t)
    (empty : t.resolving = []) : Exact app dependencies r t reg := by
  obtain ⟨result, after, called, outcome⟩ :=
    call_returns declared fixed wired acyclic_closed reached ready
  refine ⟨result, after, called, outcome.stack, ?_⟩
  cases result with
  | ok x =>
    have acyclic := (outcome.made x rfl).2
    exact ⟨fun ⟨chain, current, failed⟩ => (nomatch failed), fun cyclic => absurd cyclic acyclic⟩
  | error error =>
    obtain ⟨⟨chain, current, rfl⟩, clash⟩ := outcome.failed error rfl
    rw [Thread.types, empty] at clash
    exact ⟨fun _ => cyclic_of_clash typed reached clash, fun _ => ⟨chain, current, rfl⟩⟩

theorem selfTyped_of_exact (declared : Declared r) (fixed : FixedLists app dependencies)
    (wired : Wired app dependencies r) (reached : r.Reachable reg) (fresh : t.Fresh r)
    (exact_ : Exact app dependencies r t reg)
    (twice : TransGen (Needs app dependencies r) reg other) (same : reg.implType = other.implType) :
    Cyclic app dependencies r reg := by
  obtain ⟨result, after, called, -, circular⟩ := exact_
  refine circular.mp ?_
  cases result with
  | error error =>
    obtain ⟨result, after, again, outcome⟩ :=
      call_returns declared fixed wired acyclic_closed reached fresh.ready
    obtain ⟨rfl, rfl⟩ : .error error = result ∧ _ = after := by simpa [called] using again
    obtain ⟨⟨chain, current, rfl⟩, -⟩ := outcome.failed error rfl
    exact ⟨chain, current, rfl⟩
  | ok x =>
    obtain ⟨registry, empty, unkept⟩ := fresh
    obtain ⟨built, last, created⟩ :=
      created_of_call declared reached registry (congrFun unkept reg.id) called
    obtain ⟨next, needs, reaches⟩ := TransGen.head'_iff.mp twice
    have pushed : Ready r (¬ ReflTransGen (Needs app dependencies r) · other) [other.implType]
        (push reg t) :=
      ⟨registry, by simp [same], by simp [push, unkept]⟩
    have fewer := idle_push t.resolving (declared.typed reg reached) (by simp [empty]) reg.typeName
    have depth := idle_card_le (r := r) t.resolving
    exact absurd reaches (needs_of_created declared fixed wired (unreached_closed other) reached pushed
      (lt_of_lt_of_le fewer depth) created needs)

theorem Declared.install (declared : Declared r) {type : Nat} {scope : ScopeSpec} {name : String}
    {primary : Bool} (plain : scope = .builtin .singleton ∨ scope = .builtin .transient) :
    Declared (install app r type scope name primary) where
  known := by
    intro reg reached
    rcases reachable_of_install reached with rfl | before
    · exact Nat.lt_succ_self _
    · exact Nat.lt_succ_of_lt (declared.known reg before)
  told := by
    have fresh : ∀ reg, r.Reachable reg → reg.id ≠ r.nextId := fun reg reached =>
      Nat.ne_of_lt (declared.known reg reached)
    intro a b reachA reachB same
    rcases reachable_of_install reachA with rfl | beforeA
    · rcases reachable_of_install reachB with rfl | beforeB
      · rfl
      · exact absurd same.symm (fresh b beforeB)
    · rcases reachable_of_install reachB with rfl | beforeB
      · exact absurd same (fresh a beforeA)
      · exact declared.told a b beforeA beforeB same
  typed := by
    intro reg reached
    rcases reachable_of_install reached with rfl | before
    · exact typed_install (.inl rfl)
    · exact typed_install (.inr (declared.typed reg before))
  plain := by
    intro reg reached
    rcases reachable_of_install reached with rfl | before
    · exact plain
    · exact declared.plain reg before

theorem declared_of_run {declarations : List Choice} {s : State}
    (declares : ∀ choice ∈ declarations, Declares choice)
    (built : run (Beans.step app) start declarations = some s) :
    Declared s.registry ∧ s.instances = fun _ => none := by
  refine run_invariant (fun s => Declared s.registry ∧ s.instances = fun _ => none) ?_ ?_ built
  · rintro s choice s' among ⟨declared, unkept⟩ stepped
    have kind := declares choice among
    cases choice with
    | register type scope name primary =>
      obtain rfl := Option.some.inj stepped
      exact ⟨declared.install kind, unkept⟩
    | bind interface implementation =>
      obtain ⟨registry, bound, rfl⟩ := Option.map_eq_some_iff.mp stepped
      have before : ∀ reg, registry.Reachable reg → s.registry.Reachable reg :=
        fun _ => reachable_of_bind bound
      obtain ⟨reg, -, rfl⟩ := Option.map_eq_some_iff.mp bound
      exact ⟨⟨fun reg reached => declared.known reg (before reg reached),
        fun a b first second => declared.told a b (before a first) (before b second),
        fun reg reached => declared.typed reg (before reg reached),
        fun reg reached => declared.plain reg (before reg reached)⟩, unkept⟩
    | resolve query => cases kind
    | refresh handler => cases kind
  · have none : ∀ reg, ¬ start.registry.Reachable reg := by
      rintro reg (⟨type, among⟩ | ⟨name, there⟩)
      · cases among
      · cases there
    exact ⟨⟨fun reg reached => absurd reached (none reg), fun reg _ reached => absurd reached (none reg),
      fun reg reached => absurd reached (none reg), fun reg reached => absurd reached (none reg)⟩, rfl⟩

theorem cycles_detected_exactly (app : App) (dependencies : Nat → List Query)
    (fixed : FixedLists app dependencies) (declarations : List Choice) (s : State)
    (declares : ∀ choice ∈ declarations, Declares choice)
    (built : run (Beans.step app) start declarations = some s)
    (wired : Wired app dependencies s.registry) :
    (∀ earlier t, (∀ reg ∈ earlier, s.registry.Reachable reg) →
        run (step app) { container := s, resolving := [] } earlier = some t →
        ∀ reg, s.registry.Reachable reg → Exact app dependencies s.registry t reg) ↔
      SelfTypedCyclic app dependencies s.registry := by
  obtain ⟨declared, unkept⟩ := declared_of_run declares built
  have fresh : Thread.Fresh s.registry { container := s, resolving := [] } := ⟨rfl, rfl, unkept⟩
  constructor
  · intro exact_ reg other reached twice same
    exact selfTyped_of_exact declared fixed wired reached fresh (exact_ [] _ (by simp) rfl reg reached)
      twice same
  · intro typed earlier t reached ran reg there
    obtain ⟨ready, empty⟩ := run_ready declared fixed wired reached fresh ran
    exact exact_of_selfTyped declared fixed wired typed there ready empty

def poolDependencies : Nat → List Query
  | 1 => [.named 0 "replica"]
  | _ => []

def pool : App where
  typeName := fun _ => "Pool"
  factories := fun id _ => inOrder (poolDependencies id)
  handlers := fun _ => none

def poolDeclarations : List Choice :=
  [.register 0 (.builtin .singleton) "replica" false, .register 0 (.builtin .singleton) "primary" true]

def pools : State :=
  { start with
    registry :=
      install pool (install pool start.registry 0 (.builtin .singleton) "replica" false)
        0 (.builtin .singleton) "primary" true }

theorem cycles_detected_exactly_pools :
    (∀ earlier t, (∀ reg ∈ earlier, pools.registry.Reachable reg) →
        run (step pool) { container := pools, resolving := [] } earlier = some t →
        ∀ reg, pools.registry.Reachable reg → Exact pool poolDependencies pools.registry t reg) ↔
      SelfTypedCyclic pool poolDependencies pools.registry := by
  refine cycles_detected_exactly pool poolDependencies (fun _ _ => rfl) poolDeclarations pools
    (by simp [poolDeclarations, Declares]) rfl fun reg _ query among => ?_
  unfold poolDependencies at among
  split at among
  · obtain rfl := List.mem_singleton.mp among
    exact ⟨_, rfl⟩
  · cases among

def primaryPool : Registration where
  id := 1
  implType := 0
  typeName := "Pool"
  scope := .builtin .singleton
  name := "primary"
  primary := true

theorem circular_without_cycle :
    ¬ ∀ earlier t, (∀ reg ∈ earlier, pools.registry.Reachable reg) →
        run (step pool) { container := pools, resolving := [] } earlier = some t →
        ∀ reg, pools.registry.Reachable reg → Exact pool poolDependencies pools.registry t reg := by
  intro exact_
  have downward : ∀ a b, Needs pool poolDependencies pools.registry a b → b.id < a.id := by
    rintro a b ⟨query, among, named⟩
    unfold poolDependencies at among
    split at among
    next one =>
      obtain rfl := List.mem_singleton.mp among
      obtain rfl := Option.some.inj named
      rw [one]
      decide
    · cases among
  have below : ∀ a b, TransGen (Needs pool poolDependencies pools.registry) a b → b.id < a.id := by
    intro a b path
    induction path with
    | single needs => exact downward _ _ needs
    | tail _ needs ih => exact (downward _ _ needs).trans ih
  have failed : (call pool { container := pools, resolving := [] } primaryPool).map (·.1) =
      some (.error (.circularDependency ["Pool"] "Pool")) := by decide +kernel
  obtain ⟨result, after, called, -, circular⟩ :=
    exact_ [] _ (by simp) rfl primaryPool (.inr ⟨"primary", rfl⟩)
  rw [called] at failed
  obtain ⟨other, -, cycle⟩ := circular.mp ⟨_, _, Option.some.inj failed⟩
  exact lt_irrefl _ (below other other cycle)

end Firefly.Container.Cycles
