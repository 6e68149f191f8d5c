import Firefly.Shared.Runs
import Firefly.Shared.Tables
import Firefly.Shared.Text

set_option autoImplicit false

namespace Firefly.Container.Beans

open Runs Tables Text

inductive Scope where
  | singleton
  | transient
  | request
  | session
deriving DecidableEq, Repr

def Scope.name : Scope → String
  | .singleton => "singleton"
  | .transient => "transient"
  | .request => "request"
  | .session => "session"

inductive ScopeSpec where
  | builtin (scope : Scope)
  | custom (name : String)
deriving DecidableEq, Repr

def ScopeSpec.name : ScopeSpec → String
  | .builtin scope => scope.name
  | .custom name => name

def ScopeSpec.handled : ScopeSpec → Bool
  | .builtin .singleton | .builtin .transient => false
  | _ => true

/-- Implementations are sized types, interfaces are trait objects. -/
inductive TypeId where
  | bean (type : Nat)
  | interface (type : Nat)
deriving DecidableEq, Repr

/-- Registrations are told apart by `id`, as the pointers are; it also tells the factory. -/
structure Registration where
  id : Nat
  implType : Nat
  typeName : String
  scope : ScopeSpec
  name : String
  primary : Bool
deriving DecidableEq, Repr

def Registration.displayName (reg : Registration) : String :=
  if reg.name = "" then reg.typeName else reg.name

def Registration.cacheKey (reg : Registration) : String := "__firefly_bean_" ++ reg.typeName

/-- An instance is told by the creation that made it: its number, and whose factory ran. -/
structure Instance where
  number : Nat
  type : Nat
  producer : Nat
deriving DecidableEq, Repr

inductive ContainerError where
  | noSuchBean (beanType beanName parameter : Option String)
  | noUniqueBean (beanType : String) (candidates : List String)
  | circularDependency (chain : List String) (current : String)
  | beanCreation (bean message : String)
deriving DecidableEq, Repr

def noSuchType (beanType : String) : ContainerError := .noSuchBean (some beanType) none none

def noSuchName (beanName : String) : ContainerError := .noSuchBean none (some beanName) none

inductive Query where
  | type (type : TypeId)
  | named (type : Nat) (name : String)
deriving DecidableEq, Repr

abbrev Result := Except ContainerError Instance

/-- What a call of a factory does with the container: it resolves beans, one after the other, and
depending on what it is given ends with a new value or an error. -/
inductive Program where
  | done (result : Except ContainerError Unit)
  | resolve (query : Query) (next : Result → Program)

/-- `factories` is what the call with a number of the factory of a registration does; `handlers` is
the handler, each a `RefreshScope`, that is registered under the name of a scope. -/
structure App where
  typeName : TypeId → String
  factories : Nat → Nat → Program
  handlers : String → Option Nat

structure Handout where
  query : Query
  registration : Nat
  latest : Option Nat
  handed : Instance
deriving DecidableEq, Repr

/-- `latest` and `binds` are no fields of the source: the last registration made under each name, and
the interfaces with their implementations. -/
structure Registry where
  byType : TypeId → List Registration
  byName : String → Option Registration
  registered : List Registration
  nextId : Nat
  latest : String → Option Nat
  binds : List (Nat × Nat)

/-- The instances of the singletons and those that the handlers keep. `handouts` is what was handed
out so far. -/
structure State where
  registry : Registry
  instances : Nat → Option Instance
  caches : Nat → String → Option Instance
  nextInstance : Nat
  handouts : List Handout

def start : State where
  registry :=
    { byType := fun _ => [], byName := fun _ => none, registered := [], nextId := 0
      latest := fun _ => none, binds := [] }
  instances := fun _ => none
  caches := fun _ _ => none
  nextInstance := 0
  handouts := []

variable (app : App)

def without (type : Nat) (name : String) (regs : List Registration) : List Registration :=
  regs.filter fun reg => ¬ (reg.implType = type ∧ reg.name = name)

def newRegistration (r : Registry) (type : Nat) (scope : ScopeSpec) (name : String) (primary : Bool) :
    Registration :=
  { id := r.nextId, implType := type, typeName := app.typeName (.bean type), scope, name, primary }

def install (r : Registry) (type : Nat) (scope : ScopeSpec) (name : String) (primary : Bool) :
    Registry :=
  let reg := newRegistration app r type scope name primary
  { r with
    byType := Function.update r.byType (.bean type) (without type name (r.byType (.bean type)) ++ [reg])
    byName := if name = "" then r.byName else Function.update r.byName name (some reg)
    registered := without type name r.registered ++ [reg]
    nextId := r.nextId + 1
    latest := Function.update r.latest name (some reg.id) }

-- Without a registration of the implementation the call panics.
def bind (r : Registry) (interface implementation : Nat) : Option Registry :=
  ((r.byType (.bean implementation)).find? fun reg => reg.implType = implementation).map fun reg =>
    { r with
      byType := Function.update r.byType (.interface interface)
        (r.byType (.interface interface) ++ [reg])
      binds := (interface, implementation) :: r.binds }

def chooseEntry (r : Registry) (type : TypeId) : Except ContainerError Registration :=
  match r.byType type with
  | [] => .error (noSuchType (app.typeName type))
  | [reg] => .ok reg
  | entries =>
    match entries.filter (·.primary) with
    | [reg] => .ok reg
    | _ => .error (.noUniqueBean (app.typeName type) (entries.map (·.displayName)))

def getOrCreate (cached : State → Option Instance) (cache : State → Instance → State)
    (create : State → Result × State) (s : State) : Result × State :=
  match cached s with
  | some existing => (.ok existing, s)
  | none =>
    match create s with
    | (.error error, s) => (.error error, s)
    | (.ok built, s) =>
      match cached s with
      | some existing => (.ok existing, s)
      | none => (.ok built, cache s built)

def cacheInstance (id : Nat) (s : State) (built : Instance) : State :=
  { s with instances := Function.update s.instances id (some built) }

def cacheScoped (handler : Nat) (key : String) (s : State) (built : Instance) : State :=
  { s with
    caches := Function.update s.caches handler (Function.update (s.caches handler) key (some built)) }

def viaScopeHandler (create : Registration → State → Result × State) (reg : Registration) (s : State) :
    Result × State :=
  match app.handlers reg.scope.name with
  | none =>
    (.error (.noSuchBean (some reg.typeName) none (some ("custom scope " ++ debugStr reg.scope.name ++
      " is not registered for bean " ++ reg.displayName ++ "; call register_scope(" ++
      debugStr reg.scope.name ++ ", handler) first"))), s)
  | some handler =>
    getOrCreate (fun s => s.caches handler reg.cacheKey) (cacheScoped handler reg.cacheKey)
      (create reg) s

def resolveRegistration (create : Registration → State → Result × State) (reg : Registration)
    (s : State) : Result × State :=
  match reg.scope with
  | .builtin .singleton =>
    getOrCreate (fun s => s.instances reg.id) (cacheInstance reg.id) (create reg) s
  | .builtin .transient => create reg s
  | _ => viaScopeHandler app create reg s

def handOut (s : State) (query : Query) (reg : Registration) (latest : Option Nat)
    (handed : Instance) : State :=
  { s with handouts := { query, registration := reg.id, latest, handed } :: s.handouts }

-- The casters downcast to the implementation type.
def resolveQuery (create : Registration → State → Result × State) (query : Query) (s : State) :
    Result × State :=
  match query with
  | .type type =>
    match chooseEntry app s.registry type with
    | .error error => (.error error, s)
    | .ok reg =>
      match resolveRegistration app create reg s with
      | (.error error, s) => (.error error, s)
      | (.ok shared, s) =>
        if shared.type = reg.implType then (.ok shared, handOut s query reg none shared)
        else (.error (noSuchType (app.typeName type)), s)
  | .named type name =>
    match s.registry.byName name with
    | none => (.error (noSuchName name), s)
    | some reg =>
      match resolveRegistration app create reg s with
      | (.error error, s) => (.error error, s)
      | (.ok shared, s) =>
        if shared.type = type then (.ok shared, handOut s query reg (s.registry.latest name) shared)
        else
          (.error (.noSuchBean (some (app.typeName (.bean type))) (some name)
            (some ("bean " ++ debugStr name ++ " is registered as " ++ reg.typeName ++
              ", not assignable to " ++ app.typeName (.bean type)))), s)

def runProgram (resolve : Query → State → Result × State) :
    Program → State → Except ContainerError Unit × State
  | .done result, s => (result, s)
  | .resolve query next, s =>
    let (result, s) := resolve query s
    runProgram resolve (next result) s

-- `creating` are the types in creation, outermost first. Each nested creation adds a type, so more
-- fuel than there are types is never used up.
def createInstance : Nat → List (Nat × String) → Registration → State → Result × State
  | 0, creating, reg, s => (.error (.circularDependency (creating.map (·.2)) reg.typeName), s)
  | fuel + 1, creating, reg, s =>
    if creating.any (·.1 = reg.implType) then
      (.error (.circularDependency (creating.map (·.2)) reg.typeName), s)
    else
      let resolve := resolveQuery app
        (createInstance fuel (creating ++ [(reg.implType, reg.typeName)]))
      match runProgram resolve (app.factories reg.id s.nextInstance)
          { s with nextInstance := s.nextInstance + 1 } with
      | (.error error, after) => (.error error, after)
      | (.ok _, after) =>
        (.ok { number := s.nextInstance, type := reg.implType, producer := reg.id }, after)

def resolve (query : Query) (s : State) : Result × State :=
  resolveQuery app (createInstance app (s.registry.registered.length + 1) []) query s

inductive Choice where
  | register (type : Nat) (scope : ScopeSpec) (name : String) (primary : Bool)
  | bind (interface implementation : Nat)
  | resolve (query : Query)
  | refresh (handler : Nat)
deriving DecidableEq, Repr

def step (s : State) : Choice → Option State
  | .register type scope name primary =>
    some { s with registry := install app s.registry type scope name primary }
  | .bind interface implementation =>
    (Beans.bind s.registry interface implementation).map fun registry => { s with registry }
  | .resolve query => some (Beans.resolve app query s).2
  | .refresh handler => some { s with caches := Function.update s.caches handler fun _ => none }

end Firefly.Container.Beans
