import Firefly.Security.RoleHierarchy

set_option autoImplicit false

namespace Firefly.Security

def ANONYMOUS_ID : String := "anonymous"

structure Authentication where
  principal : String
  roles : List String
  authorities : List String
deriving DecidableEq, Repr

structure Request where
  method : String
  path : String
  authentication : Option Authentication
deriving DecidableEq, Repr

def Request.from (self : Request) (auth : Authentication) : Request :=
  { self with authentication := some auth }

structure Rule where
  method : Option String
  pathPrefix : String
  pattern : Option String
  roles : List String
  authorities : List String
  allow : Bool
  deny : Bool
  catchAll : Bool
deriving DecidableEq, Repr

def Rule.default : Rule :=
  { method := none, pathPrefix := "", pattern := none, roles := [], authorities := []
    allow := false, deny := false, catchAll := false }

def eqIgnoreAsciiCase (one other : String) : Bool :=
  one.toList.map Char.toLower == other.toList.map Char.toLower

def Rule.methodMatches (self : Rule) (method : String) : Bool :=
  match self.method with
  | some own => eqIgnoreAsciiCase own method
  | none => true

def prefixMatches (path pathPrefix : String) : Bool :=
  if pathPrefix.toList.isEmpty then true
  else if pathPrefix.toList.isPrefixOf path.toList then
    let rest := path.toList.drop pathPrefix.toList.length
    rest.isEmpty || rest.head? == some '/' || pathPrefix.toList.getLast? == some '/'
  else false

/-- `glob` is the compiled matcher of the rule's pattern. -/
structure CompiledRule where
  rule : Rule
  glob : Option (String → Bool)

def CompiledRule.matches (self : CompiledRule) (method path : String) : Bool :=
  if !self.rule.methodMatches method then false
  else if self.rule.catchAll then true
  else
    match self.glob with
    | some glob => glob path
    | none => prefixMatches path self.rule.pathPrefix

structure FilterChain where
  rules : List Rule
  hierarchy : Option RoleHierarchy
deriving DecidableEq, Repr

namespace FilterChain

def new : FilterChain := { rules := [], hierarchy := none }

def push (self : FilterChain) (rule : Rule) : FilterChain :=
  { self with rules := self.rules ++ [rule] }

def permit (self : FilterChain) (pathPrefix : String) : FilterChain :=
  self.push { Rule.default with pathPrefix, allow := true }

def permitMethod (self : FilterChain) (method pathPrefix : String) : FilterChain :=
  self.push { Rule.default with method := some method, pathPrefix, allow := true }

def permitPattern (self : FilterChain) (pattern : String) : FilterChain :=
  self.push { Rule.default with pattern := some pattern, allow := true }

def require (self : FilterChain) (pathPrefix : String) (roles : List String) : FilterChain :=
  self.push { Rule.default with pathPrefix, roles }

def requirePattern (self : FilterChain) (pattern : String) (roles : List String) : FilterChain :=
  self.push { Rule.default with pattern := some pattern, roles }

def requireAuthority (self : FilterChain) (pattern : String) (authorities : List String) :
    FilterChain :=
  self.push { Rule.default with pattern := some pattern, authorities }

def authenticated (self : FilterChain) (pattern : String) : FilterChain :=
  self.push { Rule.default with pattern := some pattern }

def deny (self : FilterChain) (pattern : String) : FilterChain :=
  self.push { Rule.default with pattern := some pattern, deny := true }

def anyRequestPermit (self : FilterChain) : FilterChain :=
  self.push { Rule.default with allow := true, catchAll := true }

def anyRequestAuthenticated (self : FilterChain) : FilterChain :=
  self.push { Rule.default with catchAll := true }

def anyRequestDeny (self : FilterChain) : FilterChain :=
  self.push { Rule.default with deny := true, catchAll := true }

def withRoleHierarchy (self : FilterChain) (hierarchy : RoleHierarchy) : FilterChain :=
  { self with hierarchy := some hierarchy }

end FilterChain

structure FilterChainLayer where
  rules : List CompiledRule
  hierarchy : Option RoleHierarchy

def compileRule {ε : Type} (compileGlob : String → Except ε (String → Bool)) (rule : Rule) :
    Except ε CompiledRule :=
  match rule.pattern with
  | some pattern => (compileGlob pattern).map fun glob => { rule, glob := some glob }
  | none => .ok { rule, glob := none }

def FilterChain.tryLayer {ε : Type} (compileGlob : String → Except ε (String → Bool))
    (self : FilterChain) : Except ε FilterChainLayer :=
  (self.rules.mapM (compileRule compileGlob)).map fun rules => { rules, hierarchy := self.hierarchy }

inductive Verdict where
  | pass
  | unauthorized
  | forbidden (detail : String)
deriving DecidableEq, Repr

def roleMatches (effectiveRoles authorities : List String) (ruleRole : String) : Bool :=
  effectiveRoles.contains ruleRole || effectiveRoles.contains (ROLE_PREFIX ++ ruleRole) ||
    authorities.contains (ROLE_PREFIX ++ ruleRole)

def effectiveRoles (hierarchy : Option RoleHierarchy) (roles : List String) : List String :=
  match hierarchy with
  | some hierarchy => hierarchy.expand roles
  | none => roles

def decideRule (hierarchy : Option RoleHierarchy) (rule : Rule) (request : Request) : Verdict :=
  if rule.allow then .pass
  else if rule.deny then .forbidden "access denied"
  else
    match request.authentication with
    | none => .unauthorized
    | some auth =>
      if auth.principal = "" ∨ auth.principal = ANONYMOUS_ID then .unauthorized
      else
        let effective := effectiveRoles hierarchy auth.roles
        if rule.roles ≠ [] ∧ ¬ rule.roles.any (roleMatches effective auth.authorities) then
          .forbidden "required role missing"
        else if rule.authorities ≠ [] ∧ ¬ rule.authorities.any (fun authority =>
            effective.contains authority || auth.authorities.contains authority) then
          .forbidden "required authority missing"
        else .pass

def decideFrom (hierarchy : Option RoleHierarchy) (request : Request) (unmatched : Verdict) :
    List CompiledRule → Verdict
  | [] => unmatched
  | compiled :: rest =>
    if !compiled.matches request.method request.path then
      decideFrom hierarchy request unmatched rest
    else decideRule hierarchy compiled.rule request

def FilterChainLayer.unmatched (self : FilterChainLayer) : Verdict :=
  if self.rules.isEmpty then .pass
  else .forbidden "Access to this resource is denied (no matching security rule)."

def FilterChainLayer.decide (self : FilterChainLayer) (request : Request) : Verdict :=
  decideFrom self.hierarchy request self.unmatched self.rules

def FilterChainLayer.firstMatch (self : FilterChainLayer) (request : Request) : Option Rule :=
  (self.rules.find? (·.matches request.method request.path)).map CompiledRule.rule

theorem decideFrom_eq (hierarchy : Option RoleHierarchy) (request : Request) (unmatched : Verdict)
    (rules : List CompiledRule) :
    decideFrom hierarchy request unmatched rules =
      match (rules.find? (·.matches request.method request.path)).map CompiledRule.rule with
      | some rule => decideRule hierarchy rule request
      | none => unmatched := by
  induction rules with
  | nil => rfl
  | cons compiled rest ih =>
    rw [decideFrom, List.find?_cons]
    cases applies : compiled.matches request.method request.path with
    | true => simp
    | false => simpa using ih

theorem FilterChainLayer.decide_eq (layer : FilterChainLayer) (request : Request) :
    layer.decide request =
      match layer.firstMatch request with
      | some rule => decideRule layer.hierarchy rule request
      | none => layer.unmatched :=
  decideFrom_eq _ _ _ _

end Firefly.Security
