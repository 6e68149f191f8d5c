import Firefly.Security.FilterChain

set_option autoImplicit false

namespace Firefly.Security

def isBare (role : String) : Bool := !ROLE_PREFIX.toList.isPrefixOf role.toList

inductive Spelling where
  | role
  | prefixedRole
  | prefixedAuthority
deriving DecidableEq, Repr

def insertAt (values : List String) (position : Nat) (value : String) : List String :=
  values.take position ++ value :: values.drop position

def Authentication.write (self : Authentication) (role : String) (position : Nat) :
    Spelling → Authentication
  | .role => { self with roles := insertAt self.roles position role }
  | .prefixedRole => { self with roles := insertAt self.roles position (ROLE_PREFIX ++ role) }
  | .prefixedAuthority =>
    { self with authorities := insertAt self.authorities position (ROLE_PREFIX ++ role) }

def SameAccess (layer : FilterChainLayer) (request : Request) (auth : Authentication)
    (role : String) : Prop :=
  ∀ one other position place,
    layer.decide (request.from (auth.write role position one)) =
      layer.decide (request.from (auth.write role place other))

def OnlyAdds (layer : FilterChainLayer) : Prop :=
  ∀ (request : Request) (auth more : Authentication), more.principal = auth.principal →
    auth.roles ⊆ more.roles → auth.authorities ⊆ more.authorities →
    layer.decide (request.from auth) = .pass → layer.decide (request.from more) = .pass

structure Rule.AsksRole (rule : Rule) : Prop where
  allow : rule.allow = false
  deny : rule.deny = false
  asking : rule.roles ≠ []
  bare : ∀ role ∈ rule.roles, isBare role = true
  only : rule.authorities = []

def RoleHierarchy.Bare (self : RoleHierarchy) : Prop :=
  ∀ pair ∈ self.implies, isBare pair.1 = true ∧ isBare pair.2 = true

def Leads (hierarchy : Option RoleHierarchy) (role other : String) : Prop :=
  (hierarchy.getD .new).Implies role other

def Authentication.isAuthenticated (self : Authentication) : Bool :=
  self.principal != "" && self.principal != ANONYMOUS_ID

def Rule.met (self : Rule) (hierarchy : Option RoleHierarchy) (auth : Authentication) : Bool :=
  self.roles.any (roleMatches (effectiveRoles hierarchy auth.roles) auth.authorities)

/-- The spelling of the role cannot matter to the rule: nobody is authenticated, the rule is met
without the role, the rule names the role itself, or the role leads to none the rule names. -/
def SpellingIdle (hierarchy : Option RoleHierarchy) (rule : Rule) (auth : Authentication)
    (role : String) : Prop :=
  auth.isAuthenticated = true → rule.met hierarchy auth = false → role ∉ rule.roles →
    ∀ required ∈ rule.roles, ¬ Leads hierarchy role required

section Leading

variable {hierarchy : Option RoleHierarchy} {roles : List String} {role other : String}

theorem mem_insertAt (values : List String) (position : Nat) (value entry : String) :
    entry ∈ insertAt values position value ↔ entry = value ∨ entry ∈ values := by
  conv_rhs => rw [← List.take_append_drop position values]
  simp only [insertAt, List.mem_append, List.mem_cons]
  tauto

theorem not_bare_prefixed (role : String) : isBare (ROLE_PREFIX ++ role) = false := by
  simp [isBare]

theorem mem_effectiveRoles :
    role ∈ effectiveRoles hierarchy roles ↔ ∃ own ∈ roles, Leads hierarchy own role := by
  cases hierarchy with
  | some hierarchy => exact hierarchy.mem_expand roles role
  | none =>
    rw [effectiveRoles]
    constructor
    · intro inside
      exact ⟨role, inside, .refl⟩
    · rintro ⟨own, inside, path⟩
      -- the hierarchy without pairs leads from a role to itself only
      rcases path.cases_head with rfl | ⟨middle, led, -⟩
      · exact inside
      · simp [RoleHierarchy.impliedBy, RoleHierarchy.new] at led

theorem bare_of_led (bare : (hierarchy.getD .new).Bare) (path : Leads hierarchy role other) :
    role = other ∨ isBare role = true ∧ isBare other = true := by
  induction path with
  | refl => exact Or.inl rfl
  | tail _ led ih =>
    right
    simp only [RoleHierarchy.impliedBy, List.mem_map, List.mem_filter, decide_eq_true_eq] at led
    obtain ⟨pair, ⟨declared, rfl⟩, rfl⟩ := led
    have ends := bare pair declared
    rcases ih with rfl | first
    · exact ends
    · exact ⟨first.1, ends.2⟩

theorem bare_prefixed (bare : (hierarchy.getD .new).Bare)
    (path : Leads hierarchy role (ROLE_PREFIX ++ other)) : role = ROLE_PREFIX ++ other := by
  rcases bare_of_led bare path with same | ends
  · exact same
  · simp [not_bare_prefixed] at ends

theorem prefixed_leads (bare : (hierarchy.getD .new).Bare)
    (path : Leads hierarchy (ROLE_PREFIX ++ role) other) : ROLE_PREFIX ++ role = other := by
  rcases bare_of_led bare path with same | ends
  · exact same
  · simp [not_bare_prefixed] at ends

theorem prefixed_inj (same : ROLE_PREFIX ++ role = ROLE_PREFIX ++ other) : role = other := by
  exact (String.append_right_inj _).mp same

theorem met_iff (rule : Rule) (auth : Authentication) :
    rule.met hierarchy auth = true ↔ ∃ required ∈ rule.roles,
      (∃ own ∈ auth.roles, Leads hierarchy own required ∨
        Leads hierarchy own (ROLE_PREFIX ++ required)) ∨
      ROLE_PREFIX ++ required ∈ auth.authorities := by
  simp only [Rule.met, List.any_eq_true, roleMatches, Bool.or_eq_true, List.contains_iff_mem,
    mem_effectiveRoles]
  constructor
  · rintro ⟨required, asked, (⟨own, inside, path⟩ | ⟨own, inside, path⟩) | authority⟩
    · exact ⟨required, asked, Or.inl ⟨own, inside, Or.inl path⟩⟩
    · exact ⟨required, asked, Or.inl ⟨own, inside, Or.inr path⟩⟩
    · exact ⟨required, asked, Or.inr authority⟩
  · rintro ⟨required, asked, ⟨own, inside, path | path⟩ | authority⟩
    · exact ⟨required, asked, Or.inl (Or.inl ⟨own, inside, path⟩)⟩
    · exact ⟨required, asked, Or.inl (Or.inr ⟨own, inside, path⟩)⟩
    · exact ⟨required, asked, Or.inr authority⟩

end Leading

section Written

variable {hierarchy : Option RoleHierarchy} {rule : Rule} {auth : Authentication} {role : String}

def Adds (hierarchy : Option RoleHierarchy) (rule : Rule) (role : String) : Spelling → Prop
  | .role => ∃ required ∈ rule.roles, Leads hierarchy role required
  | .prefixedRole | .prefixedAuthority => role ∈ rule.roles

theorem met_write (asks : rule.AsksRole) (bare : (hierarchy.getD .new).Bare)
    (bareRole : isBare role = true) (position : Nat) (spelling : Spelling) :
    rule.met hierarchy (auth.write role position spelling) = true ↔
      rule.met hierarchy auth = true ∨ Adds hierarchy rule role spelling := by
  rw [met_iff, met_iff]
  cases spelling with
  | role =>
    simp only [Authentication.write, mem_insertAt, Adds]
    constructor
    · rintro ⟨required, asked, ⟨own, rfl | held, path⟩ | authority⟩
      · refine Or.inr ⟨required, asked, path.resolve_right fun prefixed => ?_⟩
        -- a bare role leads to no prefixed one
        have last := bare_prefixed bare prefixed
        rw [last, not_bare_prefixed] at bareRole
        cases bareRole
      · exact Or.inl ⟨required, asked, Or.inl ⟨own, held, path⟩⟩
      · exact Or.inl ⟨required, asked, Or.inr authority⟩
    · rintro (⟨required, asked, ⟨own, held, path⟩ | authority⟩ | ⟨required, asked, path⟩)
      · exact ⟨required, asked, Or.inl ⟨own, Or.inr held, path⟩⟩
      · exact ⟨required, asked, Or.inr authority⟩
      · exact ⟨required, asked, Or.inl ⟨role, Or.inl rfl, Or.inl path⟩⟩
  | prefixedRole =>
    simp only [Authentication.write, mem_insertAt, Adds]
    constructor
    · rintro ⟨required, asked, ⟨own, rfl | held, path⟩ | authority⟩
      · right
        -- the hierarchy knows no prefixed role, so this one leads to itself only
        rcases path with path | path
        · have same := prefixed_leads bare path
          have plain := asks.bare required asked
          rw [← same, not_bare_prefixed] at plain
          cases plain
        · rw [prefixed_inj (prefixed_leads bare path)]
          exact asked
      · exact Or.inl ⟨required, asked, Or.inl ⟨own, held, path⟩⟩
      · exact Or.inl ⟨required, asked, Or.inr authority⟩
    · rintro (⟨required, asked, ⟨own, held, path⟩ | authority⟩ | asked)
      · exact ⟨required, asked, Or.inl ⟨own, Or.inr held, path⟩⟩
      · exact ⟨required, asked, Or.inr authority⟩
      · exact ⟨role, asked, Or.inl ⟨ROLE_PREFIX ++ role, Or.inl rfl, Or.inr .refl⟩⟩
  | prefixedAuthority =>
    simp only [Authentication.write, mem_insertAt, Adds]
    constructor
    · rintro ⟨required, asked, holds | same | authority⟩
      · exact Or.inl ⟨required, asked, Or.inl holds⟩
      · right
        rw [← prefixed_inj same]
        exact asked
      · exact Or.inl ⟨required, asked, Or.inr authority⟩
    · rintro (⟨required, asked, holds | authority⟩ | asked)
      · exact ⟨required, asked, Or.inl holds⟩
      · exact ⟨required, asked, Or.inr (Or.inr authority)⟩
      · exact ⟨role, asked, Or.inr (Or.inl rfl)⟩

theorem decideRule_asks (asks : rule.AsksRole) (request : Request) :
    decideRule hierarchy rule (request.from auth) =
      if auth.isAuthenticated = false then .unauthorized
      else if rule.met hierarchy auth then .pass else .forbidden "required role missing" := by
  have only := asks.only
  simp only [decideRule, asks.allow, asks.deny, Request.from, Bool.false_eq_true, if_false]
  cases known : auth.isAuthenticated with
  | false =>
    have unnamed : auth.principal = "" ∨ auth.principal = ANONYMOUS_ID := by
      simpa [Authentication.isAuthenticated, imp_iff_not_or] using known
    rw [if_pos unnamed, if_pos rfl]
  | true =>
    have named : ¬ (auth.principal = "" ∨ auth.principal = ANONYMOUS_ID) := by
      simpa [Authentication.isAuthenticated] using known
    have certain : ¬ true = false := by simp
    rw [if_neg named, if_neg certain]
    change (if rule.roles ≠ [] ∧ ¬ rule.met hierarchy auth = true then _
      else if rule.authorities ≠ [] ∧ _ then _ else _) = _
    by_cases met : rule.met hierarchy auth = true
    · rw [if_pos met, if_neg (fun missing => missing.2 met), if_neg (fun missing => missing.1 only)]
    · rw [if_neg met, if_pos ⟨asks.asking, met⟩]

theorem write_isAuthenticated (position : Nat) (spelling : Spelling) :
    (auth.write role position spelling).isAuthenticated = auth.isAuthenticated := by
  cases spelling <;> rfl

end Written

theorem roleMatches_mono {roles authorities moreRoles moreAuthorities : List String}
    (wider : roles ⊆ moreRoles) (bolder : authorities ⊆ moreAuthorities) {required : String}
    (holds : roleMatches roles authorities required = true) :
    roleMatches moreRoles moreAuthorities required = true := by
  simp only [roleMatches, Bool.or_eq_true, List.contains_iff_mem] at holds ⊢
  exact holds.imp (Or.imp (@wider _) (@wider _)) (@bolder _)

theorem effectiveRoles_mono (hierarchy : Option RoleHierarchy) {roles more : List String}
    (held : roles ⊆ more) : effectiveRoles hierarchy roles ⊆ effectiveRoles hierarchy more := by
  intro role inside
  rw [mem_effectiveRoles] at inside ⊢
  obtain ⟨own, listed, path⟩ := inside
  exact ⟨own, held listed, path⟩

theorem decideRule_onlyAdds (hierarchy : Option RoleHierarchy) (rule : Rule) (request : Request)
    {auth more : Authentication} (same : more.principal = auth.principal)
    (held : auth.roles ⊆ more.roles) (bolder : auth.authorities ⊆ more.authorities)
    (passed : decideRule hierarchy rule (request.from auth) = .pass) :
    decideRule hierarchy rule (request.from more) = .pass := by
  have wider := effectiveRoles_mono hierarchy held
  simp only [decideRule, Request.from, same] at passed ⊢
  by_cases allowed : rule.allow = true
  · rw [if_pos allowed]
  rw [if_neg allowed] at passed ⊢
  by_cases denied : rule.deny = true
  · simp [denied] at passed
  rw [if_neg denied] at passed ⊢
  by_cases unnamed : auth.principal = "" ∨ auth.principal = ANONYMOUS_ID
  · simp [unnamed] at passed
  rw [if_neg unnamed] at passed ⊢
  -- both requirements were met, and what met them is still held
  split at passed
  next => cases passed
  next roled =>
    split at passed
    next => cases passed
    next authorized =>
      have role_met : ¬ (rule.roles ≠ [] ∧ ¬ rule.roles.any (roleMatches
          (effectiveRoles hierarchy more.roles) more.authorities) = true) := by
        rintro ⟨asking, missing⟩
        apply roled
        refine ⟨asking, fun met => missing ?_⟩
        rw [List.any_eq_true] at met ⊢
        obtain ⟨required, asked, holds⟩ := met
        exact ⟨required, asked, roleMatches_mono wider bolder holds⟩
      rw [if_neg role_met, if_neg]
      rintro ⟨asking, missing⟩
      apply authorized
      refine ⟨asking, fun met => missing ?_⟩
      rw [List.any_eq_true] at met ⊢
      obtain ⟨required, asked, holds⟩ := met
      refine ⟨required, asked, ?_⟩
      simp only [Bool.or_eq_true, List.contains_iff_mem] at holds ⊢
      exact holds.imp (@wider _) (@bolder _)

theorem onlyAdds (layer : FilterChainLayer) : OnlyAdds layer := by
  intro request auth more same held bolder passed
  rw [FilterChainLayer.decide_eq] at passed ⊢
  have routed : ∀ given, layer.firstMatch (request.from given) = layer.firstMatch request :=
    fun _ => rfl
  rw [routed] at passed ⊢
  cases first : layer.firstMatch request with
  | none => simpa [first] using passed
  | some rule =>
    rw [first] at passed
    exact decideRule_onlyAdds _ _ _ same held bolder passed

theorem role_spelling_iff (layer : FilterChainLayer) (request : Request) (auth : Authentication)
    (role : String) (rule : Rule) (bareRole : isBare role = true)
    (bare : (layer.hierarchy.getD .new).Bare) (first : layer.firstMatch request = some rule)
    (asks : rule.AsksRole) :
    SameAccess layer request auth role ∧ OnlyAdds layer ↔
      SpellingIdle layer.hierarchy rule auth role := by
  have verdict : ∀ position spelling,
      layer.decide (request.from (auth.write role position spelling)) =
        if auth.isAuthenticated = false then .unauthorized
        else if rule.met layer.hierarchy (auth.write role position spelling) then .pass
        else .forbidden "required role missing" := by
    intro position spelling
    have same : layer.firstMatch (request.from (auth.write role position spelling)) = some rule :=
      first
    rw [FilterChainLayer.decide_eq, same]
    simp only
    rw [decideRule_asks asks, write_isAuthenticated]
  rw [and_iff_left (onlyAdds layer)]
  constructor
  · intro same known unmet unasked required asked path
    have split := same .role .prefixedRole 0 0
    have bareMet : rule.met layer.hierarchy (auth.write role 0 .role) = true :=
      (met_write asks bare bareRole 0 .role).mpr (Or.inr ⟨required, asked, path⟩)
    have prefixedUnmet : ¬ rule.met layer.hierarchy (auth.write role 0 .prefixedRole) = true := by
      rw [met_write asks bare bareRole 0 .prefixedRole, unmet]
      simpa [Adds] using unasked
    rw [verdict, verdict, known, bareMet] at split
    simp [prefixedUnmet] at split
  · intro idle one other position place
    rw [verdict, verdict]
    by_cases known : auth.isAuthenticated = false
    · rw [if_pos known, if_pos known]
    · have alike : ∀ position spelling,
          rule.met layer.hierarchy (auth.write role position spelling) = true ↔
            rule.met layer.hierarchy auth = true ∨ role ∈ rule.roles := by
        intro position spelling
        rw [met_write asks bare bareRole position spelling]
        refine or_congr_right' fun unmet => ?_
        cases spelling with
        | prefixedRole | prefixedAuthority => rfl
        | role =>
          constructor
          · rintro ⟨required, asked, path⟩
            by_contra unasked
            exact idle (by simpa using known) (by simpa using unmet) unasked required asked path
          · intro asked
            exact ⟨role, asked, .refl⟩
      have agree : rule.met layer.hierarchy (auth.write role position one) =
          rule.met layer.hierarchy (auth.write role place other) := by
        rw [Bool.eq_iff_iff, alike, alike]
      rw [agree]

def usersRule : Rule := { Rule.default with pathPrefix := "/users", roles := ["USER"] }

def adminChain : FilterChainLayer :=
  { rules := [{ rule := usersRule, glob := none }]
    hierarchy := some (RoleHierarchy.new.addImplication "ADMIN" "USER") }

def usersRequest : Request := { method := "GET", path := "/users", authentication := none }

def plainUser : Authentication := { principal := "u1", roles := [], authorities := [] }

theorem role_spelling_users :
    SameAccess adminChain usersRequest plainUser "GUEST" ∧ OnlyAdds adminChain := by
  refine (role_spelling_iff adminChain usersRequest plainUser "GUEST" usersRule (by decide)
    (by unfold RoleHierarchy.Bare; decide) (by decide)
    { allow := rfl, deny := rfl, asking := by decide, bare := by decide, only := rfl }).mpr ?_
  intro _ _ _ required asked path
  obtain rfl : required = "USER" := by simpa [usersRule] using asked
  have led : "USER" ∈ effectiveRoles adminChain.hierarchy ["GUEST"] :=
    mem_effectiveRoles.mpr ⟨"GUEST", by simp, path⟩
  revert led
  decide

theorem prefixed_admin_refused :
    adminChain.decide (usersRequest.from (plainUser.write "ADMIN" 0 .role)) = .pass ∧
      adminChain.decide (usersRequest.from (plainUser.write "ADMIN" 0 .prefixedRole)) =
        .forbidden "required role missing" ∧
      ¬ SameAccess adminChain usersRequest plainUser "ADMIN" := by
  refine ⟨by decide, by decide, fun same => ?_⟩
  have verdicts := same .role .prefixedRole 0 0
  revert verdicts
  decide

end Firefly.Security
