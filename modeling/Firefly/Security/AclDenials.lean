import Firefly.Security.Acl

set_option autoImplicit false

namespace Firefly.Security

def Cumulative (service : AclService) (objectIdentity : ObjectIdentity) (sids : List Sid) : Prop :=
  ∀ first second : Permission, first.mask ≠ 0 → second.mask ≠ 0 →
    isGranted service objectIdentity (first.union second) sids = true →
    isGranted service objectIdentity first sids = true ∧
      isGranted service objectIdentity second sids = true

def insertDeny (service : AclService) (target : ObjectIdentity) (position : Nat) (sid : Sid)
    (permission : Permission) : AclService := fun objectIdentity =>
  if objectIdentity = target then
    (service objectIdentity).map fun acl =>
      { acl with entries := acl.entries.take position ++
          { sid, permission, granting := false } :: acl.entries.drop position }
  else service objectIdentity

def DenialsRefuse (service : AclService) (objectIdentity : ObjectIdentity)
    (sids : List Sid) : Prop :=
  ∀ target position sid denied permission,
    isGranted service objectIdentity permission sids = false →
    isGranted (insertDeny service target position sid denied) objectIdentity permission sids = false

structure RespectsDenials (service : AclService) (objectIdentity : ObjectIdentity)
    (sids : List Sid) : Prop where
  cumulative : Cumulative service objectIdentity sids
  denials : DenialsRefuse service objectIdentity sids

def DenialsCovered (entries : List AccessControlEntry) : Prop :=
  ∀ early deny late grant after, entries = early ++ deny :: (late ++ grant :: after) →
    deny.granting = false → grant.granting = true →
    (∀ earlier ∈ early ++ deny :: late,
      earlier.permission.contains grant.permission = false) →
    grant.permission.mask &&& deny.permission.mask ≠ 0 →
    ∃ earlier ∈ early, earlier.permission.contains
      ⟨grant.permission.mask &&& deny.permission.mask⟩ = true

namespace Permission

theorem contains_iff (self required : Permission) :
    self.contains required = true ↔
      required.mask ≠ 0 ∧ ∀ bit, required.mask.getLsbD bit = true → self.mask.getLsbD bit = true := by
  simp only [contains, Bool.and_eq_true, bne_iff_ne, beq_iff_eq]
  refine and_congr_right fun _ => ?_
  constructor
  · intro same bit set
    rw [← same, BitVec.getLsbD_and, Bool.and_eq_true] at set
    exact set.1
  · intro bits
    refine BitVec.eq_of_getLsbD_eq fun bit _ => ?_
    rw [BitVec.getLsbD_and]
    cases set : required.mask.getLsbD bit with
    | false => simp
    | true => simp [bits bit set]

theorem contains_self {self : Permission} (real : self.mask ≠ 0) : self.contains self = true :=
  (contains_iff self self).mpr ⟨real, fun _ set => set⟩

theorem contains.part {self whole part : Permission} (containing : self.contains whole = true)
    (real : part.mask ≠ 0)
    (inside : ∀ bit, part.mask.getLsbD bit = true → whole.mask.getLsbD bit = true) :
    self.contains part = true := by
  rw [contains_iff] at containing ⊢
  exact ⟨real, fun bit set => containing.2 bit (inside bit set)⟩

theorem contains.trans {self whole part : Permission} (wide : self.contains whole = true)
    (containing : whole.contains part = true) : self.contains part = true := by
  rw [contains_iff] at containing
  exact contains.part wide containing.1 containing.2

theorem part_overlap {first second part : Permission} (one : first.contains part = true)
    (two : second.contains part = true) (bit : Nat) (set : part.mask.getLsbD bit = true) :
    (first.mask &&& second.mask).getLsbD bit = true := by
  rw [contains_iff] at one two
  rw [BitVec.getLsbD_and, one.2 bit set, two.2 bit set]
  rfl

theorem overlap_ne_zero {first second part : Permission} (one : first.contains part = true)
    (two : second.contains part = true) : first.mask &&& second.mask ≠ 0 := by
  intro empty
  apply ((contains_iff first part).mp one).1
  refine BitVec.eq_of_getLsbD_eq fun bit _ => ?_
  cases set : part.mask.getLsbD bit with
  | false => simp
  | true => simpa [empty] using part_overlap one two bit set

theorem contains_overlap {whole : BitVec 32} {self : Permission} (overlap : whole &&& self.mask ≠ 0) :
    self.contains ⟨whole &&& self.mask⟩ = true := by
  rw [contains_iff]
  refine ⟨overlap, fun bit set => ?_⟩
  rw [BitVec.getLsbD_and, Bool.and_eq_true] at set
  exact set.2

theorem overlap_union (whole : Permission) (other : BitVec 32) :
    union ⟨whole.mask &&& other⟩ whole = whole := by
  cases whole with
  | mk mask =>
    rw [union, mk.injEq]
    refine BitVec.eq_of_getLsbD_eq fun bit _ => ?_
    simp only [BitVec.getLsbD_or, BitVec.getLsbD_and]
    cases mask.getLsbD bit <;> simp

end Permission

section Cumulative

variable {service : AclService} {objectIdentity : ObjectIdentity} {sids : List Sid}

theorem granted_part (covered : DenialsCovered (applicable service objectIdentity sids))
    {whole part : Permission} (real : part.mask ≠ 0)
    (inside : ∀ bit, part.mask.getLsbD bit = true → whole.mask.getLsbD bit = true)
    (granted : isGranted service objectIdentity whole sids = true) :
    isGranted service objectIdentity part sids = true := by
  obtain ⟨before, grant, after, walk, granting, containing, fresh⟩ := exists_first granted
  have grant_part := Permission.contains.part containing real inside
  -- the entry that decides the part stands no later than the one that grants the whole
  cases first : before.find? fun ace => ace.permission.contains part with
  | none =>
    rw [isGranted_of_first walk grant_part (by simpa using first), granting]
  | some ace =>
    obtain ⟨contained, early, late, rfl, unmatched⟩ := List.find?_eq_some_iff_append.mp first
    have placed : applicable service objectIdentity sids =
        early ++ ace :: (late ++ grant :: after) := by simpa using walk
    have earliest : ∀ earlier ∈ early, earlier.permission.contains part = false := by
      simpa using unmatched
    rw [isGranted_of_first placed contained earliest]
    by_contra denying
    rw [Bool.not_eq_true] at denying
    -- its denial would be of bits that no entry before it contains
    have undecided : ∀ earlier ∈ early ++ ace :: late,
        earlier.permission.contains grant.permission = false := by
      intro earlier among
      rw [← Bool.not_eq_true]
      intro wider
      simpa [fresh earlier among] using Permission.contains.trans wider containing
    obtain ⟨earlier, among, wider⟩ := covered early ace late grant after placed denying granting
      undecided (Permission.overlap_ne_zero grant_part contained)
    have part_contained := Permission.contains.part wider real (Permission.part_overlap grant_part contained)
    simp [earliest earlier among] at part_contained

theorem cumulative_iff :
    Cumulative service objectIdentity sids ↔
      DenialsCovered (applicable service objectIdentity sids) := by
  constructor
  · intro cumulative early deny late grant after walk denying granting undecided overlap
    by_contra uncovered
    have fresh : ∀ earlier ∈ early, earlier.permission.contains
        ⟨grant.permission.mask &&& deny.permission.mask⟩ = false := by
      simpa using uncovered
    have real : grant.permission.mask ≠ 0 := by
      intro empty
      simp [empty] at overlap
    -- the grant's whole mask is granted by it, the shared bits are denied before it
    have whole : isGranted service objectIdentity grant.permission sids = true := by
      rw [isGranted_of_first (by simpa using walk)
        (Permission.contains_self real) undecided, granting]
    have shared := (cumulative ⟨grant.permission.mask &&& deny.permission.mask⟩ grant.permission
      overlap real (by rw [Permission.overlap_union]; exact whole)).1
    rw [isGranted_of_first walk (Permission.contains_overlap overlap) fresh, denying] at shared
    simp at shared
  · intro covered first second realFirst realSecond granted
    refine ⟨granted_part covered realFirst ?_ granted, granted_part covered realSecond ?_ granted⟩
    · intro bit set
      simp [Permission.union, set]
    · intro bit set
      simp [Permission.union, set]

end Cumulative

inductive Hardened : List AccessControlEntry → List AccessControlEntry → Prop where
  | nil : Hardened [] []
  | keep (ace : AccessControlEntry) {old new : List AccessControlEntry} :
      Hardened old new → Hardened (ace :: old) (ace :: new)
  | deny (ace : AccessControlEntry) {old new : List AccessControlEntry} :
      ace.granting = false → Hardened old new → Hardened old (ace :: new)

namespace Hardened

theorem refl (entries : List AccessControlEntry) : Hardened entries entries := by
  induction entries with
  | nil => exact nil
  | cons ace rest ih => exact ih.keep ace

theorem append {first first' second second' : List AccessControlEntry}
    (one : Hardened first first') (two : Hardened second second') :
    Hardened (first ++ second) (first' ++ second') := by
  induction one with
  | nil => exact two
  | keep ace _ ih => exact ih.keep ace
  | deny ace denying _ ih => exact ih.deny ace denying

theorem decision {old new : List AccessControlEntry} (hardened : Hardened old new)
    {permission : Permission} {sids : List Sid}
    (granted : firstDecision permission sids new = some true) :
    firstDecision permission sids old = some true := by
  induction hardened with
  | nil => exact granted
  | keep ace _ ih =>
    rw [firstDecision] at granted ⊢
    split
    next matching => rwa [if_pos matching] at granted
    next passing =>
      rw [if_neg passing] at granted
      exact ih granted
  | deny ace denying _ ih =>
    rw [firstDecision] at granted
    split at granted
    · rw [denying] at granted
      simp at granted
    · exact ih granted

end Hardened

theorem insertDeny_cases (service : AclService) (target : ObjectIdentity) (position : Nat)
    (sid : Sid) (denied : Permission) (objectIdentity : ObjectIdentity) :
    (service objectIdentity = none ∧
      insertDeny service target position sid denied objectIdentity = none) ∨
    ∃ acl entries, service objectIdentity = some acl ∧ Hardened acl.entries entries ∧
      insertDeny service target position sid denied objectIdentity = some { acl with entries } := by
  rw [insertDeny]
  cases found : service objectIdentity with
  | none => simp
  | some acl =>
    right
    split
    · refine ⟨acl, _, rfl, ?_, rfl⟩
      have inserted := (Hardened.refl (acl.entries.take position)).append
        (Hardened.deny { sid, permission := denied, granting := false } rfl
          (Hardened.refl (acl.entries.drop position)))
      rwa [List.take_append_drop] at inserted
    · exact ⟨acl, acl.entries, rfl, Hardened.refl _, rfl⟩

theorem chainFrom_hardened (service : AclService) (target : ObjectIdentity) (position : Nat)
    (sid : Sid) (denied : Permission) (hops : Nat) (objectIdentity : ObjectIdentity) :
    Hardened (chainFrom service hops (service objectIdentity))
      (chainFrom (insertDeny service target position sid denied) hops
        (insertDeny service target position sid denied objectIdentity)) := by
  induction hops generalizing objectIdentity with
  | zero => exact Hardened.nil
  | succ hops ih =>
    rcases insertDeny_cases service target position sid denied objectIdentity with
      ⟨absent, still⟩ | ⟨acl, entries, found, hardened, inserted⟩
    · rw [absent, still]
      exact Hardened.nil
    · rw [found, inserted, chainFrom, chainFrom]
      refine hardened.append ?_
      -- the insertion moves neither the parent nor the inheritance flag
      cases inheriting : acl.entriesInheriting with
      | false => exact Hardened.nil
      | true =>
        cases above : acl.parent with
        | none => exact Hardened.nil
        | some parent => exact ih parent

theorem denials_refuse (service : AclService) (objectIdentity : ObjectIdentity)
    (sids : List Sid) : DenialsRefuse service objectIdentity sids := by
  intro target position sid denied permission refused
  rw [← Bool.not_eq_true] at refused ⊢
  intro granted
  apply refused
  rw [isGranted, isGrantedFrom_eq, Option.getD_eq_iff] at granted ⊢
  simp only [Bool.false_eq_true, and_false, or_false] at granted ⊢
  exact (chainFrom_hardened service target position sid denied _ objectIdentity).decision granted

theorem respectsDenials_iff (service : AclService) (objectIdentity : ObjectIdentity)
    (sids : List Sid) :
    RespectsDenials service objectIdentity sids ↔
      DenialsCovered (applicable service objectIdentity sids) := by
  constructor
  · intro respects
    exact cumulative_iff.mp respects.cumulative
  · intro covered
    exact { cumulative := cumulative_iff.mpr covered
            denials := denials_refuse service objectIdentity sids }

def report : ObjectIdentity := { objectType := "Report", identifier := "42" }

def reportService : AclService := fun objectIdentity =>
  if objectIdentity = report then
    some (((Acl.new report (.principal "owner")).deny (.principal "alice") .READ).grant
      (.principal "alice") (Permission.READ.union .WRITE))
  else none

theorem denied_read_granted :
    isGranted reportService report (Permission.READ.union .WRITE) [.principal "alice"] = true ∧
      isGranted reportService report .READ [.principal "alice"] = false ∧
      ¬ RespectsDenials reportService report [.principal "alice"] := by
  refine ⟨by decide, by decide, fun respects => ?_⟩
  have parts := (respects.cumulative .READ .WRITE (by decide) (by decide) (by decide)).1
  revert parts
  decide

end Firefly.Security
