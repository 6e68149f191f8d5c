import Mathlib.Data.List.Basic
import Mathlib.Tactic.Tauto

set_option autoImplicit false

namespace Firefly.Security

structure Permission where
  mask : BitVec 32
deriving DecidableEq, Repr

namespace Permission

def READ : Permission := ⟨1⟩
def WRITE : Permission := ⟨2⟩
def CREATE : Permission := ⟨4⟩
def DELETE : Permission := ⟨8⟩
def ADMINISTRATION : Permission := ⟨16⟩

def fromMask (mask : BitVec 32) : Permission := ⟨mask⟩

def union (self other : Permission) : Permission := ⟨self.mask ||| other.mask⟩

-- An empty requirement is contained in no entry: it would defeat default-deny.
def contains (self required : Permission) : Bool :=
  required.mask != 0 && self.mask &&& required.mask == required.mask

end Permission

inductive Sid where
  | principal (username : String)
  | authority (name : String)
deriving DecidableEq, Repr

structure ObjectIdentity where
  objectType : String
  identifier : String
deriving DecidableEq, Repr

structure AccessControlEntry where
  sid : Sid
  permission : Permission
  granting : Bool
deriving DecidableEq, Repr

structure Acl where
  objectIdentity : ObjectIdentity
  owner : Sid
  entries : List AccessControlEntry
  parent : Option ObjectIdentity
  entriesInheriting : Bool
deriving DecidableEq, Repr

namespace Acl

def new (objectIdentity : ObjectIdentity) (owner : Sid) : Acl :=
  { objectIdentity, owner, entries := [], parent := none, entriesInheriting := false }

def grant (self : Acl) (sid : Sid) (permission : Permission) : Acl :=
  { self with entries := self.entries ++ [{ sid, permission, granting := true }] }

def deny (self : Acl) (sid : Sid) (permission : Permission) : Acl :=
  { self with entries := self.entries ++ [{ sid, permission, granting := false }] }

def withParent (self : Acl) (parent : ObjectIdentity) (inheriting : Bool) : Acl :=
  { self with parent := some parent, entriesInheriting := inheriting }

end Acl

def firstDecision (permission : Permission) (sids : List Sid) :
    List AccessControlEntry → Option Bool
  | [] => none
  | ace :: rest =>
    if sids.contains ace.sid && ace.permission.contains permission then some ace.granting
    else firstDecision permission sids rest

def Acl.localDecision (self : Acl) (permission : Permission) (sids : List Sid) : Option Bool :=
  firstDecision permission sids self.entries

abbrev AclService := ObjectIdentity → Option Acl

def MAX_INHERITANCE_DEPTH : Nat := 32

def isGrantedFrom (service : AclService) (permission : Permission) (sids : List Sid) :
    Nat → Option Acl → Bool
  | 0, _ => false
  | _ + 1, none => false
  | hops + 1, some acl =>
    match acl.localDecision permission sids with
    | some decision => decision
    | none =>
      match acl.entriesInheriting, acl.parent with
      | true, some parent => isGrantedFrom service permission sids hops (service parent)
      | _, _ => false

def isGranted (service : AclService) (objectIdentity : ObjectIdentity) (permission : Permission)
    (sids : List Sid) : Bool :=
  isGrantedFrom service permission sids MAX_INHERITANCE_DEPTH (service objectIdentity)

def chainFrom (service : AclService) : Nat → Option Acl → List AccessControlEntry
  | 0, _ => []
  | _ + 1, none => []
  | hops + 1, some acl => acl.entries ++
    match acl.entriesInheriting, acl.parent with
    | true, some parent => chainFrom service hops (service parent)
    | _, _ => []

def chain (service : AclService) (objectIdentity : ObjectIdentity) : List AccessControlEntry :=
  chainFrom service MAX_INHERITANCE_DEPTH (service objectIdentity)

def applicable (service : AclService) (objectIdentity : ObjectIdentity) (sids : List Sid) :
    List AccessControlEntry :=
  (chain service objectIdentity).filter fun ace => sids.contains ace.sid

section Decisions

variable {service : AclService} {objectIdentity : ObjectIdentity} {permission : Permission}
variable {sids : List Sid}

theorem firstDecision_append (first second : List AccessControlEntry) :
    firstDecision permission sids (first ++ second) =
      (firstDecision permission sids first).or (firstDecision permission sids second) := by
  induction first with
  | nil => simp [firstDecision]
  | cons ace rest ih =>
    simp only [List.cons_append, firstDecision, ih]
    split <;> simp

theorem isGrantedFrom_eq (hops : Nat) (current : Option Acl) :
    isGrantedFrom service permission sids hops current =
      (firstDecision permission sids (chainFrom service hops current)).getD false := by
  induction hops generalizing current with
  | zero => rfl
  | succ hops ih =>
    cases current with
    | none => rfl
    | some acl =>
      simp only [isGrantedFrom, chainFrom, Acl.localDecision, firstDecision_append]
      cases firstDecision permission sids acl.entries with
      | some decision => simp
      | none =>
        simp only [Option.none_or]
        -- the walk goes on only where the list inherits and has a parent
        split
        · exact ih _
        · simp [firstDecision]

theorem firstDecision_eq_find (entries : List AccessControlEntry) :
    firstDecision permission sids entries =
      ((entries.filter fun ace => sids.contains ace.sid).find?
        fun ace => ace.permission.contains permission).map AccessControlEntry.granting := by
  induction entries with
  | nil => rfl
  | cons ace rest ih =>
    simp only [firstDecision, List.filter_cons]
    by_cases listed : sids.contains ace.sid = true
    · by_cases covering : ace.permission.contains permission = true
      · simp only [listed, covering, Bool.and_self, if_true, List.find?_cons, Option.map_some]
      · simp only [listed, covering, if_true, List.find?_cons, ih, Bool.and_false,
          Bool.false_eq_true, if_false]
    · simp only [listed, Bool.false_and, Bool.false_eq_true, if_false, ih]

theorem isGranted_eq :
    isGranted service objectIdentity permission sids =
      (((applicable service objectIdentity sids).find?
        fun ace => ace.permission.contains permission).map
          AccessControlEntry.granting).getD false := by
  rw [isGranted, isGrantedFrom_eq, firstDecision_eq_find, applicable, chain]

theorem isGranted_of_first {before after : List AccessControlEntry} {ace : AccessControlEntry}
    (walk : applicable service objectIdentity sids = before ++ ace :: after)
    (containing : ace.permission.contains permission = true)
    (unmatched : ∀ earlier ∈ before, earlier.permission.contains permission = false) :
    isGranted service objectIdentity permission sids = ace.granting := by
  have first : (applicable service objectIdentity sids).find?
      (fun entry => entry.permission.contains permission) = some ace := by
    rw [List.find?_eq_some_iff_append]
    exact ⟨containing, before, after, walk, by simpa using unmatched⟩
  rw [isGranted_eq, first]
  rfl

theorem exists_first (granted : isGranted service objectIdentity permission sids = true) :
    ∃ before ace after, applicable service objectIdentity sids = before ++ ace :: after ∧
      ace.granting = true ∧ ace.permission.contains permission = true ∧
      ∀ earlier ∈ before, earlier.permission.contains permission = false := by
  rw [isGranted_eq] at granted
  cases first : (applicable service objectIdentity sids).find?
      fun ace => ace.permission.contains permission with
  | none => simp [first] at granted
  | some ace =>
    obtain ⟨containing, before, after, walk, unmatched⟩ := List.find?_eq_some_iff_append.mp first
    exact ⟨before, ace, after, walk, by simpa [first] using granted, containing,
      by simpa using unmatched⟩

end Decisions

end Firefly.Security
