import Firefly.Shared.Text
import Firefly.Shared.Worklist

set_option autoImplicit false

namespace Firefly.Security

open Text Worklist

def ROLE_PREFIX : String := "ROLE_"

/-- `implies` lists the declared pairs of a role and a role it directly implies, each once. -/
structure RoleHierarchy where
  implies : List (String × String)
deriving DecidableEq, Repr

namespace RoleHierarchy

def new : RoleHierarchy := { implies := [] }

def addImplication (self : RoleHierarchy) (higher lower : String) : RoleHierarchy :=
  if (higher, lower) ∈ self.implies then self
  else { self with implies := self.implies ++ [(higher, lower)] }

def splitOnce (line : List Char) : Option (List Char × List Char) :=
  match line.dropWhile (· ≠ '>') with
  | [] => none
  | _ :: lower => some (line.takeWhile (· ≠ '>'), lower)

def addLine (hierarchy : RoleHierarchy) (raw : List Char) : RoleHierarchy :=
  match splitOnce (trim raw) with
  | none => hierarchy
  | some (higher, lower) =>
    if trim higher ≠ [] ∧ trim lower ≠ [] then
      hierarchy.addImplication (String.ofList (trim higher)) (String.ofList (trim lower))
    else hierarchy

-- `str::lines` also drops a `\r` before the line's end, which the trim of the line drops anyway.
def fromString (spec : String) : RoleHierarchy :=
  (spec.toList.splitOnP fun c => c = '\n' || c = ';').foldl addLine new

def impliedBy (self : RoleHierarchy) (role : String) : List String :=
  (self.implies.filter fun pair => pair.1 = role).map Prod.snd

abbrev Implies (self : RoleHierarchy) (higher role : String) : Prop :=
  Reaches self.impliedBy higher role

def bound (self : RoleHierarchy) (roles : List String) : Nat :=
  roles.length + self.implies.length * self.implies.length

-- The set of `roles` and every role they imply, as the list of its members. The stack's top is the
-- head of the list.
def expand (self : RoleHierarchy) (roles : List String) : List String :=
  (explore self.impliedBy (self.bound roles) roles.reverse []).getD []

example : (fromString "ADMIN > USER ; USER > GUEST\n\nnonsense-without-arrow").expand ["ADMIN"] =
    ["GUEST", "USER", "ADMIN"] := by decide

def keys (self : RoleHierarchy) : Finset String := (self.implies.map Prod.fst).toFinset

variable (self : RoleHierarchy)

theorem impliedBy_keys (role : String) (leads : self.impliedBy role ≠ []) : role ∈ self.keys := by
  obtain ⟨lower, inside⟩ := List.exists_mem_of_ne_nil _ leads
  simp only [impliedBy, List.mem_map, List.mem_filter, decide_eq_true_eq] at inside
  obtain ⟨pair, ⟨declared, rfl⟩, -⟩ := inside
  simpa [keys] using ⟨pair.2, declared⟩

theorem remaining_le (found : List String) :
    remaining self.impliedBy self.keys found ≤ self.implies.length * self.implies.length := by
  calc remaining self.impliedBy self.keys found
      ≤ (self.keys.filter (· ∉ found)).card * self.implies.length := by
        refine Finset.sum_le_card_nsmul _ _ _ fun key _ => ?_
        rw [impliedBy, List.length_map]
        exact List.length_filter_le _ _
    _ ≤ self.implies.length * self.implies.length := by
        refine Nat.mul_le_mul_right _ ((Finset.card_filter_le _ _).trans ?_)
        simpa [keys] using (self.implies.map Prod.fst).toFinset_card_le

theorem mem_expand (roles : List String) (role : String) :
    role ∈ self.expand roles ↔ ∃ own ∈ roles, self.Implies own role := by
  have counted := self.remaining_le []
  obtain ⟨all, ends, exact⟩ := explore_eq self.impliedBy_keys (Explored.start roles.reverse)
    (show _ ≤ self.bound roles by rw [List.length_reverse, bound]; omega)
  rw [expand, ends, Option.getD_some, exact]
  simp only [List.mem_reverse]

end RoleHierarchy

end Firefly.Security
