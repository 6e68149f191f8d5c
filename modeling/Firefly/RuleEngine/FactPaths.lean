import Firefly.RuleEngine.Actions

set_option autoImplicit false

namespace Firefly.RuleEngine

open Json

def segments (path : String) : List String := (path.toList.splitOn '.').map String.ofList

def descend : List String → Value → Option Value
  | [], current => some current
  | part :: parts, .object fields => (Fields.get fields part).bind (descend parts)
  | _ :: _, _ => none

def readPath (facts : Fact) (path : String) : Option Value :=
  match segments path with
  | [] => none
  | first :: parts => (facts.get first).bind (descend parts)

theorem get_insert (fields : Fields) (key : String) (value : Value) :
    (fields.insert key value).get key = some value := by
  induction fields with
  | nil => simp [Fields.insert, Fields.get]
  | cons field fields ih =>
    rw [Fields.insert]
    split_ifs with before same
    · simp [Fields.get]
    · simp [Fields.get]
    · rw [Fields.get, List.lookup_cons, beq_eq_false_iff_ne.mpr same]
      exact ih

theorem get_insert_ne {key other : String} (differs : other ≠ key) (fields : Fields) (value : Value) :
    (fields.insert key value).get other = fields.get other := by
  have aside := beq_eq_false_iff_ne.mpr differs
  induction fields with
  | nil => simp [Fields.insert, Fields.get, List.lookup_cons, aside]
  | cons field fields ih =>
    rw [Fields.insert]
    split_ifs with before same
    · rw [Fields.get, List.lookup_cons, aside]
      rfl
    · rw [Fields.get, Fields.get, List.lookup_cons, List.lookup_cons, ← same, aside]
    · rw [Fields.get, Fields.get, List.lookup_cons, List.lookup_cons]
      cases other == field.1 with
      | true => rfl
      | false => exact ih

theorem insert_insert (fields : Fields) (key : String) (first second : Value) :
    (fields.insert key first).insert key second = fields.insert key second := by
  induction fields with
  | nil => simp [Fields.insert]
  | cons field fields ih =>
    rw [Fields.insert]
    split_ifs with before same
    · simp [Fields.insert, before]
    · simp [Fields.insert, ← same]
    · rw [Fields.insert, if_neg before, if_neg same, ih, Fields.insert, if_neg before, if_neg same]

def below (fields : Fields) (part : String) : Fields :=
  match fields.get part with
  | some (.object inner) => inner
  | _ => []

def readIn : Fields → List String → Option Value
  | _, [] => none
  | fields, first :: parts => (fields.get first).bind (descend parts)

theorem readPath_segments (facts : Fact) (path : String) : readPath facts path = readIn facts (segments path) := by
  rw [readPath]
  cases segments path <;> rfl

theorem writePath_segments (facts : Fact) (path : String) (value : Value) :
    writePath facts path value = writeIn value facts (segments path) := rfl

theorem segments_ne_nil (path : String) : segments path ≠ [] := by
  rw [segments, Ne, List.map_eq_nil_iff]
  exact List.splitOn_ne_nil '.' path.toList

theorem writeIn_step (value : Value) (fields : Fields) (part next : String) (parts : List String) :
    writeIn value fields (part :: next :: parts) =
      fields.insert part (.object (writeIn value (below fields part) (next :: parts))) := by
  rw [writeIn, below]
  · cases fields.get part with
    | none => rfl
    | some found => cases found <;> rfl
  · simp

theorem readIn_step (fields : Fields) (part next : String) (parts : List String) :
    readIn fields (part :: next :: parts) = readIn (below fields part) (next :: parts) := by
  rw [readIn, readIn, below]
  cases fields.get part with
  | none => rfl
  | some found =>
    cases found with
    | object inner => rfl
    | null | bool | number | string | array => rfl

theorem below_insert (fields inner : Fields) (part : String) :
    below (fields.insert part (.object inner)) part = inner := by
  rw [below, get_insert]

theorem readIn_writeIn {parts : List String} (some_ : parts ≠ []) (fields : Fields) (value : Value) :
    readIn (writeIn value fields parts) parts = some value := by
  induction parts generalizing fields with
  | nil => exact absurd rfl some_
  | cons part parts ih =>
    cases parts with
    | nil =>
      rw [writeIn, readIn, get_insert]
      rfl
    | cons next parts =>
      rw [writeIn_step, readIn_step, below_insert]
      exact ih (List.cons_ne_nil next parts) _

theorem writeIn_writeIn (parts : List String) (fields : Fields) (first second : Value) :
    writeIn second (writeIn first fields parts) parts = writeIn second fields parts := by
  induction parts generalizing fields with
  | nil => rfl
  | cons part parts ih =>
    cases parts with
    | nil => exact insert_insert ..
    | cons next parts =>
      rw [writeIn_step, writeIn_step, writeIn_step, below_insert, insert_insert, ih]

-- The write goes on below the last key that the paths share, the read below another one.
theorem readIn_writeIn_other {parts others : List String} (apart : ¬ parts <+: others)
    (beyond : ¬ others <+: parts) (fields : Fields) (value : Value) :
    readIn (writeIn value fields parts) others = readIn fields others := by
  induction parts generalizing fields others with
  | nil => exact absurd List.nil_prefix apart
  | cons part parts ih =>
    cases others with
    | nil => exact absurd List.nil_prefix beyond
    | cons other others =>
      by_cases differs : other = part
      · subst differs
        rw [List.prefix_cons_inj] at apart beyond
        cases parts with
        | nil => exact absurd List.nil_prefix apart
        | cons next parts =>
          cases others with
          | nil => exact absurd List.nil_prefix beyond
          | cons after others =>
            rw [writeIn_step, readIn_step, readIn_step, below_insert]
            exact ih apart beyond _
      · have insert_other (new : Value) :
            readIn (fields.insert part new) (other :: others) = readIn fields (other :: others) := by
          rw [readIn, readIn, get_insert_ne differs]
        cases parts with
        | nil => exact insert_other value
        | cons next parts =>
          rw [writeIn_step]
          exact insert_other _

theorem readPath_writePath (facts : Fact) (path : String) (value : Value) :
    readPath (writePath facts path value) path = some value := by
  rw [readPath_segments, writePath_segments]
  exact readIn_writeIn (segments_ne_nil path) facts value

theorem writePath_writePath (facts : Fact) (path : String) (first second : Value) :
    writePath (writePath facts path first) path second = writePath facts path second :=
  writeIn_writeIn ..

theorem readPath_writePath_other {path other : String} (apart : ¬ segments path <+: segments other)
    (beyond : ¬ segments other <+: segments path) (facts : Fact) (value : Value) :
    readPath (writePath facts path value) other = readPath facts other := by
  rw [readPath_segments, readPath_segments, writePath_segments]
  exact readIn_writeIn_other apart beyond facts value

theorem lookupIn_descend (parts : List String) (current : Value) :
    lookupIn (some current) parts = descend parts current := by
  induction parts generalizing current with
  | nil => rfl
  | cons part parts ih =>
    cases current with
    | object fields =>
      rw [lookupIn, descend]
      cases Fields.get fields part with
      | none => cases parts <;> rfl
      | some found => exact ih found
    | null | bool | number | string | array => rfl

theorem lookup_eq_readPath (facts : Fact) (path : String) : lookup facts path = readPath facts path := by
  change lookupIn (some (.object facts)) (segments path) = _
  rw [lookupIn_descend, readPath]
  cases split : segments path with
  | nil => exact absurd split (segments_ne_nil path)
  | cons first parts => rfl

end Firefly.RuleEngine
