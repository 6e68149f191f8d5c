import Mathlib

set_option autoImplicit false

namespace Firefly.Json

/-- An integer is what `u64` or `i64` holds; a float is a finite double, taken at its exact value. -/
inductive Number where
  | int (n : Int)
  | float (value : ℚ)
deriving DecidableEq, Repr

/-- A JSON value. An object lists its fields in the order of their keys, each key once. -/
inductive Value where
  | null
  | bool (b : Bool)
  | number (n : Number)
  | string (s : String)
  | array (items : List Value)
  | object (fields : List (String × Value))
deriving Repr

abbrev Fields := List (String × Value)

namespace Value

abbrev int (n : Int) : Value := .number (.int n)

mutual

def decEq : (a b : Value) → Decidable (a = b)
  | .null, .null => isTrue rfl
  | .bool a, .bool b => if same : a = b then isTrue (same ▸ rfl) else isFalse (by simpa using same)
  | .number a, .number b =>
    if same : a = b then isTrue (same ▸ rfl) else isFalse (by simpa using same)
  | .string a, .string b =>
    if same : a = b then isTrue (same ▸ rfl) else isFalse (by simpa using same)
  | .array a, .array b =>
    match decEqItems a b with
    | isTrue same => isTrue (same ▸ rfl)
    | isFalse differs => isFalse (by simpa using differs)
  | .object a, .object b =>
    match decEqFields a b with
    | isTrue same => isTrue (same ▸ rfl)
    | isFalse differs => isFalse (by simpa using differs)
  | .null, .bool _ | .null, .number _ | .null, .string _ | .null, .array _ | .null, .object _
  | .bool _, .null | .bool _, .number _ | .bool _, .string _ | .bool _, .array _
  | .bool _, .object _ | .number _, .null | .number _, .bool _ | .number _, .string _
  | .number _, .array _ | .number _, .object _ | .string _, .null | .string _, .bool _
  | .string _, .number _ | .string _, .array _ | .string _, .object _ | .array _, .null
  | .array _, .bool _ | .array _, .number _ | .array _, .string _ | .array _, .object _
  | .object _, .null | .object _, .bool _ | .object _, .number _ | .object _, .string _
  | .object _, .array _ => isFalse (by simp)

def decEqItems : (a b : List Value) → Decidable (a = b)
  | [], [] => isTrue rfl
  | a :: as, b :: bs =>
    match decEq a b, decEqItems as bs with
    | isTrue head, isTrue tail => isTrue (by rw [head, tail])
    | isFalse head, _ => isFalse (by simp [head])
    | _, isFalse tail => isFalse (by simp [tail])
  | [], _ :: _ | _ :: _, [] => isFalse (by simp)

def decEqFields : (a b : List (String × Value)) → Decidable (a = b)
  | [], [] => isTrue rfl
  | (key, a) :: as, (other, b) :: bs =>
    if same : key = other then
      match decEq a b, decEqFields as bs with
      | isTrue head, isTrue tail => isTrue (by rw [same, head, tail])
      | isFalse head, _ => isFalse (by simp [head])
      | _, isFalse tail => isFalse (by simp [tail])
    else isFalse (by simp [same])
  | [], _ :: _ | _ :: _, [] => isFalse (by simp)

end

instance : DecidableEq Value := decEq

end Value

namespace Fields

def insert (key : String) (value : Value) : Fields → Fields
  | [] => [(key, value)]
  | (other, old) :: rest =>
    if key < other then (key, value) :: (other, old) :: rest
    else if key = other then (key, value) :: rest
    else (other, old) :: insert key value rest

def get (fields : Fields) (key : String) : Option Value := fields.lookup key

end Fields

end Firefly.Json
