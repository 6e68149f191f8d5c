import Firefly.Shared.Encoding
import Firefly.Shared.Json
import Firefly.Shared.Text

set_option autoImplicit false

namespace Firefly.Data.CustomQuery

open Json (Value)
open Encoding

abbrev Text := List Char

inductive CustomQueryError where
  | missingParameter (name : Text)
deriving DecidableEq, Repr

structure Params where
  entries : List (Text × Value)
  sorted : entries.Pairwise fun entry next => entry.1 < next.1

def Params.get (params : Params) (name : Text) : Option Value := params.entries.lookup name

def isNameStart (c : Char) : Bool := c.isAlpha || c = '_'

def isNameChar (c : Char) : Bool := c.isAlphanum || c = '_'

-- The loop of `bind_named_params` over the bytes that are left, from what is written so far.
def bindFrom (placeholder : Nat → Text) (params : Params) :
    (bytes : List UInt8) → (out : Text) → (args : List Value) →
    Except CustomQueryError (Text × List Value)
  | [], out, args => .ok (out, args)
  | c :: rest, out, args =>
    if asChar c = ':' then
      match rest with
      | [] => bindFrom placeholder params [] (out ++ [':']) args
      | next :: after =>
        -- a `::` cast is left untouched
        if asChar next = ':' then bindFrom placeholder params after (out ++ [':', ':']) args
        else if isNameStart (asChar next) then
          let name := ((next :: after).takeWhile fun b => isNameChar (asChar b)).map asChar
          match params.get name with
          | none => .error (.missingParameter name)
          | some value =>
            bindFrom placeholder params ((next :: after).dropWhile fun b => isNameChar (asChar b))
              (out ++ placeholder (args.length + 1)) (args ++ [value])
        else bindFrom placeholder params (next :: after) (out ++ [':']) args
    else bindFrom placeholder params rest (out ++ [asChar c]) args
termination_by bytes => bytes.length
decreasing_by
  all_goals simp only [List.length_cons, List.length_nil]
  all_goals first
    | omega
    | exact Nat.lt_succ_of_le (List.dropWhile_sublist _).length_le

-- `placeholder` is the dialect's.
def bindNamedParams (placeholder : Nat → Text) (params : Params) (template : Text) :
    Except CustomQueryError (Text × List Value) :=
  bindFrom placeholder params (utf8 template) [] []

-- `jsonText` is the JSON rendering of a value, `to_string` of the JSON library.
def valueStringForm (jsonText : Value → Text) : Value → Text
  | .string s => s.toList
  | other => jsonText other

def replaceParam (jsonText : Value → Text) (result : Text) (entry : Text × Value) : Text :=
  if ':' :: entry.1 <:+: result then
    Text.replace ':' entry.1 (valueStringForm jsonText entry.2) result
  else result

def exactParam (params : Params) (s : Text) : Option Value :=
  match Text.stripPrefix [':'] (Text.trim s) with
  | some name => if name = [] then none else params.get name
  | none => none

def substituteStringParam (jsonText : Value → Text) (params : Params) (s : String) : Value :=
  match exactParam params s.toList with
  | some value => value
  | none => .string (String.ofList (params.entries.foldl (replaceParam jsonText) s.toList))

mutual

def substituteNamedParams (jsonText : Value → Text) (params : Params) : Value → Value
  | .object fields => .object (substituteFields jsonText params fields)
  | .array items => .array (substituteItems jsonText params items)
  | .string s => substituteStringParam jsonText params s
  | .null => .null
  | .bool b => .bool b
  | .number n => .number n

def substituteItems (jsonText : Value → Text) (params : Params) : List Value → List Value
  | [] => []
  | item :: items =>
    substituteNamedParams jsonText params item :: substituteItems jsonText params items

def substituteFields (jsonText : Value → Text) (params : Params) :
    List (String × Value) → List (String × Value)
  | [] => []
  | (key, value) :: fields =>
    (key, substituteNamedParams jsonText params value) :: substituteFields jsonText params fields

end

end Firefly.Data.CustomQuery
