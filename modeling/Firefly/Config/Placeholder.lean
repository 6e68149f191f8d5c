import Mathlib

set_option autoImplicit false

namespace Firefly.Config

abbrev Text := List Char

-- A flat map in its order of iteration: a key stands once.
abbrev Flat := List (Text × Text)

inductive ConfigError where
  | source (name : Text) (cause : ConfigError)
  | placeholder (placeholder : Text) (message : String)
  | other (message : String)
deriving Repr

structure Environment where
  var : Text → Option Text
  toLowercase : Text → Text
  toUppercase : Text → Text
  lowered : ∀ text, ∀ c ∈ toLowercase text, c.isUpper = false

structure Source where
  name : Text
  entries : Except ConfigError (List (Text × Text))

def insertKey (flat : Flat) (key value : Text) : Flat :=
  if flat.any (·.1 = key) then flat.map fun entry => if entry.1 = key then (key, value) else entry
  else flat ++ [(key, value)]

def fetch (flat : Flat) (key : Text) : Option Text :=
  (flat.find? (·.1 = key)).map Prod.snd

def normalizeKey (env : Environment) (key : Text) : Text :=
  (env.toLowercase key).map fun c => if c = '-' then '_' else c

def normalizeKeys (env : Environment) (entries : List (Text × Text)) (out : Flat) : Flat :=
  entries.foldl (fun out entry => insertKey out (normalizeKey env entry.1) entry.2) out

def mergeSource (env : Environment) (out : Flat) (source : Source) : Except ConfigError Flat :=
  match source.entries with
  | .error e => .error (.source source.name e)
  | .ok entries => .ok (normalizeKeys env entries out)

def merge (env : Environment) (sources : List Source) : Except ConfigError Flat :=
  sources.foldlM (mergeSource env) []

def MAX_DEPTH : Nat := 10

def containsMarker : Text → Bool
  | [] => false
  | c :: rest => (c == '$' && rest.head? == some '\x7b') || containsMarker rest

inductive Piece where
  | char (c : Char)
  | placeholder (inner : Text)
deriving DecidableEq, Repr

-- A match of `\$\{([^}]+)\}` at the front: its group and what follows it.
def placeholderAt : Text → Option (Text × Text)
  | '$' :: '\x7b' :: rest =>
    match rest.takeWhile (· ≠ '\x7d'), rest.dropWhile (· ≠ '\x7d') with
    | [], _ => none
    | _, [] => none
    | inner, _ :: after => some (inner, after)
  | _ => none

def capturesIter : Nat → Text → List Piece
  | 0, _ => []
  | _ + 1, [] => []
  | fuel + 1, c :: rest =>
    match placeholderAt (c :: rest) with
    | some (inner, after) => .placeholder inner :: capturesIter fuel after
    | none => .char c :: capturesIter fuel rest

def envKey (env : Environment) (key : Text) : Text :=
  let base := if "firefly.".toList.isPrefixOf key then key.drop 8 else key
  "FIREFLY_".toList ++ (env.toUppercase base).map fun c => if c = '.' ∨ c = '-' then '_' else c

def splitOnce (inner : Text) : Text × Option Text :=
  match inner.dropWhile (· ≠ ':') with
  | [] => (inner, none)
  | _ :: default => (inner.takeWhile (· ≠ ':'), some default)

-- `again` resolves a value that the placeholder refers to.
def resolveOne (env : Environment) (flat : Flat) (again : Text → Except ConfigError Text)
    (inner : Text) : Except ConfigError Text :=
  let (refKey, default) := splitOnce inner
  match env.var refKey with
  | some value => .ok value
  | none =>
    match env.var (envKey env refKey) with
    | some value => .ok value
    | none =>
      match fetch flat (normalizeKey env refKey) with
      | some referenced => if containsMarker referenced then again referenced else .ok referenced
      | none =>
        match default with
        | some default => .ok default
        | none =>
          .error (.placeholder ("$\x7b".toList ++ inner ++ "\x7d".toList)
            "not found in environment or config")

-- `left` counts down from `MAX_DEPTH + 1` as the depth of the source counts up.
def resolveValue (env : Environment) (flat : Flat) : Nat → Text → Except ConfigError Text
  | 0, value =>
    .error (.placeholder value "max recursion depth exceeded; check for circular references")
  | left + 1, value => do
    let parts ← (capturesIter value.length value).mapM fun piece =>
      match piece with
      | .char c => .ok [c]
      | .placeholder inner => resolveOne env flat (resolveValue env flat left) inner
    return parts.flatten

def resolveEntry (env : Environment) (flat : Flat) (entry : Text × Text) :
    Except ConfigError (Text × Text) :=
  if containsMarker entry.2 then
    match resolveValue env flat (MAX_DEPTH + 1) entry.2 with
    | .error e => .error e
    | .ok resolved => .ok (entry.1, resolved)
  else .ok entry

def resolvePlaceholders (env : Environment) (flat : Flat) : Except ConfigError Flat :=
  flat.mapM (resolveEntry env flat)

section Bind

variable {T : Type} (deserialize : Flat → Except ConfigError T)

def needsNormalize (flat : Flat) : Bool :=
  flat.any fun entry => entry.1.any fun c => c == '-' || c.isUpper

def bind (env : Environment) (flat : Flat) : Except ConfigError T :=
  let needsResolve := flat.any fun entry => containsMarker entry.2
  if !needsNormalize flat && !needsResolve then deserialize flat
  else
    let normalized := if needsNormalize flat then normalizeKeys env flat [] else flat
    if needsResolve then
      match resolvePlaceholders env normalized with
      | .error e => .error e
      | .ok resolved => deserialize resolved
    else deserialize normalized

def load (env : Environment) (sources : List Source) : Except ConfigError T :=
  match merge env sources with
  | .error e => .error e
  | .ok flat => bind deserialize env flat

end Bind

end Firefly.Config
