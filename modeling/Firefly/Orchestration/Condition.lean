import Firefly.Shared.Decimal
import Firefly.Shared.Double
import Firefly.Orchestration.SagaComposition

set_option autoImplicit false

namespace Firefly.Orchestration.Condition

open Text Json

/-- The Unicode tables behind `char::is_alphabetic` and `char::is_alphanumeric`. -/
structure CharTables where
  isAlphabetic : Char → Bool
  isAlphanumeric : Char → Bool

inductive CompareOp where
  | eq
  | ne
  | lt
  | le
  | gt
  | ge
deriving DecidableEq, Repr

inductive Tok where
  | ident (name : String)
  | str (s : String)
  | num (n : Option ℚ)
  | bool (b : Bool)
  | null
  | lbracket
  | rbracket
  | lparen
  | rparen
  | dot
  | op (op : CompareOp)
  | and
  | or
  | not
  | in
deriving DecidableEq, Repr

inductive ConditionError where
  | unterminatedString
  | invalidOperator (op : Char)
  | invalidNumber (text : List Char)
  | unexpectedCharacter (c : Char)
  | expectedIn
  | expectedParen
  | unexpectedToken (found : Option Tok)
  | expectedKey (found : Option Tok)
  | expectedBracket
  | unknownNamespace (name : String)
  | unknownName (name : String)
  | expectedField (found : Option Tok)
  | trailingTokens
  | tooDeep
deriving DecidableEq, Repr

def isNumberChar (c : Char) : Bool := c.isDigit || c = '.'

-- `str::parse::<f64>` of what the tokenizer takes for a number.
def parseF64 (text : List Char) : Option (Option ℚ) :=
  let (negative, digits) :=
    match text with
    | '-' :: rest => (true, rest)
    | rest => (false, rest)
  let signed (q : ℚ) := Double.nearest (if negative then -q else q)
  let whole := digits.takeWhile Char.isDigit
  match digits.dropWhile Char.isDigit with
  | [] => some (signed (Decimal.value whole))
  | _ :: fraction =>
    if fraction.all Char.isDigit then
      some (signed (Decimal.value whole + Decimal.value fraction / 10 ^ fraction.length))
    else none

def wordTok : String → Tok
  | "and" => .and
  | "or" => .or
  | "not" => .not
  | "in" => .in
  | "true" | "True" => .bool true
  | "false" | "False" => .bool false
  | "null" | "None" => .null
  | word => .ident word

def operatorTok (c : Char) (rest : List Char) : Except ConditionError (Tok × List Char) :=
  match c, rest with
  | '=', '=' :: rest => .ok (.op .eq, rest)
  | '!', '=' :: rest => .ok (.op .ne, rest)
  | '<', '=' :: rest => .ok (.op .le, rest)
  | '>', '=' :: rest => .ok (.op .ge, rest)
  | '<', rest => .ok (.op .lt, rest)
  | '>', rest => .ok (.op .gt, rest)
  | c, _ => .error (.invalidOperator c)

def startsNumber (c : Char) (rest : List Char) : Bool :=
  c.isDigit || (c = '-' && rest.head?.any Char.isDigit)

def nextTok (tables : CharTables) (c : Char) (rest : List Char) :
    Except ConditionError (Tok × List Char) :=
  if c = '[' then .ok (.lbracket, rest)
  else if c = ']' then .ok (.rbracket, rest)
  else if c = '(' then .ok (.lparen, rest)
  else if c = ')' then .ok (.rparen, rest)
  else if c = '.' then .ok (.dot, rest)
  else if c = Char.ofNat 39 ∨ c = '"' then
    match rest.dropWhile (· ≠ c) with
    | [] => .error .unterminatedString
    | _ :: after => .ok (.str (String.ofList (rest.takeWhile (· ≠ c))), after)
  else if c = '=' ∨ c = '!' ∨ c = '<' ∨ c = '>' then operatorTok c rest
  else if startsNumber c rest then
    let text := c :: rest.takeWhile isNumberChar
    match parseF64 text with
    | some n => .ok (.num n, rest.dropWhile isNumberChar)
    | none => .error (.invalidNumber text)
  else if tables.isAlphabetic c || c = '_' then
    let wordChar := fun d => tables.isAlphanumeric d || d = '_'
    .ok (wordTok (String.ofList (c :: rest.takeWhile wordChar)), rest.dropWhile wordChar)
  else .error (.unexpectedCharacter c)

theorem operatorTok_shorter {c : Char} {rest left : List Char} {tok : Tok}
    (found : operatorTok c rest = .ok (tok, left)) : left.length ≤ rest.length := by
  unfold operatorTok at found
  split at found <;> cases found <;> simp

theorem nextTok_shorter {tables : CharTables} {c : Char} {rest left : List Char} {tok : Tok}
    (found : nextTok tables c rest = .ok (tok, left)) : left.length ≤ rest.length := by
  have dropped (p : Char → Bool) : (rest.dropWhile p).length ≤ rest.length :=
    (List.dropWhile_suffix p).length_le
  unfold nextTok at found
  iterate 5 (split at found; next => cases found; exact le_rfl)
  split at found
  next =>
    -- a quoted string ends after its closing quote
    split at found
    next => cases found
    next quote after closed =>
      cases found
      have shorter := dropped (· ≠ c)
      rw [closed, List.length_cons] at shorter
      omega
  split at found
  next => exact operatorTok_shorter found
  split at found
  next =>
    dsimp only at found
    split at found
    next => cases found; exact dropped _
    next => cases found
  split at found
  next => cases found; exact dropped _
  next => cases found

def tokenize (tables : CharTables) : List Char → Except ConditionError (List Tok)
  | [] => .ok []
  | c :: rest =>
    if isWhitespace c then tokenize tables rest
    else
      match _found : nextTok tables c rest with
      | .error e => .error e
      | .ok (tok, left) => (tokenize tables left).map (tok :: ·)
termination_by chars => chars.length
decreasing_by
  · simp
  · exact Nat.lt_succ_of_le (nextTok_shorter _found)

def asF64 : Number → ℚ
  | .int n => (Double.nearest n).getD n
  | .float q => q

def truthy : Value → Bool
  | .null => false
  | .bool b => b
  | .number n => asF64 n ≠ 0
  | .string s => s ≠ ""
  | .array items => !items.isEmpty
  | .object fields => !fields.isEmpty

def jsonEq : Value → Value → Bool
  | .number x, .number y => asF64 x = asF64 y
  | a, b => a = b

-- Values of different kinds have no order, and only numbers and strings have one.
def ordering : Value → Value → Option Ordering
  | .number a, .number b => some (compare (asF64 a) (asF64 b))
  | .string a, .string b => some (compare a b)
  | _, _ => none

def compareValues (left : Value) (op : CompareOp) (right : Value) : Bool :=
  match op with
  | .eq => jsonEq left right
  | .ne => !jsonEq left right
  | .lt => (ordering left right).any (·.isLT)
  | .le => (ordering left right).any (·.isLE)
  | .gt => (ordering left right).any (·.isGT)
  | .ge => (ordering left right).any (·.isGE)

def contains (haystack needle : Value) : Bool :=
  match haystack, needle with
  | .array items, needle => items.any (jsonEq · needle)
  | .object fields, .string key => (fields.lookup key).isSome
  | .string s, .string part => part.toList <:+: s.toList
  | _, _ => false

def fieldOf (value : Value) (field : String) : Value :=
  match value with
  | .object fields => (fields.lookup field).getD .null
  | _ => .null

inductive Literal where
  | str (s : String)
  | num (n : Option ℚ)
  | bool (b : Bool)
  | null
deriving DecidableEq, Repr

-- An infinite number has no JSON form.
def Literal.value : Literal → Value
  | .str s => .string s
  | .num (some q) => .number (.float q)
  | .num none => .null
  | .bool b => .bool b
  | .null => .null

inductive Namespace where
  | results
  | variables
  | headers
  | input
deriving DecidableEq, Repr

def Namespace.ofName : String → Option Namespace
  | "results" => some .results
  | "variables" => some .variables
  | "headers" => some .headers
  | "input" => some .input
  | _ => none

def lookup (ctx : StepContext) (ns : Namespace) (key : String) : Value :=
  match ns with
  | .results => ctx.results[key]?.getD .null
  | .variables => ctx.vars[key]?.getD .null
  | .headers => (ctx.headers[key]?.map .string).getD .null
  | .input => fieldOf ctx.input key

structure Actions (α : Type) where
  literal : Literal → α
  index : Namespace → String → α
  input : α
  group : α → α
  field : α → String → α
  compare : α → CompareOp → α → α
  member : α → α → α
  notMember : α → α → α
  not : α → α
  and : α → α → α
  or : α → α → α

def evaluating (ctx : StepContext) : Actions Value where
  literal := Literal.value
  index := lookup ctx
  input := ctx.input
  group value := value
  field := fieldOf
  compare left op right := .bool (compareValues left op right)
  member left right := .bool (contains right left)
  notMember left right := .bool !contains right left
  not value := .bool !truthy value
  and left right := .bool (truthy left && truthy right)
  or left right := .bool (truthy left || truthy right)

section Parser

variable {α : Type}

def parseLookup (actions : Actions α) (name : String) :
    List Tok → Except ConditionError (α × List Tok)
  | .lbracket :: .str key :: .rbracket :: rest =>
    match Namespace.ofName name with
    | some ns => .ok (actions.index ns key, rest)
    | none => .error (.unknownNamespace name)
  | .lbracket :: .str _ :: _ => .error .expectedBracket
  | .lbracket :: rest => .error (.expectedKey rest.head?)
  | rest => if name = "input" then .ok (actions.input, rest) else .error (.unknownName name)

def parseFieldAccessors (actions : Actions α) (value : α) :
    List Tok → Except ConditionError (α × List Tok)
  | .dot :: .ident field :: rest => parseFieldAccessors actions (actions.field value field) rest
  | .dot :: rest => .error (.expectedField rest.head?)
  | rest => .ok (value, rest)

-- The fuel bounds the depth of the calls and the turns of the loops.
mutual

def parseOr (actions : Actions α) : Nat → List Tok → Except ConditionError (α × List Tok)
  | 0, _ => .error .tooDeep
  | fuel + 1, tokens => do
    let (left, rest) ← parseAnd actions fuel tokens
    parseOrRest actions fuel left rest

def parseOrRest (actions : Actions α) :
    Nat → α → List Tok → Except ConditionError (α × List Tok)
  | 0, _, _ => .error .tooDeep
  | fuel + 1, left, .or :: rest => do
    let (right, rest) ← parseAnd actions fuel rest
    parseOrRest actions fuel (actions.or left right) rest
  | _ + 1, left, rest => .ok (left, rest)

def parseAnd (actions : Actions α) : Nat → List Tok → Except ConditionError (α × List Tok)
  | 0, _ => .error .tooDeep
  | fuel + 1, tokens => do
    let (left, rest) ← parseNot actions fuel tokens
    parseAndRest actions fuel left rest

def parseAndRest (actions : Actions α) :
    Nat → α → List Tok → Except ConditionError (α × List Tok)
  | 0, _, _ => .error .tooDeep
  | fuel + 1, left, .and :: rest => do
    let (right, rest) ← parseNot actions fuel rest
    parseAndRest actions fuel (actions.and left right) rest
  | _ + 1, left, rest => .ok (left, rest)

def parseNot (actions : Actions α) : Nat → List Tok → Except ConditionError (α × List Tok)
  | 0, _ => .error .tooDeep
  | fuel + 1, .not :: rest => do
    let (operand, rest) ← parseNot actions fuel rest
    .ok (actions.not operand, rest)
  | fuel + 1, tokens => parseComparison actions fuel tokens

def parseComparison (actions : Actions α) :
    Nat → List Tok → Except ConditionError (α × List Tok)
  | 0, _ => .error .tooDeep
  | fuel + 1, tokens => do
    let (left, rest) ← parseOperand actions fuel tokens
    match rest with
    | .op op :: rest =>
      let (right, rest) ← parseOperand actions fuel rest
      .ok (actions.compare left op right, rest)
    | .in :: rest =>
      let (right, rest) ← parseOperand actions fuel rest
      .ok (actions.member left right, rest)
    | .not :: .in :: rest =>
      let (right, rest) ← parseOperand actions fuel rest
      .ok (actions.notMember left right, rest)
    | .not :: _ => .error .expectedIn
    | rest => .ok (left, rest)

def parseOperand (actions : Actions α) :
    Nat → List Tok → Except ConditionError (α × List Tok)
  | 0, _ => .error .tooDeep
  | fuel + 1, .lparen :: rest => do
    let (inner, rest) ← parseOr actions fuel rest
    match rest with
    | .rparen :: rest => parseFieldAccessors actions (actions.group inner) rest
    | _ => .error .expectedParen
  | _ + 1, .str s :: rest => parseFieldAccessors actions (actions.literal (.str s)) rest
  | _ + 1, .num n :: rest => parseFieldAccessors actions (actions.literal (.num n)) rest
  | _ + 1, .bool b :: rest => parseFieldAccessors actions (actions.literal (.bool b)) rest
  | _ + 1, .null :: rest => parseFieldAccessors actions (actions.literal .null) rest
  | _ + 1, .ident name :: rest => do
    let (base, rest) ← parseLookup actions name rest
    parseFieldAccessors actions base rest
  | _ + 1, tokens => .error (.unexpectedToken tokens.head?)

end

def parseFuel (tokens : List Tok) : Nat := 6 * tokens.length + 6

def parseWhole (actions : Actions α) (tokens : List Tok) : Except ConditionError α := do
  let (value, rest) ← parseOr actions (parseFuel tokens) tokens
  if rest = [] then .ok value else .error .trailingTokens

end Parser

def evaluate (tables : CharTables) (expression : List Char) (ctx : StepContext) :
    Except ConditionError Bool := do
  let tokens ← tokenize tables expression
  let value ← parseWhole (evaluating ctx) tokens
  .ok (truthy value)

end Firefly.Orchestration.Condition
