import Firefly.Shared.Calendar
import Firefly.Shared.Decimal
import Firefly.Shared.Text

set_option autoImplicit false

namespace Firefly.Scheduling

open Calendar Decimal Text

inductive CronError where
  | fieldCount (got : Nat) (expr : String)
  | badStep (field : String) (part : String)
  | badRange (field : String) (part : String)
  | badValue (field : String) (part : String)
deriving DecidableEq, Repr

def CronError.toString : CronError → String
  | .fieldCount got expr =>
    "cron: want 5 fields, got " ++ String.ofList (digits got) ++ " (" ++ debugStr expr ++ ")"
  | .badStep field part => field ++ ": bad step " ++ debugStr part
  | .badRange field part => field ++ ": bad range " ++ debugStr part
  | .badValue field part => field ++ ": bad value " ++ debugStr part

structure CronExpr where
  second : List Nat
  minute : List Nat
  hour : List Nat
  dayOfMonth : List Nat
  month : List Nat
  dayOfWeek : List Nat
deriving DecidableEq, Repr

def expandMacro (expr : String) : Option String :=
  if expr = "@hourly" then some "0 * * * *"
  else if expr = "@daily" ∨ expr = "@midnight" then some "0 0 * * *"
  else if expr = "@weekly" then some "0 0 * * 0"
  else if expr = "@monthly" then some "0 0 1 * *"
  else if expr = "@yearly" ∨ expr = "@annually" then some "0 0 1 1 *"
  else none

-- The loop `while v <= hi`. A step is positive, so `hi + 1` rounds are enough.
def insertSteps (hi step : Nat) : Nat → Nat → Std.TreeSet Nat → Std.TreeSet Nat
  | 0, _, out => out
  | rounds + 1, v, out =>
    if v ≤ hi then
      let out := out.insert v
      if v + step < 2 ^ 32 then insertSteps hi step rounds (v + step) out else out
    else out

def splitStep (name : String) (raw : List Char) : Except CronError (List Char × Nat) :=
  match raw.idxOf? '/' with
  | none => .ok (raw, 1)
  | some i =>
    match parseI64 (raw.drop (i + 1)) with
    | none => .error (.badStep name (String.ofList raw))
    | some s =>
      if s ≤ 0 then .error (.badStep name (String.ofList raw))
      else .ok (raw.take i, if s < 2 ^ 32 then s.toNat else 2 ^ 32 - 1)

def parsePart (lo hi : Nat) (name : String) (out : Std.TreeSet Nat) (raw : List Char) :
    Except CronError (Std.TreeSet Nat) :=
  match splitStep name raw with
  | .error error => .error error
  | .ok (part, step) =>
    if part = ['*'] then .ok (insertSteps hi step (hi + 1) lo out)
    else if '-' ∈ part then
      match parseI64 (part.takeWhile (· ≠ '-')), parseI64 ((part.dropWhile (· ≠ '-')).drop 1) with
      | some a, some b =>
        if a < lo ∨ hi < b ∨ b < a then .error (.badRange name (String.ofList part))
        else .ok (insertSteps b.toNat step (b.toNat + 1) a.toNat out)
      | _, _ => .error (.badRange name (String.ofList part))
    else
      match parseI64 part with
      | none => .error (.badValue name (String.ofList part))
      | some v =>
        if v < lo ∨ hi < v then .error (.badValue name (String.ofList part))
        else .ok (out.insert v.toNat)

def parseField (field : List Char) (lo hi : Nat) (name : String) : Except CronError (List Nat) :=
  ((field.splitOn ',').foldlM (parsePart lo hi name) ∅).map Std.TreeSet.toList

def expand (trimmed : List Char) : Except CronError (List Char) :=
  if trimmed.head? = some '@' then
    match expandMacro (String.ofList trimmed) with
    | none => .error (.badValue "macro" (String.ofList trimmed))
    | some text => .ok text.toList
  else .ok trimmed

def parseCron (expr : String) : Except CronError CronExpr := do
  let expanded ← expand (trim expr.toList)
  -- The Quartz placeholder stands for `*` in any field.
  let normalized := expanded.map fun c => if c = '?' then '*' else c
  match splitWhitespace normalized with
  | [minute, hour, dayOfMonth, month, dayOfWeek] =>
    return {
      second := [0]
      minute := ← parseField minute 0 59 "minute"
      hour := ← parseField hour 0 23 "hour"
      dayOfMonth := ← parseField dayOfMonth 1 31 "dom"
      month := ← parseField month 1 12 "month"
      dayOfWeek := ← parseField dayOfWeek 0 6 "dow" }
  | [second, minute, hour, dayOfMonth, month, dayOfWeek] =>
    return {
      second := ← parseField second 0 59 "second"
      minute := ← parseField minute 0 59 "minute"
      hour := ← parseField hour 0 23 "hour"
      dayOfMonth := ← parseField dayOfMonth 1 31 "dom"
      month := ← parseField month 1 12 "month"
      dayOfWeek := ← parseField dayOfWeek 0 6 "dow" }
  | fields => throw (.fieldCount fields.length expr)

def runEnd : Nat → List Nat → Nat × List Nat
  | last, [] => (last, [])
  | last, x :: rest => if x = last + 1 then runEnd x rest else (last, x :: rest)

def renderRun (start last : Nat) : List (List Char) :=
  if start + 1 < last then [digits start ++ '-' :: digits last]
  else if last = start + 1 then [digits start, digits last]
  else [digits start]

def renderRuns : Nat → List Nat → List (List Char)
  | 0, _ => []
  | _, [] => []
  | rounds + 1, start :: rest =>
    let (last, rest) := runEnd start rest
    renderRun start last ++ renderRuns rounds rest

def renderField (xs : List Nat) (lo hi : Nat) : List Char :=
  if xs = [] ∨ xs.length = hi - lo + 1 then ['*']
  else [','].intercalate (renderRuns xs.length xs)

-- The seconds are left out if they are those of a five-field expression.
def CronExpr.toString (e : CronExpr) : String :=
  String.ofList <|
    (if e.second ≠ [0] then renderField e.second 0 59 ++ [' '] else []) ++
      (renderField e.minute 0 59 ++ ' ' :: (renderField e.hour 0 23 ++ ' ' ::
        (renderField e.dayOfMonth 1 31 ++ ' ' :: (renderField e.month 1 12 ++ ' ' ::
          renderField e.dayOfWeek 0 6))))

/-- Seconds since 0001-01-01T00:00:00Z, and the part of a second. -/
structure DateTime where
  seconds : Int
  nanosecond : Nat
deriving DecidableEq

-- `DateTime::<Utc>::MAX_UTC`, the last second of the year 262142.
def maxSeconds : Int := yearStart 262143 * 86400 - 1

-- `DateTime::<Utc>::MIN_UTC`, the first second of the year -262143.
def minSeconds : Int := yearStart (-262143) * 86400

def days (t : Int) : Int := t / 86400

def hourOf (t : Int) : Nat := (t % 86400 / 3600).toNat

def minuteOf (t : Int) : Nat := (t % 3600 / 60).toNat

def secondOf (t : Int) : Nat := (t % 60).toNat

def floorMinute (t : Int) : Int := t - t % 60

def withSecond (t : Int) (second : Nat) : Option Int :=
  if second < 60 then some (floorMinute t + second) else none

def checkedAddMinute (t : Int) : Option Int :=
  if t + 60 ≤ maxSeconds then some (t + 60) else none

def checkedSubMinute (t : Int) : Option Int :=
  if minSeconds ≤ t - 60 then some (t - 60) else none

namespace CronExpr

def isRestricted (xs : List Nat) (lo hi : Nat) : Bool := xs.length ≠ hi - lo + 1

def dateMatches (e : CronExpr) (day : Int) : Bool :=
  let dom := e.dayOfMonth.contains (dateOf day).day
  let dow := e.dayOfWeek.contains (weekday day)
  if isRestricted e.dayOfMonth 1 31 && isRestricted e.dayOfWeek 0 6 then dom || dow
  else dom && dow

def matchesTime (e : CronExpr) (t : Int) : Bool :=
  e.minute.contains (minuteOf t) && e.hour.contains (hourOf t) &&
    e.month.contains (dateOf (days t)).month && e.dateMatches (days t)

def maxSearchMinutes : Nat := 366 * 24 * 60

def search (e : CronExpr) : Nat → Int → Option Int
  | 0, _ => none
  | rounds + 1, t =>
    if e.matchesTime t then e.second.head?.bind (withSecond t)
    else
      match checkedAddMinute t with
      | none => none
      | some t => e.search rounds t

def next (e : CronExpr) (start : DateTime) : Option DateTime :=
  let floor := floorMinute start.seconds
  let onward := (checkedAddMinute floor).bind (e.search maxSearchMinutes)
  let found :=
    if e.matchesTime floor then
      match e.second.find? fun s => secondOf start.seconds < s with
      | some s => withSecond floor s
      | none => onward
    else onward
  found.map fun seconds => ⟨seconds, 0⟩

def searchBack (e : CronExpr) : Nat → Int → Option Int
  | 0, _ => none
  | rounds + 1, t =>
    if e.matchesTime t then e.second.getLast?.bind (withSecond t)
    else
      match checkedSubMinute t with
      | none => none
      | some t => e.searchBack rounds t

def prev (e : CronExpr) (before : DateTime) : Option DateTime :=
  let floor := floorMinute before.seconds
  -- A second of this minute is earlier than `before` if it is below the cutoff.
  let cutoff :=
    if 0 < before.nanosecond then secondOf before.seconds + 1 else secondOf before.seconds
  let back := (checkedSubMinute floor).bind (e.searchBack maxSearchMinutes)
  let found :=
    if e.matchesTime floor then
      match e.second.reverse.find? fun s => s < cutoff with
      | some s => withSecond floor s
      | none => back
    else back
  found.map fun seconds => ⟨seconds, 0⟩

def nextN (e : CronExpr) : Nat → DateTime → List DateTime
  | 0, _ => []
  | n + 1, cursor =>
    match e.next cursor with
    | none => []
    | some t => t :: e.nextN n t

end CronExpr

structure CronTrigger where
  expr : CronExpr

def CronTrigger.next (trigger : CronTrigger) (now : DateTime) : Option DateTime :=
  trigger.expr.next now

end Firefly.Scheduling
