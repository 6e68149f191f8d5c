import Firefly.Shared.Decimal
import Firefly.Shared.StableSort
import Firefly.Shared.Text

set_option autoImplicit false

namespace Firefly.Migrations

open Decimal StableSort Text

structure Migration where
  version : Int
  description : String
  filename : String
  sql : String
  checksum : String
deriving DecidableEq, Repr

def DatabaseError : Type := String
deriving DecidableEq, Repr

inductive MigrationError where
  | checksumMismatch (version : Int) (filename : String)
  | createTable (source : DatabaseError)
  | apply (version : Int) (filename : String) (source : DatabaseError)
  | database (source : DatabaseError)
  | io (message : String)
deriving DecidableEq, Repr

def isDescriptionChar (c : Char) : Bool := c.isAlphanum || c = '_' || c = '-'

def parseName (name : String) : Option (Int × String) :=
  match name.toList with
  | 'V' :: rest =>
    match rest.dropWhile Char.isDigit with
    | '_' :: '_' :: tail =>
      let description := tail.takeWhile isDescriptionChar
      if rest.takeWhile Char.isDigit ≠ [] ∧ description ≠ [] ∧
          tail.dropWhile isDescriptionChar = ".sql".toList then
        (parseI64 (rest.takeWhile Char.isDigit)).map fun version =>
          (version, String.ofList (description.map fun c => if c = '_' then ' ' else c))
      else none
    | _ => none
  | _ => none

structure Source where
  list : Except MigrationError (List Migration)
  ordered : ∀ migs, list = .ok migs → Ordered Migration.version migs

def Source.sorted (out : Except MigrationError (List Migration)) : Source where
  list := out.map (sortByKey Migration.version)
  ordered := by
    rintro migs listed
    cases out with
    | error error => cases listed
    | ok out =>
      obtain rfl := Except.ok.inj listed
      exact sortByKey_ordered out

structure Entry where
  name : String
  isDir : Bool
  body : Except MigrationError (List UInt8)

variable (checksum : List UInt8 → String) (lossy : List UInt8 → String)

def dirMigrations : List (Except MigrationError Entry) → Except MigrationError (List Migration)
  | [] => .ok []
  | .error error :: _ => .error error
  | .ok entry :: rest =>
    if entry.isDir then dirMigrations rest
    else
      match parseName entry.name with
      | none => dirMigrations rest
      | some (version, description) =>
        match entry.body with
        | .error error => .error error
        | .ok body =>
          (dirMigrations rest).map fun out =>
            { version, description, filename := entry.name, checksum := checksum body
              sql := lossy body } :: out

def dirSource (entries : Except MigrationError (List (Except MigrationError Entry))) : Source :=
  .sorted (entries.bind (dirMigrations checksum lossy))

def bytes (text : String) : List UInt8 := text.toUTF8.toList

def embeddedSource (files : List (String × String)) : Source :=
  .sorted (.ok (files.filterMap fun (name, sql) => (parseName name).map fun (version, description) =>
    { version, description, filename := name, sql, checksum := checksum (bytes sql) }))

def sliceSource (items : List Migration) : Source :=
  .sorted (.ok (items.map fun m =>
    if m.checksum = "" then { m with checksum := checksum (bytes m.sql) } else m))

inductive SqlValue where
  | int (n : Int)
  | text (s : String)
deriving DecidableEq, Repr

def SqlValue.debug : SqlValue → String
  | .int n => "Int(" ++ toString n ++ ")"
  | .text s => "Text(" ++ debugStr s ++ ")"

structure Database (σ : Type) where
  execute : String → List SqlValue → σ → Except DatabaseError Unit × σ
  query : String → σ → Except DatabaseError (List (List SqlValue)) × σ
  begin : σ → Except DatabaseError Unit × σ
  commit : σ → Except DatabaseError Unit × σ
  rollback : σ → Except DatabaseError Unit × σ

inductive Call where
  | createTable
  | select
  | begin
  | execute
  | insert
  | commit
  | rollback
deriving DecidableEq, Repr

/-- `failed` is no field of the source: the calls that have failed so far. -/
structure World (σ : Type) where
  state : σ
  failed : List Call

variable {σ α : Type}

def call (name : Call) (op : σ → Except DatabaseError α × σ) (w : World σ) :
    Except DatabaseError α × World σ :=
  match op w.state with
  | (.ok value, state) => (.ok value, { w with state })
  | (.error error, state) => (.error error, { state, failed := w.failed ++ [name] })

def ddlCreate : String :=
  "\nCREATE TABLE IF NOT EXISTS firefly_migrations (\n    version     INTEGER     PRIMARY KEY,\n" ++
    "    description TEXT        NOT NULL,\n    filename    TEXT        NOT NULL,\n" ++
    "    checksum    TEXT        NOT NULL,\n    applied_at  TIMESTAMP   NOT NULL\n)"

def insertHistory : String :=
  "INSERT INTO firefly_migrations (version, description, filename, checksum, applied_at) " ++
    "VALUES (?, ?, ?, ?, ?)"

def selectApplied : String := "SELECT version, checksum FROM firefly_migrations"

def readRows : (Int → Option String) → List (List SqlValue) →
    Except DatabaseError (Int → Option String)
  | out, [] => .ok out
  | out, [.int version, .text checksum] :: rows =>
    readRows (Function.update out version (some checksum)) rows
  | _, other :: _ =>
    .error ("firefly/migrations: unexpected history row shape: [" ++
      ", ".intercalate (other.map SqlValue.debug) ++ "]")

variable (db : Database σ) (appliedAt : Migration → String)

def loadApplied (w : World σ) : Except DatabaseError (Int → Option String) × World σ :=
  match call .select (db.query selectApplied) w with
  | (.error error, w) => (.error error, w)
  | (.ok rows, w) => (readRows (fun _ => none) rows, w)

def historyValues (m : Migration) : List SqlValue :=
  [.int m.version, .text m.description, .text m.filename, .text m.checksum, .text (appliedAt m)]

def execAndRecord (m : Migration) (w : World σ) : Except DatabaseError Unit × World σ :=
  match call .execute (db.execute m.sql []) w with
  | (.error error, w) => (.error error, w)
  | (.ok _, w) => call .insert (db.execute insertHistory (historyValues appliedAt m)) w

def applyOne (m : Migration) (w : World σ) : Except DatabaseError Unit × World σ :=
  match call .begin db.begin w with
  | (.error error, w) => (.error error, w)
  | (.ok _, w) =>
    match execAndRecord db appliedAt m w with
    -- What the rollback answers is ignored.
    | (.error error, w) => (.error error, (call .rollback db.rollback w).2)
    | (.ok _, w) => call .commit db.commit w

def applyPending (applied : Int → Option String) :
    List Migration → World σ → Except MigrationError Unit × World σ
  | [], w => (.ok (), w)
  | m :: migs, w =>
    match applied m.version with
    | some recorded =>
      if recorded ≠ m.checksum then (.error (.checksumMismatch m.version m.filename), w)
      else applyPending applied migs w
    | none =>
      match applyOne db appliedAt m w with
      | (.error source, w) => (.error (.apply m.version m.filename source), w)
      | (.ok _, w) => applyPending applied migs w

def run (src : Source) (w : World σ) : Except MigrationError Unit × World σ :=
  match call .createTable (db.execute ddlCreate []) w with
  | (.error error, w) => (.error (.createTable error), w)
  | (.ok _, w) =>
    match src.list with
    | .error error => (.error error, w)
    | .ok migs =>
      match loadApplied db w with
      | (.error error, w) => (.error (.database error), w)
      | (.ok applied, w) => applyPending db appliedAt applied migs w

end Firefly.Migrations
