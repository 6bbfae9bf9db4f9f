import PushMetrics.Sql.Transaction

/-!
# Migrations

How a database with an older schema is brought to the one that this library writes: by one transaction for each
version that is missing, which changes the schema, carries the rows over and records the version. A run that stops
on its way leaves the transactions that it has committed and no part of another. Before all of them the table of
versions is made if it is missing; a database without it and one in which it is empty are the same here.
-/

namespace PushMetrics.Sql

open Number

inductive SchemaStatement where
  | createMetrics
  | addDelta
  | fillDelta
  | record (version : Nat)
deriving DecidableEq, Repr

/-- A row after the counts of counters have been filled in. -/
def Row.filled (r : Row) : Row :=
  if r.tag = "counter" then { r with delta := some (Database.castInteger r.value) } else r

/-- Carries out a statement. A column can be added once, and versions are recorded in their order, each once. -/
def SchemaStatement.execute : SchemaStatement → Database → Except DatabaseFault Database
  | createMetrics, d => .ok { d with table := some (d.table.getD ⟨false, Dict.empty⟩) }
  | addDelta, d => match d.table with
    | some ⟨false, rows⟩ => .ok { d with table := some ⟨true, rows.mapValues fun _ r => { r with delta := none }⟩ }
    | _ => .error .schema
  | fillDelta, d => match d.table with
    | some ⟨true, rows⟩ => .ok { d with table := some ⟨true, rows.mapValues fun _ r => r.filled⟩ }
    | _ => .error .schema
  | record version, d => if version ≤ d.version then .error .schema else .ok { d with version }

inductive MigrationStep where
  | start
  | execute (statement : SchemaStatement)
  | commit
deriving DecidableEq, Repr

namespace Session

def migrateBy (s : Session) : MigrationStep → Except DatabaseFault Session
  | .start => s.execute .start
  | .execute statement => s.write statement.execute
  | .commit => s.execute .commit

/-- Carries out steps until one fails, with which the transaction in progress is given up. -/
def follow : List MigrationStep → Session → Option DatabaseFault × Session
  | [], s => (none, s)
  | step :: rest, s =>
    match s.migrateBy step with
    | .error fault => (some fault, { s with working := none })
    | .ok s => follow rest s

end Session

namespace Database

/-- The schema that this library writes. -/
def currentVersion : Nat := 2

def toVersion1 : List SchemaStatement := [.createMetrics, .record 1]

def toVersion2 : List SchemaStatement := [.addDelta, .fillDelta, .record 2]

/-- The statements of the transactions that a database still needs. -/
def pending (d : Database) : List (List SchemaStatement) :=
  if currentVersion ≤ d.version then []
  else (if d.version < 1 then [toVersion1] else []) ++ (if d.version < 2 then [toVersion2] else [])

def transaction (statements : List SchemaStatement) : List MigrationStep :=
  .start :: statements.map .execute ++ [.commit]

def migration (d : Database) : List MigrationStep := d.pending.flatMap transaction

/-- Carries out the transactions that are needed until a statement fails. -/
def migrate (readOnly : Bool) (d : Database) : Option DatabaseFault × Database :=
  let (fault, s) := Session.follow d.migration ⟨readOnly, d, none⟩
  (fault, s.committed)

/-- What a migration leaves that stops for good after a number of steps. -/
def interrupted (d : Database) (steps : Nat) : Database :=
  (Session.follow (d.migration.take steps) ⟨false, d, none⟩).2.committed

end Database

end PushMetrics.Sql
