import PushMetrics.Sql.Statement

/-!
# Transactions

A connection carries out statements one at a time, and each may fail on its way. Outside a transaction a statement
that succeeds takes effect by itself; within one, nothing takes effect before the commit. A statement that fails has
no effect, and neither has a transaction that is rolled back or left without a commit.
-/

namespace PushMetrics.Sql

inductive Statement where
  | start
  | upsert (m : Metric)
  | deleteAll
  | commit
  | rollback
deriving DecidableEq, Repr

/-- How the statements of one operation fail on their way, numbered from zero. -/
abbrev Faults := Nat → Option StorageError

def Faults.none : Faults := fun _ => .none

/-- What a connection sees of a database. -/
structure Session where
  readOnly : Bool
  committed : Database
  /-- The database as the transaction in progress has it. -/
  working : Option Database

namespace Session

def write (s : Session) (change : Database → Except DatabaseFault Database) : Except DatabaseFault Session :=
  if s.readOnly then .error .readOnly
  else match s.working with
    | some d => (change d).map fun d => { s with working := some d }
    | none => (change s.committed).map fun d => { s with committed := d }

def execute (s : Session) : Statement → Except DatabaseFault Session
  | .start => .ok { s with working := some s.committed }
  | .upsert m => s.write (·.upsert m)
  | .deleteAll => s.write (·.deleteAll)
  | .commit => .ok { s with committed := s.working.getD s.committed, working := none }
  | .rollback => .ok { s with working := none }

/-- Sends the statement of number `n`. -/
def send (faults : Faults) (n : Nat) (statement : Statement) (s : Session) : Except StorageError Unit × Session :=
  match faults n with
  | some e => (.error e, s)
  | none => match s.execute statement with
    | .ok s => (.ok (), s)
    | .error fault => (.error (.database fault), s)

/-- Sends the rows of a batch from the statement of number `n` on, and then commits. A row that fails ends the
transaction. -/
def sendRows (faults : Faults) : Nat → List Metric → Session → Except StorageError Unit × Session
  | n, [], s => s.send faults n .commit
  | n, m :: rest, s =>
    match s.send faults n (.upsert m) with
    | (.ok _, s) => sendRows faults (n + 1) rest s
    | (.error e, s) => match s.send faults (n + 1) .rollback with
      | (.ok _, s) => (.error e, s)
      | (.error e, s) => (.error e, s)

/-- Carries out a change: a batch in a transaction, anything else by one statement. -/
def change (faults : Faults) (change : Change) (s : Session) : Except StorageError Unit × Session :=
  match change with
  | .save m => s.send faults 0 (.upsert m)
  | .reset => s.send faults 0 .deleteAll
  | .saveBatch ms => match s.send faults 0 .start with
    | (.error e, s) => (.error e, s)
    | (.ok _, s) => s.sendRows faults 1 ms

end Session

end PushMetrics.Sql
