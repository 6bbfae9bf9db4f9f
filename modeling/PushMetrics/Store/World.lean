import PushMetrics.Store.Disk
import PushMetrics.Sql.Statement
import PushMetrics.Time.Span

/-!
# Surroundings

What stores share with the rest of the machine: the disk, the databases, the clock, and the log of warnings
and errors. What is only for information is not logged.
-/

namespace PushMetrics

inductive Severity where
  | warning
  | error
deriving DecidableEq, Repr

structure LogLine where
  time : Nat
  severity : Severity
  text : String
deriving DecidableEq, Repr

structure World where
  disk : Disk
  /-- Databases in the order of their creation; a database is known by its place. -/
  databases : List Sql.Database
  now : Nat
  /-- The newest line comes first. -/
  log : List LogLine

namespace World

def note (w : World) (severity : Severity) (text : String) : World :=
  { w with log := ⟨w.now, severity, text⟩ :: w.log }

/-- A database, empty if there is none of that number. -/
def database (w : World) (id : Nat) : Sql.Database := w.databases.getD id .empty

def setDatabase (w : World) (id : Nat) (d : Sql.Database) : World :=
  { w with databases := w.databases.set id d }

/-- The surroundings with a new database, and its number. -/
def addDatabase (w : World) (d : Sql.Database) : Nat × World :=
  (w.databases.length, { w with databases := w.databases ++ [d] })

end World

end PushMetrics
