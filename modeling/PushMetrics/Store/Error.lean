import PushMetrics.Metric.Parse

/-!
# Storage errors

Why a store refuses an operation or cannot be opened.
-/

namespace PushMetrics

inductive SetupFault where
  | emptyPath
  | missingDirectory (path : String)
  | emptyDsn
deriving DecidableEq, Repr

def SetupFault.message : SetupFault → String
  | emptyPath => "dump file path cannot be empty"
  | missingDirectory path => "dump directory " ++ path ++ " does not exist"
  | emptyDsn => "database DSN cannot be empty"

inductive RecordFault where
  | json
  | metric (error : ParseError)
deriving DecidableEq, Repr

/-- The wording of a fault. What the JSON reader dislikes is not told. -/
def RecordFault.message : RecordFault → String
  | json => "<json>"
  | metric error => error.message

inductive IoFault where
  | notFound
  | notADirectory
  | isADirectory
  | notText
deriving DecidableEq, Repr

def IoFault.message : IoFault → String
  | notFound => "no such file or directory"
  | notADirectory => "not a directory"
  | isADirectory => "is a directory"
  | notText => "stream did not contain valid UTF-8"

inductive DatabaseFault where
  /-- The source name or one of its parameters is not understood. -/
  | badSource
  | cannotOpen
  | notADatabase
  | readOnly
  /-- A value is missing where one is needed. -/
  | missingValue
  | rejected
  | schema
  | badRow (error : ParseError)
deriving DecidableEq, Repr

def DatabaseFault.message : DatabaseFault → String
  | badSource => "invalid data source"
  | cannotOpen => "unable to open database file"
  | notADatabase => "file is not a database"
  | readOnly => "attempt to write a readonly database"
  | missingValue => "NOT NULL constraint failed"
  | rejected => "row rejected"
  | schema => "schema mismatch"
  | badRow error => error.message

inductive StorageError where
  | closed
  | setup (fault : SetupFault)
  | restore (line : Nat) (fault : RecordFault)
  | io (fault : IoFault)
  | database (fault : DatabaseFault)
deriving DecidableEq, Repr

def StorageError.message : StorageError → String
  | closed => "storage closed"
  | setup fault => "invalid storage configuration: " ++ fault.message
  | restore line fault =>
    "restore failed at line " ++ Number.naturalText line ++ ": " ++ fault.message
  | io fault => "storage I/O error: " ++ fault.message
  | database fault => "database error: " ++ fault.message

end PushMetrics
