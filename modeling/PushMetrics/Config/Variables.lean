import PushMetrics.Time.Span
import PushMetrics.Text.Blank
import PushMetrics.Text.Lowercase

/-!
# Configuration variables

Settings come from named texts. A variable that is not set leaves the default; one that is set has to
have the form of its setting, and settings have to fit together.
-/

namespace PushMetrics.Config

open Number Text

abbrev Variables := String → Option String

inductive Fault where
  | emptyAddress
  | zeroInterval
  | zeroLimit
  | zeroAttempts
  | delaysCrossed (greatest base : Span)
  | zeroLockTtl
  | unknownLogLevel (level : String)
deriving DecidableEq, Repr

def Fault.message : Fault → String
  | emptyAddress => "ADDRESS cannot be empty"
  | zeroInterval => "poll and report intervals must be greater than 0"
  | zeroLimit => "BATCH_SIZE, QUEUE_CAPACITY and RATE_LIMIT must be greater than 0"
  | zeroAttempts => "RETRY_ATTEMPTS must be greater than 0"
  | delaysCrossed greatest base =>
    "RETRY_MAX_DELAY_MS (" ++ greatest.text ++ ") is shorter than RETRY_BASE_DELAY_MS (" ++ base.text ++ ")"
  | zeroLockTtl => "LOCK_TTL must be greater than 0"
  | unknownLogLevel level =>
    "Invalid log level '" ++ level ++ "'. Must be one of: trace, debug, info, warn, error"

inductive ConfigError where
  | unparsable (name value : String)
  | invalid (fault : Fault)
deriving DecidableEq, Repr

def ConfigError.message : ConfigError → String
  | unparsable name value => "Invalid value '" ++ value ++ "' for " ++ name
  | invalid fault => "Invalid configuration: " ++ fault.message

/-- A natural number of at most `bits` bits, blanks around it allowed, or the default. -/
def word (vars : Variables) (name : String) (bits default : Nat) : Except ConfigError Nat :=
  match vars name with
  | none => .ok default
  | some value => match word? bits (trim value) with
    | some n => .ok n
    | none => .error (.unparsable name value)

def nonBlank (vars : Variables) (name : String) : Option String :=
  (vars name).filter fun value => trim value != ""

def logLevels : List String := ["trace", "debug", "info", "warn", "error"]

/-- The log level in lower case, `info` by default. -/
def logLevelOf (vars : Variables) : String := ((vars "LOG_LEVEL").map lowercase).getD "info"

end PushMetrics.Config
