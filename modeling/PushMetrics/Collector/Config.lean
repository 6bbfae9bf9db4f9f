import PushMetrics.Config.Variables
import PushMetrics.Net.SocketAddress

/-!
# The collector's configuration

Settings of the collector with their defaults, read from variables and checked; the first fault in a fixed
order is the error.
-/

namespace PushMetrics.Collector

open PushMetrics.Config Net Text

structure Config where
  address : String
  /-- The time between snapshots; with none, every write is followed by one. -/
  storeInterval : Span
  snapshotPath : Option String
  restore : Bool
  dsn : Option String
  logLevel : String
  lockTtl : Span
deriving DecidableEq, Repr

namespace Config

def socketAddress? (c : Config) : Option SocketAddress := SocketAddress.ofText? (trim c.address)

/-- The settings as the variables give them, not yet checked. -/
def read (vars : Variables) : Except ConfigError Config := do
  let storeInterval ← word vars "STORE_INTERVAL" 64 300
  let lockTtl ← word vars "LOCK_TTL" 64 60
  return {
    address := (vars "ADDRESS").getD "127.0.0.1:8080"
    storeInterval := .ofSeconds storeInterval
    snapshotPath := nonBlank vars "FILE_STORAGE_PATH"
    restore := ((vars "RESTORE").map fun value => lowercase (trim value) != "false").getD true
    dsn := nonBlank vars "DATABASE_DSN"
    logLevel := logLevelOf vars
    lockTtl := .ofSeconds lockTtl }

def check (c : Config) : Except ConfigError Unit :=
  if c.socketAddress?.isNone then .error (.unparsable "ADDRESS" c.address)
  else if c.lockTtl.isZero then .error (.invalid .zeroLockTtl)
  else if c.logLevel ∉ logLevels then .error (.invalid (.unknownLogLevel c.logLevel))
  else .ok ()

def ofVariables (vars : Variables) : Except ConfigError Config := do
  let c ← read vars
  c.check
  return c

end Config

end PushMetrics.Collector
