import PushMetrics.Agent.Backoff
import PushMetrics.Config.Variables

/-!
# The agent's configuration

Settings of the agent with their defaults, read from variables in a fixed order and then checked in a
fixed order; the first fault is the error.
-/

namespace PushMetrics.Agent

open PushMetrics.Config Number Text

structure Config where
  address : String
  pollInterval : Span
  reportInterval : Span
  batchSize : Nat
  queueCapacity : Nat
  rateLimit : Nat
  retryAttempts : Nat
  retryBase : Span
  retryCap : Span
  sendTimeout : Span
  shutdownTimeout : Span
  logLevel : String
deriving DecidableEq, Repr

namespace Config

def default : Config where
  address := "http://localhost:8080"
  pollInterval := .ofSeconds 2
  reportInterval := .ofSeconds 10
  batchSize := 20
  queueCapacity := 1000
  rateLimit := 2
  retryAttempts := 4
  retryBase := .ofMillis 1000
  retryCap := .ofMillis 5000
  sendTimeout := .ofMillis 5000
  shutdownTimeout := .ofSeconds 10
  logLevel := "info"

/-- The settings as the variables give them, not yet checked against each other. -/
def read (vars : Variables) : Except ConfigError Config := do
  let pollInterval ← word vars "POLL_INTERVAL" 64 2
  let reportInterval ← word vars "REPORT_INTERVAL" 64 10
  let batchSize ← word vars "BATCH_SIZE" 64 default.batchSize
  let queueCapacity ← word vars "QUEUE_CAPACITY" 64 default.queueCapacity
  let rateLimit ← word vars "RATE_LIMIT" 32 default.rateLimit
  let retryAttempts ← word vars "RETRY_ATTEMPTS" 32 default.retryAttempts
  let retryBase ← word vars "RETRY_BASE_DELAY_MS" 64 1000
  let retryCap ← word vars "RETRY_MAX_DELAY_MS" 64 5000
  let sendTimeout ← word vars "SEND_TIMEOUT_MS" 64 5000
  let shutdownTimeout ← word vars "SHUTDOWN_TIMEOUT" 64 10
  return {
    address := (vars "ADDRESS").getD default.address
    pollInterval := .ofSeconds pollInterval
    reportInterval := .ofSeconds reportInterval
    batchSize, queueCapacity, rateLimit, retryAttempts
    retryBase := .ofMillis retryBase
    retryCap := .ofMillis retryCap
    sendTimeout := .ofMillis sendTimeout
    shutdownTimeout := .ofSeconds shutdownTimeout
    logLevel := logLevelOf vars }

def check (c : Config) : Except ConfigError Unit :=
  if trim c.address = "" then .error (.invalid .emptyAddress)
  else if c.pollInterval.isZero || c.reportInterval.isZero then .error (.invalid .zeroInterval)
  else if c.batchSize = 0 ∨ c.queueCapacity = 0 ∨ c.rateLimit = 0 then .error (.invalid .zeroLimit)
  else if c.retryAttempts = 0 then .error (.invalid .zeroAttempts)
  else if c.retryCap.nanos < c.retryBase.nanos then .error (.invalid (.delaysCrossed c.retryCap c.retryBase))
  else if c.logLevel ∉ logLevels then .error (.invalid (.unknownLogLevel c.logLevel))
  else .ok ()

def ofVariables (vars : Variables) : Except ConfigError Config := do
  let c ← read vars
  c.check
  return c

/-- The schedule of deliveries: each wait is twice the one before. -/
def backoff (c : Config) : Backoff := ⟨c.retryBase, c.retryCap, c.retryAttempts, Binary64.ofInt 2⟩

end Config

end PushMetrics.Agent
