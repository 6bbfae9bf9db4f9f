import PushMetrics.Agent.Backoff

/-!
# Repeated operations

An operation is tried until it succeeds, an error is not worth another attempt, or the attempts are used
up. Between two attempts it waits as the backoff says; a token that is fired during a wait ends the whole.
-/

namespace PushMetrics.Agent

variable {ε α : Type}

/-- Where a repeated operation stands. Attempts are counted from zero, times are in milliseconds. -/
inductive RetryPhase (ε α : Type) where
  /-- Waiting to begin an attempt at a given time. -/
  | waiting (attempt wake : Nat)
  | attempting (attempt : Nat)
  | ended (result : Except ε α)
deriving Repr

structure RetryRule (ε : Type) where
  backoff : Backoff
  /-- Whether an error is worth another attempt. -/
  again : ε → Bool
  /-- The error of an operation that was cancelled. -/
  cancelled : ε

namespace RetryRule

def attempts (r : RetryRule ε) : Nat := max 1 r.backoff.attempts

/-- The phase before an attempt, which begins at once if there is nothing to wait for. -/
def enter (r : RetryRule ε) (attempt now : Nat) : RetryPhase ε α :=
  let delay := r.backoff.delayBefore attempt
  if delay.isZero then .attempting attempt else .waiting attempt (now + delay.ceilMillis)

def afterFailure (r : RetryRule ε) (attempt now : Nat) (e : ε) : RetryPhase ε α :=
  if r.again e ∧ attempt + 1 < r.attempts then r.enter (attempt + 1) now else .ended (.error e)

/-- Whether a failed attempt was the last one that the rule allows. -/
def gaveUp (r : RetryRule ε) (attempt : Nat) (e : ε) : Bool := r.again e && r.attempts ≤ attempt + 1

/-- What is logged when the attempts are used up. -/
def gaveUpText (attempt : Nat) (message : String) : String :=
  "Giving up after " ++ Number.naturalText (attempt + 1) ++ " attempts: " ++ message

end RetryRule

inductive RetryEvent (ε α : Type) where
  | wake
  | outcome (result : Except ε α)
  /-- The token is found fired during a wait. -/
  | cancel

/-- The phase after an event at a given time, if the event is possible. -/
def RetryPhase.step (r : RetryRule ε) (now : Nat) : RetryPhase ε α → RetryEvent ε α → Option (RetryPhase ε α)
  | .waiting attempt wake, .wake => if wake ≤ now then some (.attempting attempt) else none
  | .waiting _ _, .cancel => some (.ended (.error r.cancelled))
  | .attempting _, .outcome (.ok a) => some (.ended (.ok a))
  | .attempting attempt, .outcome (.error e) => some (r.afterFailure attempt now e)
  | _, _ => none

/-! ## Runs -/

/-- The first whole millisecond at or after a time in nanoseconds, in nanoseconds too: when a timer fires. -/
def timerTick (nanos : Nat) : Nat := Span.ceilMillis ⟨nanos⟩ * Number.tenPow 6

/-- What a run meets with. Times are in nanoseconds on the clock of the timer. -/
structure RetrySetting (ε α : Type) where
  start : Nat
  duration : Nat → Nat
  outcome : Nat → Except ε α
  /-- When the token is fired, if it is. -/
  firedAt : Option Nat
  /-- Whether the wait for an attempt just ends if the token is fired in the very instant in which it ends. -/
  wakesFirst : Nat → Bool

/-- Where a run stands. -/
inductive RetryStage (ε α : Type) where
  | before (attempt now : Nat)
  | running (attempt now : Nat)
  | ended (result : Except ε α) (now : Nat) (gaveUp : Bool)

structure RetryRun (ε α : Type) where
  result : Except ε α
  started : List Nat
  ended : Nat
  /-- Whether the attempts were used up. -/
  gaveUp : Bool

namespace RetryRule

/-- The wait for an attempt: none, or one that the timer or the token ends. -/
def await (r : RetryRule ε) (s : RetrySetting ε α) (attempt now : Nat) : RetryStage ε α :=
  let delay := r.backoff.delayBefore attempt
  if delay.isZero then .running attempt now
  else
    let wake := timerTick (now + delay.nanos)
    match s.firedAt with
    | none => .running attempt wake
    | some c =>
      if c < wake ∨ (c = wake ∧ s.wakesFirst attempt = false) then .ended (.error r.cancelled) (max c now) false
      else .running attempt wake

def perform (r : RetryRule ε) (s : RetrySetting ε α) (attempt now : Nat) : RetryStage ε α :=
  let finish := now + s.duration attempt
  match s.outcome attempt with
  | .ok a => .ended (.ok a) finish false
  | .error e =>
    if r.again e = false then .ended (.error e) finish false
    else if r.attempts ≤ attempt + 1 then .ended (.error e) finish true
    else .before (attempt + 1) finish

/-- Bounds how many stages are still to come. -/
def stagesLeft (r : RetryRule ε) : RetryStage ε α → Nat
  | .before attempt _ => 2 * (r.attempts - attempt) + 2
  | .running attempt _ => 2 * (r.attempts - attempt) + 1
  | .ended _ _ _ => 0

theorem stagesLeft_await (r : RetryRule ε) (s : RetrySetting ε α) (attempt now : Nat) :
    r.stagesLeft (r.await s attempt now) < 2 * (r.attempts - attempt) + 2 := by
  simp only [await]
  split
  · simp [stagesLeft]
  · split
    · simp [stagesLeft]
    · split <;> simp [stagesLeft]

theorem stagesLeft_perform (r : RetryRule ε) (s : RetrySetting ε α) (attempt now : Nat) :
    r.stagesLeft (r.perform s attempt now) < 2 * (r.attempts - attempt) + 1 := by
  simp only [perform]
  split
  · simp [stagesLeft]
  · split
    · simp [stagesLeft]
    · split
      · simp [stagesLeft]
      · simp only [stagesLeft]
        omega

/-- Runs from a stage on to the end. -/
def runFrom (r : RetryRule ε) (s : RetrySetting ε α) : RetryStage ε α → RetryRun ε α
  | .before attempt now => runFrom r s (r.await s attempt now)
  | .running attempt now =>
    let rest := runFrom r s (r.perform s attempt now)
    { rest with started := now :: rest.started }
  | .ended result now gaveUp => ⟨result, [], now, gaveUp⟩
termination_by stage => r.stagesLeft stage
decreasing_by
  · exact r.stagesLeft_await s attempt now
  · exact r.stagesLeft_perform s attempt now

def runIn (r : RetryRule ε) (s : RetrySetting ε α) : RetryRun ε α := r.runFrom s (.before 0 s.start)

/-- A run that begins at time zero, with all times in milliseconds. -/
def run (r : RetryRule ε) (script : Nat → Nat × Except ε α) (cancelAt : Option Nat) : RetryRun ε α :=
  let nanos (millis : Nat) : Nat := (Span.ofMillis millis).nanos
  let run := r.runIn ⟨0, fun k => nanos (script k).1, fun k => (script k).2, cancelAt.map nanos, fun _ => true⟩
  { run with started := run.started.map (· / Number.tenPow 6), ended := run.ended / Number.tenPow 6 }

end RetryRule

end PushMetrics.Agent
