import PushMetrics.Agent.DeliveryError
import PushMetrics.Agent.Retry
import PushMetrics.Metric.Payload

/-!
# Deliveries

A delivery has one batch, which it sends until a send succeeds, an error is not worth another send, or the
attempts are used up. Every send carries the whole batch and has a limit of time. A delivery ends with a
result, or because its task panics or is aborted.
-/

namespace PushMetrics.Agent

inductive Ending where
  | finished (result : Except DeliveryError Unit)
  | panicked (reason : String)
  | aborted

inductive DeliveryPhase where
  | fresh
  /-- Sending, or waiting to send; with the time at which this began. -/
  | working (stage : RetryPhase DeliveryError Unit) (since : Nat)
  | ended (ending : Ending)

structure Delivery where
  batch : List Metric
  phase : DeliveryPhase
  /-- Whether its end has been noticed by the agent. -/
  joined : Bool

/-- What a delivery does for others to see. Sends are counted from zero. -/
inductive DeliveryEvent where
  | sent (attempt : Nat) (payloads : List Payload)
  | answered (attempt : Nat) (result : Except DeliveryError Unit)
  /-- The attempts are used up. -/
  | gaveUp (attempt : Nat) (error : DeliveryError)
  /-- The batch is lost. -/
  | dropped (size : Nat) (error : DeliveryError)

inductive DeliveryStep where
  | begin
  /-- The wait before a send is over. -/
  | wake
  | answer (result : Except DeliveryError Unit)
  /-- The limit of a send has passed. -/
  | expire
  /-- The token is found fired during a wait. -/
  | cancel
  | panic (reason : String)
  | abort

/-- The rule of deliveries: what may pass is tried again. -/
def deliveryRule (backoff : Backoff) : RetryRule DeliveryError := ⟨backoff, DeliveryError.isRetryable, .cancelled⟩

namespace Delivery

def fresh (batch : List Metric) : Delivery := ⟨batch, .fresh, false⟩

def isEnded (d : Delivery) : Bool :=
  match d.phase with
  | .ended _ => true
  | _ => false

def payloads (d : Delivery) : List Payload := d.batch.map Payload.ofMetric

/-- The delivery in a stage of its sends, and what can be seen of that. -/
def enter (d : Delivery) (now : Nat) : RetryPhase DeliveryError Unit → Delivery × List DeliveryEvent
  | .ended result =>
    ({ d with phase := .ended (.finished result) }, match result with
      | .ok _ => []
      | .error e => [.dropped d.batch.length e])
  | .attempting attempt => ({ d with phase := .working (.attempting attempt) now }, [.sent attempt d.payloads])
  | stage => ({ d with phase := .working stage now }, [])

def advance (d : Delivery) (rule : RetryRule DeliveryError) (now : Nat) (stage : RetryPhase DeliveryError Unit)
    (e : RetryEvent DeliveryError Unit) : Option (Delivery × List DeliveryEvent) :=
  (stage.step rule now e).map (d.enter now)

/-- What is seen when a send fails for the last time that the rule allows. -/
def lastFailure (rule : RetryRule DeliveryError) (attempt : Nat) : Except DeliveryError Unit → List DeliveryEvent
  | .ok _ => []
  | .error e => if rule.gaveUp attempt e then [.gaveUp attempt e] else []

/-- The delivery after a step, if the step can be taken, and what can be seen of it. -/
def step (d : Delivery) (rule : RetryRule DeliveryError) (limit : Span) (now : Nat) (fired : Bool) :
    DeliveryStep → Option (Delivery × List DeliveryEvent)
  | .begin =>
    match d.phase with
    | .fresh => some (d.enter now (rule.enter 0 now))
    | _ => none
  | .wake =>
    match d.phase with
    | .working stage _ => d.advance rule now stage .wake
    | _ => none
  | .answer result =>
    match d.phase with
    | .working (.attempting attempt) _ =>
      (d.advance rule now (.attempting attempt) (.outcome result)).map fun (d, seen) =>
        (d, .answered attempt result :: lastFailure rule attempt result ++ seen)
    | _ => none
  | .expire =>
    match d.phase with
    | .working (.attempting attempt) since =>
      if now < since + limit.ceilMillis then none
      else
        let result := .error (.timeout limit)
        (d.advance rule now (.attempting attempt) (.outcome result)).map fun (d, seen) =>
          (d, lastFailure rule attempt result ++ seen)
    | _ => none
  | .cancel =>
    match d.phase with
    | .working stage _ => if fired then d.advance rule now stage .cancel else none
    | _ => none
  | .panic reason =>
    match d.phase with
    | .working _ _ => some ({ d with phase := .ended (.panicked reason) }, [])
    | _ => none
  | .abort => if d.isEnded then none else some ({ d with phase := .ended .aborted }, [])

end Delivery

end PushMetrics.Agent
