import PushMetrics.Time.Span

/-!
# Delivery errors

Why a batch did not reach the collector, and which of these reasons may pass with time.
-/

namespace PushMetrics.Agent

inductive DeliveryError where
  | payload (reason : String)
  | timeout (limit : Span)
  | connection (reason : String)
  | status (code : Nat) (body : String)
  | cancelled
deriving DecidableEq, Repr

namespace DeliveryError

def message : DeliveryError → String
  | payload reason => "failed to encode payload: " ++ reason
  | timeout limit => "request timed out after " ++ limit.text
  | connection reason => "connection failed: " ++ reason
  | status code body => "collector responded " ++ Number.naturalText code ++ ": " ++ body
  | cancelled => "operation cancelled"

/-- Whether another attempt may succeed: not if the request itself was refused. -/
def isRetryable : DeliveryError → Bool
  | timeout _ | connection _ => true
  | status code _ => !(400 ≤ code && code < 500)
  | payload _ | cancelled => false

end DeliveryError

end PushMetrics.Agent
