import PushMetrics.Agent.DeliveryError
import PushMetrics.Agent.Endpoint
import PushMetrics.Text.Utf8

/-!
# The answer to a batch

What the collector's answer to a batch, or the lack of one, means for it.
-/

namespace PushMetrics.Agent

open Text

inductive Reply where
  | answered (status : Nat) (body : List UInt8)
  | unreachable (reason : String)
  | late
deriving DecidableEq, Repr

/-- What a reply means for a batch: a status in the two hundreds accepts it. -/
def Reply.outcome (limit : Span) : Reply → Except DeliveryError Unit
  | answered status body =>
    if 200 ≤ status ∧ status < 300 then .ok () else .error (.status status (ofDamagedUtf8 body))
  | unreachable reason => .error (.connection reason)
  | late => .error (.timeout limit)

end PushMetrics.Agent
