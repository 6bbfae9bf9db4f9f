import PushMetrics.Agent.Collection
import PushMetrics.Agent.Delivery
import PushMetrics.Agent.Queue
import PushMetrics.Store.World

/-!
# What an agent does for others to see

The states it publishes, its rounds, its sends, and what it says in the log.
-/

namespace PushMetrics.Agent

open Number

inductive Lifecycle where
  | running
  | draining
  | terminated
deriving DecidableEq, Repr

def Lifecycle.text : Lifecycle → String
  | running => "Running"
  | draining => "Draining"
  | terminated => "Terminated"

/-- Something that an agent does. Rounds are counted from one, deliveries have numbers of their own. -/
inductive Event where
  | entered (state : Lifecycle)
  | roundBegan (number : Nat)
  /-- Collectors have failed in a round. -/
  | roundFailed (failed : Nat) (first : CollectError)
  /-- Not all metrics of a round were accepted by the queue. -/
  | notEnqueued (error : QueueError)
  | dispatched (delivery : Nat) (batch : List Metric)
  | delivery (number : Nat) (event : DeliveryEvent)
  /-- The task of a delivery is found to have panicked. -/
  | crashed (reason : String)
  /-- The time for draining is over. -/
  | abandoned (limit : Span) (queued deliveries : Nat)

namespace Event

def deliveryLogged? : DeliveryEvent → Option (Severity × String)
  | .gaveUp attempt e => some (.warning, RetryRule.gaveUpText attempt e.message)
  | .dropped size e => some (.error, "Dropping batch of " ++ naturalText size ++ " metrics: " ++ e.message)
  | .sent _ _ | .answered _ _ => none

def logged? : Event → Option (Severity × String)
  | roundFailed failed first =>
    some (.warning, naturalText failed ++ " collectors failed this round, first error: " ++ first.message)
  | notEnqueued e => some (.warning, "Failed to enqueue collected metrics: " ++ e.message)
  | delivery _ e => deliveryLogged? e
  | crashed reason => some (.error, "Delivery task failed: " ++ reason)
  | abandoned limit queued deliveries =>
    some (.warning, "Shutdown timeout of " ++ limit.text ++ " elapsed, abandoning " ++ naturalText queued
      ++ " queued metrics and " ++ naturalText deliveries ++ " deliveries")
  | entered _ | roundBegan _ | dispatched _ _ => none

end Event

end PushMetrics.Agent
