import PushMetrics.Manager.Traffic
import PushMetrics.Store.Faults
import PushMetrics.Store.Layered

/-!
# Requests on a failing store, and on a snapshot layer

Requests work side by side on a store whose statements may fail, and which others may change or close between any two
of their steps; or they work on a snapshot layer. There a write takes its time: it is an operation of the layer that
has the number of its request, and the request goes on when that operation has been answered. A request that is dropped
drops its operation with it; what this was about to do on the disk it has done, or never does.
-/

namespace PushMetrics.Manager

open Sql (Faults)

inductive DisturbedStep where
  /-- A step of the requests, and how the statements that it sends fail. -/
  | work (label : TrafficStep) (faults : Faults)
  /-- Others leave the store in this state. -/
  | elsewhere (store : Storage × World)

def Traffic.disturbed (t : Traffic (Storage × World)) : DisturbedStep → Option (Traffic (Storage × World))
  | .work label faults => t.step (Storage.tryBackend faults) label
  | .elsewhere store => some { t with store }

/-- What a request writes with its next step. -/
def Work.change? (w : Work) : Option Change :=
  match w.stage with
  | .resolving results pending [] =>
    if w.request.metrics.isEmpty then none else some (w.request.change results pending)
  | _ => none

/-- The layer as a backend for a request whose write has got this answer. -/
def layerBackend (answer : Except StorageError Unit) : Backend Layered where
  get name s := (if s.isOpen then s.memory.get name else .error .closed, s)
  getAll s := (if s.isOpen then s.memory.getAll else .error .closed, s)
  apply _ s := (answer, s)
  ping s := (if s.isOpen then s.memory.whenOpen () else .error .closed, s)

inductive LayeredTrafficStep where
  | work (label : TrafficStep)
  | layer (label : LayeredStep)
deriving Repr

/-- Whether nobody outside has a part in a step: no request arrives, and none is dropped. -/
def LayeredTrafficStep.isOwn : LayeredTrafficStep → Bool
  | .work (.arrive _ _) | .work (.drop _) => false
  | .work _ => true
  | .layer label => label.isOwn

namespace Traffic

variable (t : Traffic Layered)

def onLayer (label : LayeredStep) : Option (Traffic Layered) := (t.store.step label).map fun store => { t with store }

/-- The next step of a request. One that writes begins its operation, waits for the answer, and goes on with that. -/
def advanceOnLayer (id : Nat) (w : Work) : Option (Traffic Layered) :=
  match w.change?, t.store.operations.get? id with
  | none, _ => t.advance (layerBackend (.ok ())) id w
  | some change, none => t.onLayer (.begin id (.write change))
  | some _, some (_, .ended answer _) => t.advance (layerBackend answer) id w
  | some _, some _ => none

def layered : LayeredTrafficStep → Option (Traffic Layered)
  | .work (.advance id) => (t.works.get? id).bind (t.advanceOnLayer id)
  | .work (.drop id) => (t.works.get? id).bind (((t.onLayer (.drop id)).getD t).drop id)
  | .work label => t.step (layerBackend (.ok ())) label
  | .layer label => if label.isOwn then t.onLayer label else none

end Traffic

end PushMetrics.Manager
