import PushMetrics.Http.Update
import PushMetrics.Manager.Layering

/-!
# A collector that serves and stops

Connections bring requests one after another; those that save are at work side by side on a snapshot layer. When the
collector is asked to stop it accepts no more connections, lets each one answer the request in progress, and returns
when all have gone. If accepting fails it returns at once, and the connections are cut off. The store is closed after
that.
-/

namespace PushMetrics.Collector

open Manager

inductive ConnectionStage where
  /-- No request is in progress. -/
  | idle
  /-- The update of this number is. -/
  | updating (number : Nat)
  /-- A request that saves nothing is. -/
  | reading
  /-- Cut off from the update of this number, which gives back what it holds. -/
  | leaving (number : Nat)
  | gone
deriving DecidableEq, Repr

structure Connection where
  stage : ConnectionStage
  /-- Whether it has been told to end after the request in progress. -/
  told : Bool
deriving DecidableEq, Repr

namespace Connection

def fresh : Connection := ⟨.idle, false⟩

/-- The connection after an answer. -/
def rest (c : Connection) : Connection := { c with stage := if c.told then .gone else .idle }

end Connection

inductive ServingStage where
  | accepting
  /-- Asked to stop, and waiting for the connections. -/
  | finishing
  | returned (isOk : Bool)
  /-- Closing the store with the operation of this number. -/
  | closing (operation : Nat)
  | stopped (result : Except StorageError Unit)

/-- Whether requests are taken. -/
def ServingStage.isServing : ServingStage → Bool
  | .accepting | .finishing => true
  | _ => false

structure Serving where
  stage : ServingStage
  /-- Whether it has been asked to stop. -/
  asked : Bool
  connections : Dict Nat Connection
  /-- The requests so far that save. Each is known by its number among them. -/
  updates : List Http.Request
  traffic : Traffic Layered
  /-- The answers that have been sent to them. -/
  answers : List (Nat × Http.Response)

inductive ServingStep where
  | connect (id : Nat)
  | receive (id : Nat) (request : Http.Request)
  | answer (id : Nat)
  /-- The other side goes away, or the connection is cut off. -/
  | cut (id : Nat)
  | leave (id : Nat)
  /-- A connection notices that the collector has been asked to stop. -/
  | tell (id : Nat)
  | stop
  | stopAccepting
  | acceptFails
  | finish
  | close
  | closed
  | traffic (label : LayeredTrafficStep)

namespace Serving

def fresh (layer : Layered) (lockTtl : Nat) : Serving :=
  ⟨.accepting, false, Dict.empty, [], .fresh layer lockTtl, []⟩

variable (s : Serving)

def setConnection (id : Nat) (c : Connection) : Serving := { s with connections := s.connections.put id c }

/-- A request arrives on a connection. One that is told to end may still take a request that is on its way. -/
def receive (id : Nat) (c : Connection) (r : Http.Request) : Option Serving :=
  match r.update? with
  | none => some (s.setConnection id { c with stage := .reading })
  | some request =>
    (s.traffic.layered (.work (.arrive s.updates.length request))).map fun traffic =>
      { s with traffic, updates := s.updates ++ [r] }.setConnection id { c with stage := .updating s.updates.length }

def answer (id : Nat) (c : Connection) : Option Serving :=
  match c.stage with
  | .updating n =>
    match s.traffic.works.get? n with
    | some ⟨request, .ended (some result)⟩ =>
      some ({ s with answers := s.answers ++ [(n, Http.respond request result)] }.setConnection id c.rest)
    | _ => none
  | .reading => some (s.setConnection id c.rest)
  | _ => none

def cut (id : Nat) (c : Connection) : Option Serving :=
  match c.stage with
  | .updating n =>
    some ({ s with traffic := (s.traffic.layered (.work (.drop n))).getD s.traffic }.setConnection id
      { c with stage := .leaving n })
  | .idle | .reading => some (s.setConnection id { c with stage := .gone })
  | .leaving _ | .gone => none

def leave (id : Nat) (c : Connection) : Option Serving :=
  match c.stage with
  | .leaving n =>
    match s.traffic.works.get? n with
    | some ⟨_, .ended _⟩ => some (s.setConnection id { c with stage := .gone })
    | _ => none
  | _ => none

def connectionStep (id : Nat) (c : Connection) : ServingStep → Option Serving
  | .receive _ r => if s.stage.isServing ∧ c.stage = .idle then s.receive id c r else none
  | .answer _ => s.answer id c
  | .cut _ => s.cut id c
  | .leave _ => s.leave id c
  | .tell _ => if s.asked then some (s.setConnection id { c with told := true }) else none
  | _ => none

def step (label : ServingStep) : Option Serving :=
  match label with
  | .connect id =>
    match s.stage with
    | .accepting => if (s.connections.get? id).isSome then none else some (s.setConnection id .fresh)
    | _ => none
  | .receive id _ | .answer id | .cut id | .leave id | .tell id =>
    (s.connections.get? id).bind fun c => s.connectionStep id c label
  | .stop => some { s with asked := true }
  | .stopAccepting =>
    match s.stage with
    | .accepting => if s.asked then some { s with stage := .finishing } else none
    | _ => none
  | .acceptFails =>
    match s.stage with
    | .accepting => some { s with stage := .returned false }
    | _ => none
  | .finish =>
    match s.stage with
    | .finishing =>
      if s.connections.values.all (·.stage = .gone) then some { s with stage := .returned true } else none
    | _ => none
  | .close =>
    match s.stage with
    | .returned _ =>
      (s.traffic.onLayer (.begin s.updates.length .close)).map fun traffic =>
        { s with traffic, stage := .closing s.updates.length }
    | _ => none
  | .closed =>
    match s.stage with
    | .closing n =>
      match s.traffic.store.operations.get? n with
      | some (_, .ended result _) => some { s with stage := .stopped result }
      | _ => none
    | _ => none
  | .traffic label =>
    if label.isOwn then (s.traffic.layered label).map fun traffic => { s with traffic } else none

end Serving

end PushMetrics.Collector
