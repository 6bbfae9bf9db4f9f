import PushMetrics.Agent.Config
import PushMetrics.Agent.Event
import PushMetrics.Agent.Semaphore

/-!
# An agent at work

Two loops run side by side: one asks the collectors at every poll interval and pushes what they yield, the
other hands batches of the queue to deliveries at every report interval. When shutdown is requested both
stop, and the agent drains: it hands out what is left in the queue and waits for all deliveries, until the
time for draining is over. What is not done by then is aborted.

A step is what one of the parties does between two points at which it may have to wait, so any order of
steps is a possible run. A delivery holds one permit from the moment its batch is taken to its end; the
number of the permit is the number of the delivery.
-/

namespace PushMetrics.Agent

/-- Who pushes to the queue: a round of collection, or somebody else. -/
inductive Source where
  | round (number : Nat)
  | outside (number : Nat)
deriving DecidableEq, Repr

/-- What a wait may be ended by: the request to shut down, the end of the time for draining, or nothing. -/
inductive Token where
  | shutdown
  | abandon
  | never
deriving DecidableEq, Repr

inductive CollectingLoop where
  | idle
  /-- Asking the collectors, since a given time. -/
  | gathering (round : Gathering) (since : Nat)
  | pushing
  | stopped

inductive Dispatching where
  /-- About to look whether something is in the queue. -/
  | looking
  | waiting
  | holding

inductive DeliveringLoop where
  | idle
  | dispatching (phase : Dispatching)
  | stopped

inductive Stage where
  | running (collecting : CollectingLoop) (delivering : DeliveringLoop)
  /-- Handing out what is left, or waiting for deliveries if there is nothing; until a deadline. -/
  | draining (dispatching : Option Dispatching) (deadline : Nat)
  /-- The deadline has passed, and what still runs is being aborted. -/
  | abandoning
  | terminated

def Stage.lifecycle : Stage → Lifecycle
  | running _ _ => .running
  | draining _ _ | abandoning => .draining
  | terminated => .terminated

/-- An agent at work. Times are in milliseconds. -/
structure State where
  config : Config
  collectors : Nat
  pushing : Pushing Source Token Metric
  permits : Semaphore Nat Token
  stage : Stage
  deliveries : Dict Nat Delivery
  next : Nat
  rounds : Nat
  pollDue : Nat
  /-- When the queue is looked at next. -/
  reportDue : Nat
  history : List (Nat × Event)

inductive Step where
  | wait (millis : Nat)
  | shutDown
  /-- Somebody else begins to push. -/
  | pushOutside (number : Nat) (items : List Metric)
  | turnOutside (number : Nat)
  | beginRound
  | collected (index : Nat) (result : Yield)
  | endRound
  /-- The push of a round's metrics goes on. -/
  | turnRound
  /-- The push of a round's metrics has ended. -/
  | leaveRound
  | stopCollecting
  | beginDispatch
  /-- Who hands out batches goes on. -/
  | dispatch
  | join (number : Nat)
  | stopDelivering
  | delivery (number : Nat) (step : DeliveryStep)
  | drain
  /-- Nothing is left to wait for. -/
  | drained
  /-- The deadline has passed. -/
  | overrun
  | terminate

namespace State

/-- An agent about to begin. There is none for a queue or a pool of permits that cannot be made, nor for
an interval that is empty. -/
def start? (config : Config) (collectors : Nat) : Option State := do
  let pushing ← Pushing.fresh? config.queueCapacity none
  if config.rateLimit ≤ Queue.greatestCapacity ∧ !config.pollInterval.isZero ∧ !config.reportInterval.isZero then
    some {
      config, collectors, pushing
      permits := .fresh config.rateLimit
      stage := .running .idle .idle
      deliveries := Dict.empty
      next := 0
      rounds := 0
      pollDue := config.pollInterval.ceilMillis
      reportDue := config.reportInterval.ceilMillis
      history := [(0, .entered .running)] }
  else none

variable (s : State)

def now : Nat := s.pushing.now

def isFired (token : Token) : Bool := token ∈ s.permits.fired

def isAbandoning : Bool :=
  match s.stage with
  | .abandoning => true
  | _ => false

def rule : RetryRule DeliveryError := deliveryRule s.config.backoff

def record (events : List Event) : State := { s with history := s.history ++ events.map (s.now, ·) }

def enter (stage : Stage) : State :=
  let entered := { s with stage }
  if stage.lifecycle = s.stage.lifecycle then entered else entered.record [.entered stage.lifecycle]

def fire (token : Token) : State :=
  { s with
    pushing := { s.pushing with fired := token :: s.pushing.fired }
    permits := { s.permits with fired := token :: s.permits.fired } }

def push (label : PushStep Source Token Metric) : Option State :=
  (s.pushing.step label).map fun pushing => { s with pushing }

def permit (label : SemaphoreStep Nat Token) : Option State :=
  (s.permits.step label).map fun permits => { s with permits }

/-- Deliveries whose end has not been noticed yet. -/
def unjoined : List (Nat × Delivery) := s.deliveries.entries.filter fun d => !d.2.joined

/-! ## Rounds -/

def roundSource : Source := .round s.rounds

/-- The agent in which a round with its failures has been reported, and its metrics, if any, are pushed. -/
def deliverRound (round : Round) (delivering : DeliveringLoop) : Option State :=
  let reported := match round.firstError with
    | some e => s.record [.roundFailed round.failed e]
    | none => s
  if round.metrics.isEmpty then some (reported.enter (.running .idle delivering))
  else (reported.push (.start s.roundSource .shutdown round.metrics)).map (·.enter (.running .pushing delivering))

def leaveRound (delivering : DeliveringLoop) : Option State :=
  match s.pushing.pushers.get? s.roundSource with
  | some ⟨_, _, .ended result⟩ =>
    let told := match result with
      | .error e => s.record [.notEnqueued e]
      | .ok _ => s
    some (told.enter (.running .idle delivering))
  | _ => none

/-! ## Handing out batches -/

/-- The agent after a permit was asked for, and where that leads; nothing stands for the end of handing out. -/
def afterAcquire : State × Option Dispatching :=
  match s.permits.phase? s.next with
  | some .held => (s, some .holding)
  | some .waiting => (s, some .waiting)
  | _ => ({ s with next := s.next + 1 }, none)

/-- The agent after a batch has been taken; without metrics the permit goes back. -/
def take : Option (State × Option Dispatching) := do
  let (batch, _) := s.pushing.queue.pop s.config.batchSize
  let s ← s.push (.pop s.config.batchSize)
  let taken := { s with next := s.next + 1 }
  if batch.isEmpty then (taken.permit (.release s.next)).map (·, none)
  else
    some ({ taken with deliveries := s.deliveries.put s.next (.fresh batch) }.record [.dispatched s.next batch],
      some .looking)

/-- One step of handing out, under the token that ends the wait for a permit. -/
def dispatch (token : Token) : Dispatching → Option (State × Option Dispatching)
  | .looking =>
    if s.pushing.queue.count = 0 then some (s, none)
    else (s.permit (.acquire s.next token)).map afterAcquire
  | .waiting => (s.permit (.turn s.next)).map afterAcquire
  | .holding => s.take

/-! ## Deliveries -/

/-- The agent after a step of a delivery. At its end the permit goes back. -/
def deliver (number : Nat) (label : DeliveryStep) : Option State := do
  let d ← s.deliveries.get? number
  let (d, seen) ← d.step s.rule s.config.sendTimeout s.now (s.isFired .abandon) label
  let s := { s with deliveries := s.deliveries.put number d }.record (seen.map (.delivery number))
  if d.isEnded then s.permit (.release number) else some s

/-- Whether deliveries may take a step. From the moment at which the deadline is found passed, all are being
aborted; one that runs meanwhile may still find its token fired. -/
def allows : DeliveryStep → Bool
  | .abort => s.isAbandoning
  | .cancel => true
  | _ => !s.isAbandoning

/-- The agent after the end of a delivery has been noticed; a panic is told if somebody listens. -/
def joined (number : Nat) (listens : Bool) : Option State := do
  let d ← s.deliveries.get? number
  match d.phase, d.joined with
  | .ended ending, false =>
    let s := { s with deliveries := s.deliveries.put number { d with joined := true } }
    match ending, listens with
    | .panicked reason, true => some (s.record [.crashed reason])
    | _, _ => some s
  | _, _ => none

/-! ## Steps -/

def collectingStep (delivering : DeliveringLoop) : CollectingLoop → Step → Option State
  | .idle, .beginRound =>
    if s.now < s.pollDue then none
    else
      let begun := { s with rounds := s.rounds + 1, pollDue := s.pollDue + s.config.pollInterval.ceilMillis }
      let stage := .running (.gathering (.begin s.collectors) s.now) delivering
      some ((begun.enter stage).record [.roundBegan begun.rounds])
  | .idle, .stopCollecting => if s.isFired .shutdown then some (s.enter (.running .stopped delivering)) else none
  | .gathering g since, .collected index result =>
    (g.record? index result).map fun g => s.enter (.running (.gathering g since) delivering)
  | .gathering g _, .endRound => g.round?.bind (s.deliverRound · delivering)
  | .pushing, .turnRound => s.push (.turn s.roundSource)
  | .pushing, .leaveRound => s.leaveRound delivering
  | _, _ => none

def deliveringStep (collecting : CollectingLoop) : DeliveringLoop → Step → Option State
  | .idle, .beginDispatch =>
    if s.now < s.reportDue then none
    else
      let begun := { s with reportDue := s.reportDue + s.config.reportInterval.ceilMillis }
      some (begun.enter (.running collecting (.dispatching .looking)))
  | .idle, .join number => s.joined number true
  | .idle, .stopDelivering => if s.isFired .shutdown then some (s.enter (.running collecting .stopped)) else none
  | .dispatching d, .dispatch =>
    (s.dispatch .shutdown d).map fun (s, d) => s.enter (.running collecting (d.elim .idle .dispatching))
  | _, _ => none

/-- The agent after a step of its draining. The deadline is noticed only where the agent waits: in line for a
permit, or for deliveries. -/
def drainingStep (deadline : Nat) : Option Dispatching → Step → Option State
  | some d, .dispatch => (s.dispatch .abandon d).map fun (s, d) => s.enter (.draining d deadline)
  | none, .join number => s.joined number true
  | none, .drained => if s.unjoined.isEmpty then some (s.enter .terminated) else none
  | d, .overrun => do
    if s.now < deadline then none
    let left ← match d with
      | some .waiting => (s.permit (.leave s.next)).map fun s => { s with next := s.next + 1 }
      | none => if s.unjoined.isEmpty then none else some s
      | _ => none
    let told := left.record
      [.abandoned s.config.shutdownTimeout left.pushing.queue.count left.unjoined.length]
    some ((told.fire .abandon).enter .abandoning)
  | _, _ => none

def stageStep (label : Step) : Option State :=
  match s.stage with
  | .running .stopped .stopped =>
    match label with
    | .drain => some (s.enter (.draining (some .looking) (s.now + s.config.shutdownTimeout.ceilMillis)))
    | _ => none
  | .running collecting delivering =>
    (s.collectingStep delivering collecting label).or (s.deliveringStep collecting delivering label)
  | .draining d deadline => s.drainingStep deadline d label
  | .abandoning =>
    match label with
    | .join number => s.joined number false
    | .terminate => if s.unjoined.isEmpty then some (s.enter .terminated) else none
    | _ => none
  | .terminated => none

def step (label : Step) : Option State :=
  match label with
  | .wait millis => s.push (.wait millis)
  | .shutDown => some (s.fire .shutdown)
  | .pushOutside number items => s.push (.start (.outside number) .never items)
  | .turnOutside number => s.push (.turn (.outside number))
  | .delivery number label => if s.allows label then s.deliver number label else none
  | label => s.stageStep label

end State

end PushMetrics.Agent
