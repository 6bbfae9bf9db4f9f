import PushMetrics.Agent.State

/-!
# A run of an agent under a clock

Given how long collectors and sends take, one run among all possible ones is singled out: parties take turns
in the order in which they were woken, each goes on until it has to wait, and time passes only when everybody
waits. Every change is a step of the agent, so the run is a possible one.
-/

namespace PushMetrics.Agent

/-- The agent's surroundings: its collectors, and how long a send takes and how it ends, given the sends
before it. -/
structure Surroundings where
  collectors : List Collector
  transport : List (List Payload) → List Payload → Nat × Except DeliveryError Unit

inductive Party where
  | agent
  | delivery (number : Nat)
  | outside (number : Nat)
deriving DecidableEq, Repr

def Source.party : Source → Party
  | round _ => .agent
  | outside number => .outside number

inductive Action where
  | shutDown
  | push (items : List Metric)
  | inspect

/-- An agent with those who are to take a turn and those who wait for a time. -/
structure Schedule where
  surroundings : Surroundings
  state : State
  current : Option Party
  /-- Whether the party that is taking a turn has been woken meanwhile. -/
  again : Bool
  ready : List Party
  /-- Times at which parties are woken, in the order in which they were set. -/
  alarms : List (Nat × Party)
  /-- When and how the latest send of a delivery ends, unless its limit passes before. -/
  sending : Dict Nat (Nat × Except DeliveryError Unit)
  /-- Whether the delivering loop goes before the collecting one at the agent's next turn. -/
  deliveringFirst : Bool
  /-- Whether the agent is woken when a delivery ends. -/
  listening : Bool
  /-- The number of pushes from outside. -/
  pushes : Nat
  /-- What was seen at inspections: the time, the count of the queue and the published state. -/
  inspections : List (Nat × Nat × Lifecycle)

namespace Schedule

/-- More than the turns of one instant, the steps of one turn and the instants of one run. -/
def turnLimit : Nat := Number.twoPow 32

def asleep (surroundings : Surroundings) (state : State) : Schedule where
  surroundings := surroundings
  state := state
  current := none
  again := false
  ready := []
  alarms := []
  sending := Dict.empty
  deliveringFirst := false
  listening := false
  pushes := 0
  inspections := []

variable (s : Schedule)

def now : Nat := s.state.now

/-! ## Steps and those whom they wake -/

def wake (p : Party) : Schedule :=
  if s.current = some p then { s with again := true }
  else if p ∈ s.ready then s
  else { s with ready := s.ready ++ [p] }

def sends : List (List Payload) := s.state.history.filterMap fun
  | (_, .delivery _ (.sent _ payloads)) => some payloads
  | _ => none

/-- Hears of an event: a new delivery takes a turn, and a send takes its time. -/
def hear : Event → Schedule
  | .dispatched number _ => s.wake (.delivery number)
  | .delivery number (.sent _ payloads) =>
    let (delay, result) := s.surroundings.transport s.sends.dropLast payloads
    { s with sending := s.sending.put number (s.now + delay, result) }
  | _ => s

/-- Wakes those to whom a slot or a permit has been granted. -/
def wakeGranted (before : State) : Schedule :=
  let slots := s.state.pushing.queue.slots.granted.filter (· ∉ before.pushing.queue.slots.granted)
  let s := slots.foldl (fun s source => s.wake source.party) s
  if s.state.permits.permits.granted.any (· ∉ before.permits.permits.granted) then s.wake .agent else s

/-- Wakes the agent, if it listens, when a delivery has ended. -/
def wakeListener (before : State) : Schedule :=
  let ended (state : State) := state.deliveries.values.countP Delivery.isEnded
  if s.listening ∧ ended before < ended s.state then { s with listening := false }.wake .agent else s

def act (label : Step) : Schedule :=
  match s.state.step label with
  | none => s
  | some state =>
    let events := (state.history.drop s.state.history.length).map (·.2)
    let after := ({ s with state }.wakeGranted s.state).wakeListener s.state
    events.foldl hear after

/-- Takes the first step that can be taken of those that are tried, again and again, at most `fuel` times. -/
def drive (tried : Schedule → List Step) : Nat → Schedule → Schedule
  | 0, s => s
  | fuel + 1, s => match (tried s).find? fun label => (s.state.step label).isSome with
    | some label => drive tried fuel (s.act label)
    | none => s

/-! ## What a party tries -/

/-- When each collector answers that has not done so yet, and what. -/
def collecting : List (Nat × Step) :=
  match s.state.stage with
  | .running (.gathering _ since) _ =>
    s.surroundings.collectors.mapIdx fun index c =>
      let answer := c.answer s.state.rounds
      (since + answer.delay, .collected index answer.result)
  | _ => []

def collectingSteps : List Step :=
  [.stopCollecting, .beginRound] ++ (s.collecting.filter (·.1 ≤ s.now)).map (·.2)
    ++ [.endRound, .turnRound, .leaveRound]

/-- The ends of deliveries that may be noticed. -/
def joins : List Step := s.state.unjoined.map fun d => .join d.1

def deliveringSteps : List Step := [.stopDelivering, .beginDispatch, .dispatch] ++ s.joins

def drainingSteps : List Step :=
  [.drain, .dispatch] ++ s.joins ++ [.drained, .overrun] ++ s.state.unjoined.map (fun d => .delivery d.1 .abort)
    ++ [.terminate]

def deliverySteps (number : Nat) : List Step :=
  let answer : List DeliveryStep := match s.sending.get? number with
    | some (due, result) => if due ≤ s.now then [.answer result] else []
    | none => []
  let steps : List DeliveryStep := .begin :: answer ++ [.expire, .wake]
  steps.map (.delivery number)

/-! ## Turns -/

/-- The agent's turn: both loops, which go first in turn, and the draining after them. -/
def turnAgent : Schedule :=
  let loops := if s.deliveringFirst then [deliveringSteps, collectingSteps] else [collectingSteps, deliveringSteps]
  let s := (loops ++ [drainingSteps]).foldl (fun s tried => drive tried turnLimit s) s
  { s with
    deliveringFirst := !s.deliveringFirst
    listening := match s.state.stage with
      | .running _ .idle | .draining none _ => !s.state.unjoined.isEmpty
      | _ => s.listening }

def waits : Party → List Nat
  | .agent => match s.state.stage with
    | .running collecting delivering =>
      (match collecting with
        | .idle => [s.state.pollDue]
        | .gathering _ _ => (s.collecting.map (·.1)).filter (s.now < ·)
        | _ => [])
      ++ (match delivering with
        | .idle => [s.state.reportDue]
        | _ => [])
    | .draining _ deadline => [deadline]
    | _ => []
  | .delivery number => match s.state.deliveries.get? number with
    | some ⟨_, .working (.attempting _) since, _⟩ =>
      ((s.sending.get? number).map (·.1)).toList ++ [since + s.state.config.sendTimeout.ceilMillis]
    | some ⟨_, .working (.waiting _ wake) _, _⟩ => [wake]
    | _ => []
  | .outside _ => []

/-- Sets the alarms of a party; those already set keep their places. -/
def setAlarms (p : Party) : Schedule :=
  let waits := s.waits p
  let kept := s.alarms.filter fun a => a.2 ≠ p || waits.contains a.1
  let added := (waits.eraseDups.map (·, p)).filter fun a => !kept.contains a
  { s with alarms := kept ++ added }

/-- A turn of a party, which goes on until it has to wait. -/
def turn (p : Party) : Schedule :=
  let s := { s with current := some p, again := false }
  let s := match p with
    | .agent => s.turnAgent
    | .delivery number => drive (deliverySteps · number) turnLimit s
    | .outside number => drive (fun _ => [.turnOutside number]) turnLimit s
  let s := { s with current := none }.setAlarms p
  if s.again then s.wake p else s

/-- Lets parties take turns until all wait, at most `fuel` turns. -/
def settleWithin : Nat → Schedule → Schedule
  | 0, s => s
  | fuel + 1, s => match s.ready with
    | [] => s
    | p :: rest => settleWithin fuel ({ s with ready := rest }.turn p)

def settle : Schedule := settleWithin turnLimit s

/-! ## Time -/

/-- Lets time pass until `target` and wakes those who have waited for it. -/
def advance (target : Nat) : Schedule :=
  let s := s.act (.wait (target - s.now))
  let (due, later) := s.alarms.partition (·.1 ≤ target)
  due.foldl (fun s a => s.wake a.2) { s with alarms := later }

def apply : Action → Schedule
  | .shutDown => (s.act .shutDown).wake .agent
  | .push items =>
    let number := s.pushes + 1
    ({ s with pushes := number }.act (.pushOutside number items)).wake (.outside number)
  | .inspect =>
    { s with inspections := s.inspections ++ [(s.now, s.state.pushing.queue.count, s.state.stage.lifecycle)] }

def hasEnded : Bool := s.state.stage.lifecycle = .terminated

/-- Whether nothing remains to be seen: the agent has ended, or nobody ends it. -/
def isOver : Bool := s.hasEnded || !s.state.isFired .shutdown

/-- Runs the agent as `run` says; at most `fuel` times something is done or time passes. -/
def runWithin : Nat → List (Nat × Action) → Schedule → Schedule
  | 0, _, s => s
  | fuel + 1, actions, s =>
    let s := s.settle
    let alarm := (s.alarms.map (·.1)).min?
    match actions with
    | [] => match alarm with
      | some due => if s.isOver then s else runWithin fuel [] (s.advance due)
      | none => s
    | (due, action) :: rest =>
      if due ≤ s.now then runWithin fuel rest (s.apply action)
      else runWithin fuel actions (s.advance (min due (alarm.getD due)))

/-- Runs the agent until it has ended, with what is done to it at given times, each after all else that is
due by then. -/
def run (actions : List (Nat × Action)) : Schedule := runWithin turnLimit actions s

end Schedule

end PushMetrics.Agent
