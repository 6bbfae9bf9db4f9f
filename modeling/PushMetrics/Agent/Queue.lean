import PushMetrics.Permits
import PushMetrics.Time.Span

/-!
# The bounded queue

Items in the order of their acceptance, at most as many as the capacity. An item needs a free slot; who
finds none waits in line, until a slot is granted, its deadline passes or its token is fired. Taking items
never waits.
-/

namespace PushMetrics.Agent

inductive QueueError where
  | closed
  | timeout (limit : Span)
  | cancelled
deriving DecidableEq, Repr

def QueueError.message : QueueError → String
  | closed => "queue closed"
  | timeout limit => "queue still full after " ++ limit.text
  | cancelled => "operation cancelled"

/-- A queue of items; those who wait for a slot have names in `κ`. -/
structure Queue (κ α : Type) where
  capacity : Nat
  slots : Permits κ
  buffer : List α

namespace Queue

variable {κ α : Type} [DecidableEq κ]

/-- The greatest number of permits of one pool. -/
def greatestCapacity : Nat := Number.twoPow 61 - 1

/-- An empty queue; there is none without a slot or with too many. -/
def fresh? (capacity : Nat) : Option (Queue κ α) :=
  if 0 < capacity ∧ capacity ≤ greatestCapacity then some ⟨capacity, .full capacity, []⟩ else none

/-- The number of slots in use or granted. -/
def count (q : Queue κ α) : Nat := q.capacity - q.slots.free

/-- Puts an item into a free slot, or joins the line; the flag tells which. -/
def enter (q : Queue κ α) (k : κ) (a : α) : Bool × Queue κ α :=
  let (now, slots) := q.slots.request k
  (now, { q with slots, buffer := if now then q.buffer ++ [a] else q.buffer })

/-- Puts an item into the slot that has been granted to `k`. -/
def settle (q : Queue κ α) (k : κ) (a : α) : Queue κ α :=
  { q with slots := q.slots.collect k, buffer := q.buffer ++ [a] }

def leave (q : Queue κ α) (k : κ) : Queue κ α := { q with slots := q.slots.withdraw k }

/-- Takes the item in front, if there is one; its slot goes to whoever waits first. -/
def take? (q : Queue κ α) : Option (α × Queue κ α) :=
  match q.buffer with
  | [] => none
  | a :: rest => some (a, { q with slots := q.slots.giveBack, buffer := rest })

/-- Takes items one after another, until it has `max` of them or finds none. -/
def pop (q : Queue κ α) : Nat → List α × Queue κ α
  | 0 => ([], q)
  | max + 1 =>
    match q.take? with
    | none => ([], q)
    | some (a, q) =>
      let (items, q) := q.pop max
      (a :: items, q)

end Queue

/-! ## Pushing tasks -/

inductive PushPhase where
  | ready
  | waiting (deadline : Option Nat)
  | ended (result : Except QueueError Unit)

/-- A task that pushes items one after another. Tokens have names in `τ`. -/
structure Pusher (τ α : Type) where
  token : τ
  items : List α
  phase : PushPhase

/-- A queue, the tasks that push to it, the tokens that have been fired, and what has gone in and out. Tasks
have names in `κ`, times are in milliseconds. -/
structure Pushing (κ τ α : Type) where
  queue : Queue κ α
  /-- How long an item may wait; none is for ever. -/
  limit : Option Span
  pushers : Dict κ (Pusher τ α)
  fired : List τ
  now : Nat
  /-- Every item accepted so far, with the task that pushed it. -/
  accepted : List (κ × α)
  taken : List α

/-- A step of a pushing task or of the world around. -/
inductive PushStep (κ τ α : Type) where
  | start (pusher : κ) (token : τ) (items : List α)
  /-- A task goes on: with its next item, with a granted slot, after its deadline or with a fired token. -/
  | turn (pusher : κ)
  /-- One item is taken. -/
  | take
  /-- Up to so many items are taken, and nobody comes between. -/
  | pop (max : Nat)
  | fire (token : τ)
  | wait (millis : Nat)

namespace Pushing

variable {κ τ α : Type} [DecidableEq κ] [DecidableEq τ]

def fresh? (capacity : Nat) (limit : Option Span) : Option (Pushing κ τ α) :=
  (Queue.fresh? capacity).map (⟨·, limit, Dict.empty, [], 0, [], []⟩)

def setPusher (s : Pushing κ τ α) (k : κ) (p : Pusher τ α) : Pushing κ τ α :=
  { s with pushers := s.pushers.put k p }

def accept (s : Pushing κ τ α) (k : κ) (a : α) (queue : Queue κ α) : Pushing κ τ α :=
  { s with queue, accepted := s.accepted ++ [(k, a)] }

def giveUp (s : Pushing κ τ α) (k : κ) (p : Pusher τ α) (e : QueueError) : Pushing κ τ α :=
  { s with queue := s.queue.leave k }.setPusher k { p with phase := .ended (.error e) }

def deadline? (s : Pushing κ τ α) : Option Nat := s.limit.map fun limit => s.now + limit.ceilMillis

def turn (s : Pushing κ τ α) (k : κ) (p : Pusher τ α) : Option (Pushing κ τ α) :=
  match p.phase, p.items with
  | .ready, [] => some (s.setPusher k { p with phase := .ended (.ok ()) })
  | .ready, a :: rest =>
    let (entered, queue) := s.queue.enter k a
    some (if entered then (s.accept k a queue).setPusher k { p with items := rest }
      else { s with queue }.setPusher k { p with phase := .waiting s.deadline? })
  | .waiting deadline, a :: rest =>
    if s.queue.slots.isGranted k then
      some ((s.accept k a (s.queue.settle k a)).setPusher k { p with items := rest, phase := .ready })
    else if deadline.any (· ≤ s.now) then some (s.giveUp k p (.timeout (s.limit.getD ⟨0⟩)))
    else if p.token ∈ s.fired then some (s.giveUp k p .cancelled)
    else none
  | _, _ => none

def step (s : Pushing κ τ α) : PushStep κ τ α → Option (Pushing κ τ α)
  | .start k token items =>
    if (s.pushers.get? k).isSome then none else some (s.setPusher k ⟨token, items, .ready⟩)
  | .turn k => (s.pushers.get? k).bind (s.turn k)
  | .take => s.queue.take?.map fun (a, queue) => { s with queue, taken := s.taken ++ [a] }
  | .pop max =>
    let (items, queue) := s.queue.pop max
    some { s with queue, taken := s.taken ++ items }
  | .fire token => some { s with fired := token :: s.fired }
  | .wait millis => some { s with now := s.now + millis }

/-! ## Letting tasks run -/

/-- Runs one task until it waits or has ended, at most `fuel` turns. -/
def runTask (k : κ) : Nat → Pushing κ τ α → Pushing κ τ α
  | 0, s => s
  | fuel + 1, s => match s.step (.turn k) with
    | some s => runTask k fuel s
    | none => s

/-- The turns that a task can need: two for each item, and one to end. -/
def turnsOf (s : Pushing κ τ α) (k : κ) : Nat := 2 * ((s.pushers.get? k).map (·.items.length)).getD 0 + 2

/-- The tasks in the order in which they run: those with a granted slot in the order of granting, then the
others in the order of arrival. -/
def runOrder (s : Pushing κ τ α) : List κ :=
  s.queue.slots.granted ++ s.pushers.keys.filter (· ∉ s.queue.slots.granted)

def settle (s : Pushing κ τ α) : Pushing κ τ α := s.runOrder.foldl (fun s k => runTask k (s.turnsOf k) s) s

def perform (s : Pushing κ τ α) (label : PushStep κ τ α) : Pushing κ τ α := ((s.step label).getD s).settle

def nextDeadline? (s : Pushing κ τ α) : Option Nat :=
  (s.pushers.values.filterMap fun p => match p.phase with
    | .waiting deadline => deadline
    | _ => none).min?

/-- Lets time pass until `target`, at most `fuel` deadlines on the way. -/
def advanceWithin : Nat → Nat → Pushing κ τ α → Pushing κ τ α
  | 0, target, s => { s with now := target }
  | fuel + 1, target, s => match s.nextDeadline? with
    | some due =>
      if target < due then { s with now := target }
      else advanceWithin fuel target ({ s with now := max s.now due }.settle)
    | none => { s with now := target }

/-- Lets time pass until `target`. Every task that waits ends at its deadline. -/
def advance (s : Pushing κ τ α) (target : Nat) : Pushing κ τ α := advanceWithin (s.pushers.size + 1) target s

end Pushing

end PushMetrics.Agent
