import PushMetrics.Store.Memory

/-!
# Enumerations

Listing a store in memory one metric at a time. The names are those at the beginning; each is looked up on
its own, so writes may fall between two metrics. The producer runs ahead of the consumer by at most a
channel's capacity, and stops when it finds the store closed.
-/

namespace PushMetrics

abbrev Item := Except StorageError Metric

inductive Producer where
  /-- To see whether the store is still open, before each of these names. -/
  | check (names : List String)
  /-- To look the first of these names up. -/
  | look (names : List String)
  /-- To hand an item over, and to go on with these names. -/
  | send (item : Item) (names : List String)
  | finished
deriving Repr

/-- A running enumeration: its producer, and the items not yet taken, oldest first. -/
structure Enumeration where
  producer : Producer
  channel : List Item

namespace Enumeration

/-- How many items may wait for the consumer. -/
def capacity : Nat := 64

def start (m : Memory) : Except StorageError Enumeration := m.whenOpen ⟨.check m.contents.keys, []⟩

/-- The producer's next step, unless it has finished or the channel is full. -/
def produce (m : Memory) (e : Enumeration) : Option Enumeration :=
  match e.producer with
  | .check [] => some { e with producer := .finished }
  | .check names => some { e with producer := if m.isOpen then .look names else .send (.error .closed) [] }
  | .look [] => some { e with producer := .finished }
  | .look (name :: rest) =>
    some { e with producer := match m.contents.metric? name with
      | some metric => .send (.ok metric) rest
      | none => .check rest }
  | .send item names =>
    if e.channel.length < capacity then
      some ⟨match item with | .ok _ => .check names | .error _ => .finished, e.channel ++ [item]⟩
    else none
  | .finished => none

def take (e : Enumeration) : Option (Item × Enumeration) :=
  match e.channel with
  | [] => none
  | item :: rest => some (item, { e with channel := rest })

/-! ## Running to the next wait -/

/-- A bound on the producer's steps. -/
def Producer.work : Producer → Nat
  | .check names => 3 * names.length + 3
  | .look names => 3 * names.length + 2
  | .send _ names => 3 * names.length + 4
  | .finished => 0

theorem work_produce {m : Memory} {e f : Enumeration} (h : e.produce m = some f) :
    Producer.work f.producer < Producer.work e.producer := by
  obtain ⟨p, channel⟩ := e
  cases p with
  | check names =>
    cases names with
    | nil => simp only [produce, Option.some.injEq] at h; subst h; simp [Producer.work]
    | cons name rest =>
      simp only [produce, Option.some.injEq] at h
      subst h
      cases m.isOpen
      · simp only [Bool.false_eq_true, ↓reduceIte, Producer.work, List.length_nil, List.length_cons]
        omega
      · simp [Producer.work]
  | look names =>
    cases names with
    | nil => simp only [produce, Option.some.injEq] at h; subst h; simp [Producer.work]
    | cons name rest =>
      simp only [produce, Option.some.injEq] at h
      subst h
      cases m.contents.metric? name <;> simp [Producer.work] <;> omega
  | send item names =>
    simp only [produce] at h
    split at h
    · obtain rfl := Option.some.inj h
      cases item <;> simp [Producer.work]
    · simp at h
  | finished => simp [produce] at h

/-- Runs the producer until it has finished or waits for room. -/
def runProducer (m : Memory) (e : Enumeration) : Enumeration :=
  match _h : e.produce m with
  | none => e
  | some f => runProducer m f
termination_by Producer.work e.producer
decreasing_by exact work_produce _h

/-- The next item: the oldest that waits, or what the producer then makes. -/
def pull (m : Memory) (e : Enumeration) : Option (Item × Enumeration) :=
  if e.channel.isEmpty then (e.runProducer m).take else e.take

/-- Pulls at most `count` items; an error is the last one. -/
def pullMany (m : Memory) : Nat → Enumeration → List Item × Enumeration
  | 0, e => ([], e)
  | count + 1, e =>
    match e.pull m with
    | none => ([], e)
    | some (.error fault, e) => ([.error fault], e)
    | some (item, e) =>
      let (items, e) := pullMany m count e
      (item :: items, e)

/-- A bound on the items still to come. -/
def remaining (e : Enumeration) : Nat := e.channel.length + Producer.work e.producer

def drain (m : Memory) (e : Enumeration) : List Item := (pullMany m (e.remaining + 1) e).1

end Enumeration

end PushMetrics
