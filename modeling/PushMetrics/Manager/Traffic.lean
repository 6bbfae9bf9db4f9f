import PushMetrics.Lock.Named
import PushMetrics.Manager

/-!
# Requests side by side

Many requests to save work on one store at a time. A request takes the lock of each of its names in the order
of the names, resolves its metrics one by one, writes them at once, and gives the locks back one by one. It
may be dropped before every one of these steps; it then gives back what it holds.
-/

namespace PushMetrics.Manager

open Lock

inductive Request where
  | save (m : Metric)
  | saveBatch (ms : List Metric)
deriving DecidableEq, Repr

namespace Request

def metrics : Request → List Metric
  | save m => [m]
  | saveBatch ms => ms

/-- The distinct names of a request, sorted. -/
def names (r : Request) : List String := ((r.metrics.map (·.name)).mergeSort (· ≤ ·)).eraseDups

/-- What a request writes, given what its metrics were resolved to. -/
def change (r : Request) (results : List Metric) (pending : Pending) : Change :=
  match r, results with
  | save _, [m] => .save m
  | _, _ => .saveBatch (Contents.metrics pending)

end Request

/-- The answer to a request; none if it was dropped. -/
abbrev Answer := Option (Except StorageError (List Metric))

inductive RequestStage where
  /-- About to ask for the locks of these names. -/
  | locking (names : List String)
  /-- In line for the lock of a name, before these others. -/
  | waiting (name : String) (names : List String)
  /-- Has its locks, and these metrics still to resolve. -/
  | resolving (results : List Metric) (pending : Pending) (left : List Metric)
  /-- Holds the locks of these names, which it gives back. -/
  | releasing (names : List String) (answer : Answer)
  | ended (answer : Answer)

structure Work where
  request : Request
  stage : RequestStage

/-- Requests at work on a store with states in `σ`. A lock is asked for by a request and a name. -/
structure Traffic (σ : Type) where
  store : σ
  locks : NamedLocks (Nat × String)
  works : Dict Nat Work
  /-- The requests that have written, in the order of writing. -/
  written : List Nat

inductive TrafficStep where
  | arrive (id : Nat) (request : Request)
  | advance (id : Nat)
  | drop (id : Nat)
  | sweep
  | wait (millis : Nat)
deriving Repr

namespace Traffic

variable {σ : Type}

def fresh (store : σ) (ttl : Nat) : Traffic σ := ⟨store, .fresh ttl, Dict.empty, []⟩

def setStage (t : Traffic σ) (id : Nat) (request : Request) (stage : RequestStage) : Traffic σ :=
  { t with works := t.works.put id ⟨request, stage⟩ }

/-- The state after a step of the locks, if that can be taken. -/
def lock (t : Traffic σ) (label : LockStep (Nat × String)) : Option (Traffic σ) :=
  (t.locks.step label).map fun locks => { t with locks }

/-- The names whose locks a request has, when these are still to be asked for. -/
def taken (request : Request) (names : List String) : List String :=
  request.names.take (request.names.length - names.length)

def write (b : Backend σ) (t : Traffic σ) (id : Nat) (request : Request) (results : List Metric)
    (pending : Pending) : Traffic σ :=
  match b.apply (request.change results pending) t.store with
  | (.error e, store) => { t with store }.setStage id request (.releasing request.names (some (.error e)))
  | (.ok _, store) =>
    { t with store, written := t.written ++ [id] }.setStage id request
      (.releasing request.names (some (.ok results)))

def resolveNext (b : Backend σ) (t : Traffic σ) (id : Nat) (request : Request) (results : List Metric)
    (pending : Pending) (m : Metric) (left : List Metric) : Traffic σ :=
  match resolve b pending m t.store with
  | (.error e, store) => { t with store }.setStage id request (.releasing request.names (some (.error e)))
  | (.ok sample, store) =>
    let resolved : Metric := ⟨m.name, sample⟩
    { t with store }.setStage id request (.resolving (results ++ [resolved]) (pending.put m.name sample) left)

def advance (b : Backend σ) (t : Traffic σ) (id : Nat) (w : Work) : Option (Traffic σ) :=
  let enter (t : Traffic σ) := t.setStage id w.request
  match w.stage with
  | .locking [] => some (enter t (.resolving [] Dict.empty w.request.metrics))
  | .locking (name :: rest) =>
    (t.lock (.ask (id, name) name)).map fun t =>
      enter t (if (t.locks.users.get? (id, name)).any (·.phase == .held) then .locking rest else .waiting name rest)
  | .waiting name rest => (t.lock (.turn (id, name))).map (enter · (.locking rest))
  | .resolving results pending [] =>
    some (if w.request.metrics.isEmpty then enter t (.ended (some (.ok [])))
      else t.write b id w.request results pending)
  | .resolving results pending (m :: left) => some (t.resolveNext b id w.request results pending m left)
  | .releasing [] answer => some (enter t (.ended answer))
  | .releasing (name :: rest) answer => (t.lock (.release (id, name))).map (enter · (.releasing rest answer))
  | .ended _ => none

def drop (t : Traffic σ) (id : Nat) (w : Work) : Option (Traffic σ) :=
  let holding (t : Traffic σ) (names : List String) := t.setStage id w.request (.releasing names none)
  match w.stage with
  | .locking names => some (holding t (taken w.request names))
  | .waiting name names => (t.lock (.leave (id, name))).map (holding · (taken w.request (name :: names)))
  | .resolving _ _ _ => some (holding t w.request.names)
  | .releasing names _ => some (holding t names)
  | .ended _ => none

def step (b : Backend σ) (t : Traffic σ) : TrafficStep → Option (Traffic σ)
  | .arrive id request =>
    if (t.works.get? id).isSome then none else some (t.setStage id request (.locking request.names))
  | .advance id => (t.works.get? id).bind (t.advance b id)
  | .drop id => (t.works.get? id).bind (t.drop id)
  | .sweep => t.lock .sweep
  | .wait millis => t.lock (.wait millis)

/-! ## Letting requests run -/

/-- A bound on the steps of a request: two for each lock, one for each metric, and three to write and end. -/
def stepsOf (r : Request) : Nat := 3 * r.names.length + r.metrics.length + 3

/-- Lets one request go on until it waits or has ended, at most `fuel` steps. -/
def runRequest (b : Backend σ) (id : Nat) : Nat → Traffic σ → Traffic σ
  | 0, t => t
  | fuel + 1, t => match t.step b (.advance id) with
    | some t => runRequest b id fuel t
    | none => t

/-- Lets requests go on in the order of their arrival until each waits or has ended. -/
def settle (b : Backend σ) (t : Traffic σ) : Traffic σ :=
  t.works.entries.foldl (fun t w => runRequest b w.1 (stepsOf w.2.request) t) t

/-- Requests that arrive together, numbered in order, and run to their ends. -/
def serve (b : Backend σ) (requests : List Request) (t : Traffic σ) : Traffic σ :=
  (requests.zipIdx.foldl (fun t r => (t.step b (.arrive r.2 r.1)).getD t) t).settle b

def answers (t : Traffic σ) : List Answer :=
  t.works.values.filterMap fun w => match w.stage with
    | .ended answer => some answer
    | _ => none

end Traffic

end PushMetrics.Manager
