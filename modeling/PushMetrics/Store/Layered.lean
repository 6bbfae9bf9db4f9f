import PushMetrics.Permits
import PushMetrics.Snapshot.Publication
import PushMetrics.Snapshot.Record
import PushMetrics.Store.Enumeration

/-!
# A snapshot layer at work

Writes, snapshots and the closing of a snapshot layer over a store in memory, side by side. One look at a
flag, one access to the contents, one item of an enumeration and one operation on the disk are steps of
their own; the names may be listed in any order. A lock lets one snapshot after another work on the file; it covers
the enumeration too, so a snapshot that begins after a write contains it.
-/

namespace PushMetrics

open Snapshot

/-- Who makes a snapshot: the periodic task, or an operation. -/
inductive Dumper where
  | flusher
  | operation (id : Nat)
deriving DecidableEq, Repr

inductive DumpStage where
  /-- About to ask for the file lock. -/
  | asking
  | waiting
  /-- About to see whether the store below is open. -/
  | checking
  | listing
  | collecting (source : Enumeration) (got : List Metric)
  /-- About to carry out these steps on the disk, for a snapshot of so many metrics. -/
  | filing (count : Nat) (steps : List FileStep)
  /-- About to give the file lock back. -/
  | unlocking (result : Except StorageError Nat)
  | ended (result : Except StorageError Nat)

/-- How a snapshot goes on. -/
inductive DumpStep where
  | advance
  /-- The names are listed, in this order. -/
  | list (names : List String)
  /-- The enumeration makes its next item. -/
  | produce
  /-- Only so many bytes are written. -/
  | writePart (count : Nat)
  | fail (fault : IoFault)
deriving Repr

inductive Operation where
  | write (change : Change)
  | dump
  | close
deriving DecidableEq, Repr

inductive OperationStage where
  /-- About to look at the layer's flag. -/
  | entering
  /-- About to look at the flag of the store below. -/
  | checking
  | changing
  /-- Waiting for the periodic task to stop. -/
  | joining
  | dumping (stage : DumpStage)
  /-- About to close the store below. -/
  | shutting (dumped : Except StorageError Nat)
  /-- About to empty the store below. -/
  | clearing (dumped : Except StorageError Nat)
  /-- Its answer, and how its snapshot ended if it made one. -/
  | ended (answer : Except StorageError Unit) (dumped : Option (Except StorageError Nat))
  /-- Nobody waits for its answer any more. -/
  | dropped

inductive Flusher where
  | idle
  | dumping (stage : DumpStage)
  | stopped

/-- A snapshot layer with its store, its file and those who work on it. -/
structure Layered where
  path : Path
  /-- Whether every write is followed by a snapshot. -/
  writeThrough : Bool
  memory : Memory
  isOpen : Bool
  cancelled : Bool
  disk : Disk
  fileLock : Permits Dumper
  flusher : Flusher
  operations : Dict Nat (Operation × OperationStage)
  /-- The changes so far, with the operations that made them. -/
  applied : List (Nat × Change)
  /-- The contents of all snapshots that were about to be written. -/
  outputs : List (List UInt8)

inductive LayeredStep where
  | begin (id : Nat) (operation : Operation)
  | advance (id : Nat)
  /-- An operation is dropped where it is. -/
  | drop (id : Nat)
  /-- The snapshot of an operation goes on. -/
  | dump (id : Nat) (step : DumpStep)
  /-- The periodic task begins a snapshot. -/
  | flush
  | flusher (step : DumpStep)
  /-- The periodic task goes back to waiting. -/
  | flushed
  | stopFlusher
deriving Repr

/-- Whether the layer takes a step by itself: nobody begins an operation or drops one. -/
def LayeredStep.isOwn : LayeredStep → Bool
  | .begin _ _ | .drop _ => false
  | _ => true

namespace Layered

def fresh (path : Path) (writeThrough : Bool) (memory : Memory) (disk : Disk) : Layered where
  path := path
  writeThrough := writeThrough
  memory := memory
  isOpen := true
  cancelled := false
  disk := disk
  fileLock := .full 1
  flusher := if writeThrough then .stopped else .idle
  operations := Dict.empty
  applied := []
  outputs := []

variable (s : Layered)

/-! ## Snapshots -/

/-- The layer when everything has been collected: a snapshot of it is to be written. -/
def outline (got : List Metric) : Layered × DumpStage :=
  let bytes := Text.utf8 (encode got)
  ({ s with outputs := s.outputs ++ [bytes] }, .filing got.length (publication s.path bytes))

/-- A snapshot whose enumeration goes on: the next item is taken, or the end is reached. -/
def collect (source : Enumeration) (got : List Metric) : Option (Layered × DumpStage) :=
  match source.take with
  | some (.ok m, source) => some (s, .collecting source (got ++ [m]))
  | some (.error e, _) => some (s, .unlocking (.error e))
  | none => match source.producer with
    | .finished => some (s.outline got)
    | _ => none

/-- A snapshot whose next step on the disk is carried out. -/
def file (count : Nat) : List FileStep → Layered × DumpStage
  | [] => (s, .unlocking (.ok count))
  | step :: rest => match step.apply s.disk with
    | .ok disk => ({ s with disk }, .filing count rest)
    | .error fault => (s, .unlocking (.error (.io fault)))

/-- The layer after a step of a snapshot, and how far that is then. -/
def dumpStep (k : Dumper) : DumpStage → DumpStep → Option (Layered × DumpStage)
  | .asking, .advance =>
    let (now, fileLock) := s.fileLock.request k
    some ({ s with fileLock }, if now then .checking else .waiting)
  | .waiting, .advance =>
    if s.fileLock.isGranted k then some ({ s with fileLock := s.fileLock.collect k }, .checking) else none
  | .checking, .advance => some (s, if s.memory.isOpen then .listing else .unlocking (.error .closed))
  | .listing, .list names =>
    if names.isPerm s.memory.contents.keys then some (s, .collecting ⟨.check names, []⟩ []) else none
  | .collecting source got, .produce => (source.produce s.memory).map fun source => (s, .collecting source got)
  | .collecting source got, .advance => s.collect source got
  | .filing count steps, .advance => some (s.file count steps)
  | .filing count (.append p bytes :: rest), .writePart n =>
    some (s.file count (.append p (bytes.take n) :: .append p (bytes.drop n) :: rest))
  | .filing _ (_ :: _), .fail fault => some (s, .unlocking (.error (.io fault)))
  | .unlocking result, .advance => some ({ s with fileLock := s.fileLock.giveBack }, .ended result)
  | _, _ => none

/-! ## Operations -/

def setStage (id : Nat) (o : Operation) (stage : OperationStage) : Layered :=
  { s with operations := s.operations.put id (o, stage) }

/-- Where an operation goes when its snapshot has ended. -/
def afterDump : Operation → Except StorageError Nat → OperationStage
  | .write _, r => .ended (.ok ()) (some r)
  | .dump, r => .ended (r.map fun _ => ()) (some r)
  | .close, r => .shutting r

def advance (id : Nat) (o : Operation) (stage : OperationStage) : Option Layered :=
  let refused : OperationStage := .ended (.error .closed) none
  match stage, o with
  | .entering, .close =>
    some (if s.isOpen then { s with isOpen := false, cancelled := true }.setStage id o .joining
      else s.setStage id o refused)
  | .entering, .write _ => some (s.setStage id o (if s.isOpen then .checking else refused))
  | .entering, .dump => some (s.setStage id o (if s.isOpen then .dumping .asking else refused))
  | .checking, _ => some (s.setStage id o (if s.memory.isOpen then .changing else refused))
  | .changing, .write change =>
    let changed := { s with
      memory := { s.memory with contents := change.applyTo s.memory.contents }
      applied := s.applied ++ [(id, change)] }
    some (changed.setStage id o (if s.writeThrough then .dumping .asking else .ended (.ok ()) none))
  | .joining, _ => match s.flusher with
    | .stopped => some (s.setStage id o (.dumping .asking))
    | _ => none
  | .dumping (.ended r), _ => some (s.setStage id o (afterDump o r))
  | .shutting r, _ =>
    some (if s.memory.isOpen then
        { s with memory := { s.memory with isOpen := false } }.setStage id o (.clearing r)
      else s.setStage id o (.ended (r.bind fun _ => .error .closed) (some r)))
  | .clearing r, _ =>
    some ({ s with memory := { s.memory with contents := Dict.empty } }.setStage id o
      (.ended (r.map fun _ => ()) (some r)))
  | _, _ => none

/-- The layer after a snapshot has been dropped: its place in the line or the file lock is given back. -/
def dropDump (k : Dumper) : DumpStage → Layered
  | .asking | .ended _ => s
  | .waiting => { s with fileLock := s.fileLock.withdraw k }
  | _ => { s with fileLock := s.fileLock.giveBack }

def drop (id : Nat) (o : Operation) : OperationStage → Option Layered
  | .ended _ _ | .dropped => none
  | .dumping stage => some ((s.dropDump (.operation id) stage).setStage id o .dropped)
  | _ => some (s.setStage id o .dropped)

def step : LayeredStep → Option Layered
  | .begin id o => if (s.operations.get? id).isSome then none else some (s.setStage id o .entering)
  | .advance id => (s.operations.get? id).bind fun (o, stage) => s.advance id o stage
  | .drop id => (s.operations.get? id).bind fun (o, stage) => s.drop id o stage
  | .dump id label =>
    match s.operations.get? id with
    | some (o, .dumping stage) =>
      (s.dumpStep (.operation id) stage label).map fun (s, stage) => s.setStage id o (.dumping stage)
    | _ => none
  | .flush =>
    match s.flusher with
    | .idle => some { s with flusher := .dumping .asking }
    | _ => none
  | .flusher label =>
    match s.flusher with
    | .dumping stage => (s.dumpStep .flusher stage label).map fun (s, stage) => { s with flusher := .dumping stage }
    | _ => none
  | .flushed =>
    match s.flusher with
    | .dumping (.ended _) => some { s with flusher := .idle }
    | _ => none
  | .stopFlusher =>
    match s.flusher with
    | .idle => if s.cancelled then some { s with flusher := .stopped } else none
    | _ => none

end Layered

end PushMetrics
