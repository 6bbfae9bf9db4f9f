import PushMetrics.Store.Memory
import PushMetrics.Store.World
import PushMetrics.Snapshot.Record
import PushMetrics.Snapshot.Publication
import PushMetrics.Sql.Migration
import PushMetrics.Sql.Source

/-!
# Storage

The three kinds of store behind one set of operations: samples in memory, rows of a database, and a
snapshot layer that keeps a file up to date with the store below it. A layer with an interval of zero
writes the file after every change; a failed write is logged and the change stays.
-/

namespace PushMetrics

open Snapshot

structure Connection where
  database : Nat
  readOnly : Bool
  isOpen : Bool
deriving DecidableEq, Repr

structure Layer where
  path : String
  interval : Span
  /-- When the next periodic snapshot is due, in milliseconds; none is after the layer was closed. -/
  due : Option Nat
  isOpen : Bool
deriving DecidableEq, Repr

inductive Storage where
  | memory (m : Memory)
  | table (c : Connection)
  | snapshot (layer : Layer) (inner : Storage)

namespace Connection

def ask {α : Type} (c : Connection) (w : World) (question : Sql.Database → Except DatabaseFault α) :
    Except StorageError α :=
  if c.isOpen then
    match question (w.database c.database) with
    | .ok a => .ok a
    | .error fault => .error (.database fault)
  else .error .closed

def change (c : Connection) (w : World) (change : Change) : Except StorageError Unit × World :=
  if c.isOpen then
    if c.readOnly then (.error (.database .readOnly), w)
    else match (w.database c.database).apply change with
      | .ok d => (.ok (), w.setDatabase c.database d)
      | .error fault => (.error (.database fault), w)
  else (.error .closed, w)

end Connection

/-- The items before the first error, and that error if there is one. -/
def untilError {ε α : Type} : List (Except ε α) → List α × Option ε
  | [] => ([], none)
  | .ok a :: rest =>
    let (items, fault) := untilError rest
    (a :: items, fault)
  | .error e :: _ => ([], some e)

namespace Layer

/-- Whether every change is followed by a snapshot. -/
def isWriteThrough (l : Layer) : Bool := l.interval.isZero

def write (l : Layer) (ms : List Metric) (w : World) : Except StorageError Nat × World :=
  let (fault, disk) := runSteps (publication (Path.ofFileText l.path) (Text.utf8 (encode ms))) w.disk
  (match fault with
    | none => .ok ms.length
    | some fault => .error (.io fault), { w with disk })

end Layer

namespace Storage

/-! ## Reading -/

def get (name : String) : Storage → World → Except StorageError (Option Metric)
  | memory m, _ => m.get name
  | table c, w => c.ask w (·.select name)
  | snapshot l inner, w => if l.isOpen then inner.get name w else .error .closed

/-- The metrics in order up to the first one that cannot be read, and the error of that one. -/
def enumerate : Storage → World → Except StorageError (List Metric × Option StorageError)
  | memory m, _ => m.getAll.map (·, none)
  | table c, w => (c.ask w (·.selectAll)).map fun rows =>
    let (ms, fault) := untilError rows
    (ms, fault.map .database)
  | snapshot l inner, w => if l.isOpen then inner.enumerate w else .error .closed

def getAll (s : Storage) (w : World) : Except StorageError (List Metric) := do
  let (ms, fault) ← s.enumerate w
  match fault with
  | none => .ok ms
  | some e => .error e

def ping : Storage → World → Except StorageError Unit
  | memory m, _ => m.whenOpen ()
  | table c, w => c.ask w fun _ => .ok ()
  | snapshot l inner, w => if l.isOpen then inner.ping w else .error .closed

/-! ## Writing -/

def writeSnapshot (l : Layer) (inner : Storage) (w : World) : Except StorageError Nat × World :=
  match inner.getAll w with
  | .error e => (.error e, w)
  | .ok ms => l.write ms w

/-- Writes a snapshot and logs why if that fails. -/
def keepSnapshot (activity : String) (l : Layer) (inner : Storage) (w : World) : World :=
  match writeSnapshot l inner w with
  | (.ok _, w) => w
  | (.error e, w) => w.note .error (activity ++ " dump to " ++ l.path ++ " failed: " ++ e.message)

def apply (change : Change) : Storage → World → Except StorageError Unit × Storage × World
  | memory m, w => match m.apply change with
    | .ok m => (.ok (), memory m, w)
    | .error e => (.error e, memory m, w)
  | table c, w =>
    let (r, w) := c.change w change
    (r, table c, w)
  | snapshot l inner, w =>
    if l.isOpen then
      match inner.apply change w with
      | (.error e, inner, w) => (.error e, snapshot l inner, w)
      | (.ok _, inner, w) =>
        (.ok (), snapshot l inner, if l.isWriteThrough then keepSnapshot "Write-through" l inner w else w)
    else (.error .closed, snapshot l inner, w)

def dump? : Storage → World → Option (Except StorageError Nat × World)
  | snapshot l inner, w => some (if l.isOpen then writeSnapshot l inner w else (.error .closed, w))
  | _, _ => none

/-- Closes the store; only the first time succeeds. A layer writes a last snapshot and then closes the store
below, whether or not the snapshot succeeds. -/
def close : Storage → World → Except StorageError Unit × Storage × World
  | memory m, w => match m.close with
    | .ok m => (.ok (), memory m, w)
    | .error e => (.error e, memory m, w)
  | table c, w => if c.isOpen then (.ok (), table { c with isOpen := false }, w) else (.error .closed, table c, w)
  | snapshot l inner, w =>
    if l.isOpen then
      let l := { l with isOpen := false, due := none }
      let (dumped, w) := writeSnapshot l inner w
      let (closed, inner, w) := inner.close w
      match dumped with
      | .ok _ => (closed, snapshot l inner, w)
      | .error e => (.error e, snapshot l inner, w.note .error ("Final dump failed: " ++ e.message))
    else (.error .closed, snapshot l inner, w)

/-! ## Opening -/

def openTable (dsn : String) (w : World) : Except StorageError Storage × World :=
  match Sql.Source.ofName dsn with
  | .error e => (.error e, w)
  | .ok source =>
    let found : Except DatabaseFault (Nat × World) := match source.place with
      | .inMemory => .ok (w.addDatabase .empty)
      | .file file =>
        let path := Path.ofText file
        let fresh : Except DatabaseFault (Nat × World) :=
          if source.readOnly ∨ (w.disk.blocked? path).isSome then .error .cannotOpen
          else
            let (id, w) := w.addDatabase .empty
            .ok (id, { w with disk := w.disk.put path (.database id) })
        match w.disk.node? path with
        | some (.database id) => .ok (id, w)
        | some (.file []) | none => fresh
        | some (.file _) => .error .notADatabase
        | some .directory => .error .cannotOpen
    match found with
    | .error fault => (.error (.database fault), w)
    | .ok (id, w) =>
      let (fault, d) := (w.database id).migrate source.readOnly
      (match fault with
        | none => .ok (table ⟨id, source.readOnly, true⟩)
        | some fault => .error (.database fault), w.setDatabase id d)

/-- Replaces what a store holds by the metrics of a file; without a file nothing is left. -/
def restore (path : Path) (s : Storage) (w : World) : Except StorageError Unit × Storage × World :=
  match s.apply .reset w with
  | (.error e, s, w) => (.error e, s, w)
  | (.ok _, s, w) =>
    match w.disk.readText path with
    | .error .notFound => (.ok (), s, w)
    | .error fault => (.error (.io fault), s, w)
    | .ok content =>
      match decode content with
      | .error e => (.error e, s, w)
      | .ok ms => s.apply (.saveBatch ms) w

structure LayerSettings where
  path : String
  interval : Span
  restore : Bool
deriving DecidableEq, Repr

def LayerSettings.fault? (settings : LayerSettings) (w : World) : Option SetupFault :=
  let parent := (Path.ofFileText settings.path).named.parent
  if settings.path = "" then some .emptyPath
  else if w.disk.isDirectory parent then none
  else some (.missingDirectory (Path.text parent))

/-- Puts a snapshot layer on a store. If that fails, the answer is the error and the store, whose content
the restoring may have changed. -/
def openSnapshot (settings : LayerSettings) (inner : Storage) (w : World) :
    Except StorageError Unit × Storage × World :=
  match settings.fault? w with
  | some fault => (.error (.setup fault), inner, w)
  | none =>
    let (restored, inner, w) := if settings.restore then inner.restore (Path.ofFileText settings.path) w
      else (.ok (), inner, w)
    match restored with
    | .error e => (.error e, inner, w)
    | .ok _ =>
      let due := if settings.interval.isZero then none else some (w.now + settings.interval.ceilMillis)
      (.ok (), snapshot ⟨settings.path, settings.interval, due, true⟩ inner, w)

/-! ## The passing of time -/

/-- The earliest time at which a periodic snapshot is due. -/
def nextDue? : Storage → Option Nat
  | snapshot l inner => match l.due, inner.nextDue? with
    | some a, some b => some (min a b)
    | a, b => a.or b
  | _ => none

/-- Writes the periodic snapshots that are due now, and sets the time of the next ones. -/
def tick : Storage → World → Storage × World
  | snapshot l inner, w =>
    let (inner, w) := inner.tick w
    match l.due with
    | some t =>
      if t ≤ w.now then
        (snapshot { l with due := some (t + l.interval.ceilMillis) } inner, keepSnapshot "Periodic" l inner w)
      else (snapshot l inner, w)
    | none => (snapshot l inner, w)
  | s, w => (s, w)

end Storage

end PushMetrics
