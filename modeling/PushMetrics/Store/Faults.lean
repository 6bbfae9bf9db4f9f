import PushMetrics.Sql.Transaction
import PushMetrics.Store.Backend

/-!
# Failing stores

The stores when the statements to their databases may fail on the way. A store in memory sends no statements.
-/

namespace PushMetrics

open Sql (Faults)

namespace Connection

def tryAsk {α : Type} (faults : Faults) (c : Connection) (w : World)
    (question : Sql.Database → Except DatabaseFault α) : Except StorageError α :=
  if c.isOpen then
    match faults 0 with
    | some e => .error e
    | none => c.ask w question
  else .error .closed

/-- What the connection has not committed in the end has no effect. -/
def tryChange (faults : Faults) (c : Connection) (w : World) (change : Change) : Except StorageError Unit × World :=
  if c.isOpen then
    let (answer, session) := (⟨c.readOnly, w.database c.database, none⟩ : Sql.Session).change faults change
    (answer, w.setDatabase c.database session.committed)
  else (.error .closed, w)

end Connection

namespace Storage

/-- Neither the store nor one below it has been closed. -/
def isOpen : Storage → Bool
  | memory m => m.isOpen
  | table c => c.isOpen
  | snapshot layer inner => layer.isOpen && inner.isOpen

def tryGet (faults : Faults) (name : String) : Storage → World → Except StorageError (Option Metric)
  | memory m, _ => m.get name
  | table c, w => c.tryAsk faults w (·.select name)
  | snapshot layer inner, w => if layer.isOpen then inner.tryGet faults name w else .error .closed

def tryApply (faults : Faults) (change : Change) : Storage → World → Except StorageError Unit × Storage × World
  | memory m, w => match m.apply change with
    | .ok m => (.ok (), memory m, w)
    | .error e => (.error e, memory m, w)
  | table c, w =>
    let (r, w) := c.tryChange faults w change
    (r, table c, w)
  | snapshot layer inner, w =>
    if layer.isOpen then
      match inner.tryApply faults change w with
      | (.error e, inner, w) => (.error e, snapshot layer inner, w)
      | (.ok _, inner, w) => (.ok (), snapshot layer inner,
          if layer.isWriteThrough then keepSnapshot "Write-through" layer inner w else w)
    else (.error .closed, snapshot layer inner, w)

def tryBackend (faults : Faults) : Backend (Storage × World) :=
  { Storage.backend with
    get := fun name s => (s.1.tryGet faults name s.2, s)
    apply := fun change s => s.1.tryApply faults change s.2 }

/-- Whether a store keeps its metrics in a database. -/
def isTable : Storage → Bool
  | memory _ => false
  | table _ => true
  | snapshot _ inner => inner.isTable

end Storage

end PushMetrics
