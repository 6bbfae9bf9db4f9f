import PushMetrics.Collector.Config
import PushMetrics.Http.Service

/-!
# The collector's store

Which store a configuration asks for: a database if one is named, else memory with snapshots if a file is
named, else memory alone. And what happens to a collector from start to start, one thing after another: requests,
snapshots that are asked for, time that passes, others that write to the disk, and restarts. A restart closes the
store, whether or not the last snapshot can be written, and opens the store of a configuration.
-/

namespace PushMetrics.Collector

def openStorage (c : Config) (w : World) : Except StorageError Storage × World :=
  match c.dsn, c.snapshotPath with
  | some dsn, _ => Storage.openTable dsn w
  | none, some path =>
    let (opened, storage, w) := Storage.openSnapshot ⟨path, c.storeInterval, c.restore⟩ (.memory .fresh) w
    (opened.map fun _ => storage, w)
  | none, none => (.ok (.memory .fresh), w)

inductive LifetimeStep where
  | request (r : Http.Request)
  | dump
  | pass (now : Nat)
  /-- The disk is now whatever others have made of it. -/
  | intrude (disk : Disk)
  | restart (config : Config)

/-- The store of a collector and its surroundings after something has happened, unless the store makes no snapshots
or cannot be opened again. -/
def lifetimeStep (s : Storage × World) : LifetimeStep → Option (Storage × World)
  | .request r => some (Http.handle Storage.backend r s).2
  | .dump => (s.1.dump? s.2).map fun (_, w) => (s.1, w)
  | .pass now => some (s.1.tick { s.2 with now })
  | .intrude disk => some (s.1, { s.2 with disk })
  | .restart config =>
    let (_, _, w) := s.1.close s.2
    match openStorage config w with
    | (.ok storage, w) => some (storage, w)
    | (.error _, _) => none

end PushMetrics.Collector
