import PushMetrics.Store.Storage

/-!
# A store in use

Calls on a store, one after another. Between two calls time may pass: by then the disk is whatever others have made of
it, and the snapshots that are due are written or fail.
-/

namespace PushMetrics.Storage

inductive Call where
  | get (name : String)
  | getAll
  | apply (change : Change)
  | ping
  | close
deriving DecidableEq, Repr

inductive Answer where
  | found (metric : Option Metric)
  | listed (metrics : List Metric)
  | done
deriving DecidableEq, Repr

inductive Event where
  | call (call : Call)
  | pass (disk : Disk) (now : Nat)

/-- The changes among what happens. -/
def Event.change? : Event → Option Change
  | call (.apply change) => some change
  | _ => none

/-- Carries out a call: its answer, and the store and its surroundings afterwards. -/
def respond : Call → Storage → World → Except StorageError Answer × Storage × World
  | .get name, s, w => ((s.get name w).map .found, s, w)
  | .getAll, s, w => ((s.getAll w).map .listed, s, w)
  | .apply change, s, w =>
    let (r, s, w) := s.apply change w
    (r.map fun _ => .done, s, w)
  | .ping, s, w => ((s.ping w).map fun _ => .done, s, w)
  | .close, s, w =>
    let (r, s, w) := s.close w
    (r.map fun _ => .done, s, w)

/-- Lets things happen in turn: the answers to the calls, and the store and its surroundings afterwards. -/
def use : List Event → Storage → World → List (Except StorageError Answer) × Storage × World
  | [], s, w => ([], s, w)
  | .pass disk now :: rest, s, w =>
    let (s, w) := s.tick { w with disk, now }
    use rest s w
  | .call c :: rest, s, w =>
    let (r, s, w) := s.respond c w
    let (rs, s, w) := use rest s w
    (r :: rs, s, w)

end PushMetrics.Storage
