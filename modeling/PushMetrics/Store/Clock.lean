import PushMetrics.Store.Storage

/-!
# Time and periodic snapshots

As time passes, the layers of stores write their periodic snapshots, each at the multiples of its interval.
-/

namespace PushMetrics

namespace Storage

/-- The earliest time at which some store has a snapshot due. -/
def earliestDue? (stores : List Storage) : Option Nat := (stores.filterMap nextDue?).min?

def tickAll : List Storage → World → List Storage × World
  | [], w => ([], w)
  | s :: rest, w =>
    let (s, w) := s.tick w
    let (rest, w) := tickAll rest w
    (s :: rest, w)

/-- Lets time pass until `target`, in at most `fuel` moments at which something is due. -/
def advanceWithin : Nat → Nat → List Storage → World → List Storage × World
  | 0, target, stores, w => (stores, { w with now := target })
  | fuel + 1, target, stores, w =>
    match earliestDue? stores with
    | none => (stores, { w with now := target })
    | some due =>
      if target < due then (stores, { w with now := target })
      else
        let (stores, w) := tickAll stores { w with now := max w.now due }
        advanceWithin fuel target stores w

/-- Lets time pass until `target`. Every moment at which something is due is later than the one before. -/
def advance (target : Nat) (stores : List Storage) (w : World) : List Storage × World :=
  advanceWithin (target - w.now + 1) target stores w

end Storage

end PushMetrics
