import PushMetrics.Dict

/-!
# Permits

A pool of permits with a queue. Whoever finds no permit free waits in line; a permit that comes back is
granted to the first in line, who collects it when it runs next, or passes it on if it has given up.
-/

namespace PushMetrics

structure Permits (κ : Type) where
  free : Nat
  waiting : List κ
  /-- Those who have been granted a permit and have not collected it yet. -/
  granted : List κ
deriving Repr

namespace Permits

variable {κ : Type} [DecidableEq κ]

def full (size : Nat) : Permits κ := ⟨size, [], []⟩

/-- Takes a free permit, or joins the line; the flag tells which. -/
def request (p : Permits κ) (k : κ) : Bool × Permits κ :=
  if 0 < p.free then (true, { p with free := p.free - 1 }) else (false, { p with waiting := p.waiting ++ [k] })

def giveBack (p : Permits κ) : Permits κ :=
  match p.waiting with
  | [] => { p with free := p.free + 1 }
  | k :: rest => { p with waiting := rest, granted := p.granted ++ [k] }

def isGranted (p : Permits κ) (k : κ) : Bool := k ∈ p.granted

def collect (p : Permits κ) (k : κ) : Permits κ := { p with granted := p.granted.erase k }

/-- `k` gives up waiting; a permit granted to it goes on to the next. -/
def withdraw (p : Permits κ) (k : κ) : Permits κ :=
  if k ∈ p.granted then (p.collect k).giveBack else { p with waiting := p.waiting.erase k }

end Permits

end PushMetrics
