import PushMetrics.Time.Span

/-!
# Backoff

How long a repeated operation waits before each attempt. The first attempt never waits; the wait then
grows by a constant factor up to a cap.
-/

namespace PushMetrics.Agent

open Number

structure Backoff where
  /-- The wait before the second attempt. -/
  base : Span
  /-- No wait is longer. -/
  cap : Span
  /-- How often the operation is tried at most; none counts as one. -/
  attempts : Nat
  /-- The factor from one wait to the next. -/
  multiplier : Binary64

namespace Backoff

def greatestExponent : Nat := twoPow 31 - 1

/-- The wait before attempt number `k`, counted from zero. It is computed in seconds of double
precision; where these are no span, the cap stands in. -/
def delayBefore (b : Backoff) (k : Nat) : Span :=
  if k = 0 then ⟨0⟩
  else
    let seconds := b.base.toSeconds.mul (b.multiplier.pow (min (k - 1) greatestExponent))
    ⟨min ((Span.ofSeconds64? seconds).getD b.cap).nanos b.cap.nanos⟩

end Backoff

end PushMetrics.Agent
