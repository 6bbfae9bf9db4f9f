import PushMetrics.Number.Binary64

/-!
# Spans of time

A span is a whole number of nanoseconds. It is shown in the largest unit that it fills, with a fraction
where needed.
-/

namespace PushMetrics

open Number

structure Span where
  nanos : Nat
deriving DecidableEq, Repr, Inhabited

namespace Span

def ofMillis (n : Nat) : Span := ⟨n * tenPow 6⟩

def ofSeconds (n : Nat) : Span := ⟨n * tenPow 9⟩

/-- The first whole millisecond at or after the end of the span. -/
def ceilMillis (s : Span) : Nat := (s.nanos + (tenPow 6 - 1)) / tenPow 6

def isZero (s : Span) : Bool := s.nanos == 0

/-- A number with `places` decimal places, its fraction without zeros at the end. -/
def fixed (places n : Nat) : String :=
  let whole := Nat.toDigits 10 (n / tenPow places)
  let digits := Nat.toDigits 10 (n % tenPow places)
  let fraction := ((List.replicate (places - digits.length) '0' ++ digits).reverse.dropWhile (· == '0')).reverse
  String.ofList (whole ++ (if fraction.isEmpty then [] else '.' :: fraction))

def text (s : Span) : String :=
  if tenPow 9 ≤ s.nanos then fixed 9 s.nanos ++ "s"
  else if tenPow 6 ≤ s.nanos then fixed 6 s.nanos ++ "ms"
  else if tenPow 3 ≤ s.nanos then fixed 3 s.nanos ++ "µs"
  else fixed 0 s.nanos ++ "ns"

/-! ## Seconds as double precision numbers -/

/-- The span in seconds: its whole seconds plus the quotient of the rest, each step rounded. -/
def toSeconds (s : Span) : Binary64 :=
  (Binary64.ofInt (s.nanos / tenPow 9)).add ((Binary64.ofInt (s.nanos % tenPow 9)).div (Binary64.ofInt (tenPow 9)))

/-- The span of a number of seconds, to the nearest nanosecond, ties to even. A number below zero, one of
2⁶⁴ or more and one that is not finite has no span. -/
def ofSeconds64? : Binary64 → Option Span
  | .finite negative rank =>
    if (negative ∧ rank.val ≠ 0) ∨ twoPow 64 * twoPow 1074 ≤ Binary64.units rank then none
    else some ⟨roundHalfEven (Binary64.units rank * tenPow 9) (twoPow 1074)⟩
  | _ => none

end Span

end PushMetrics
