import PushMetrics.Number.Binary64

/-!
# Shortest decimals

The decimal with the fewest digits that reads back as a given number, and of those the nearest one.
For one digit, two digits and so on, the two neighbours of the number on that decimal grid are tried;
if no short decimal reads back, the exact expansion does.
-/

namespace PushMetrics.Number

/-- Which of two equally near decimals is taken. -/
inductive Tie where
  /-- The one further from zero. -/
  | away
  /-- The one with an even last digit. -/
  | even
deriving DecidableEq, Repr

namespace Shortest

/-- The number of decimal digits of a positive number. -/
def decimalLength (n : Nat) : Nat :=
  let d := n.log2 * 1233 / 4096
  if n < tenPow d then d else if n < tenPow (d + 1) then d + 1 else d + 2

/-- The exact expansion of the magnitude with a given rank. -/
def exact (rank : Nat) : Decimal := ⟨false, Binary64.units rank * Nat.pow 5 1074, -1074⟩

/-- Whether a decimal reads back as the magnitude with a given rank. -/
def readsBack (rank : Nat) (d : Decimal) : Bool := Binary64.ofDecimal d == Binary64.ofRank false rank

/-- Which of two neighbours is taken, given which of them read back. -/
def nearer? (lowNearer : Bool) (low high : Decimal) : Bool → Bool → Option Decimal
  | true, true => some (if lowNearer then low else high)
  | true, false => some low
  | false, true => some high
  | false, false => none

/-- The nearer neighbour with at most `count` digits that reads back. -/
def candidate? (tie : Tie) (rank count : Nat) : Option Decimal :=
  let whole := (exact rank).coefficient
  let spare := decimalLength whole - count
  let step := tenPow spare
  let below := whole / step
  let rest := whole % step
  let low : Decimal := ⟨false, below, spare - 1074⟩
  let high : Decimal := ⟨false, below + 1, spare - 1074⟩
  let lowNearer := 2 * rest < step || (2 * rest == step && tie == .even && below % 2 == 0)
  nearer? lowNearer low high (readsBack rank low) (readsBack rank high)

/-- The shortest decimal that reads back as the magnitude with a given rank. -/
def decimal (tie : Tie) (rank : Nat) : Decimal :=
  if rank = 0 then ⟨false, 0, 0⟩
  else
    let d := ((List.range 17).findSome? fun n => candidate? tie rank (n + 1)).getD (exact rank)
    d.strip (decimalLength d.coefficient)

end Shortest

end PushMetrics.Number
