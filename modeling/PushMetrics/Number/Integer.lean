/-!
# Whole numbers in text

Runs of ASCII digits and their value, and integers with an optional sign. Leading zeros are allowed.
-/

namespace PushMetrics.Number

def twoPow (n : Nat) : Nat := Nat.pow 2 n

def tenPow (n : Nat) : Nat := Nat.pow 10 n

/-- The value of a run of digits, read from the left. -/
def digitsValue (cs : List Char) : Nat := cs.foldl (fun n c => 10 * n + (c.toNat - '0'.toNat)) 0

def isDigits (cs : List Char) : Bool := !cs.isEmpty && cs.all Char.isDigit

/-- A natural number, which a plus sign may precede. -/
def natural? (s : String) : Option Nat :=
  let digits := match s.toList with
    | '+' :: rest => rest
    | cs => cs
  if isDigits digits then some (digitsValue digits) else none

def word? (bits : Nat) (s : String) : Option Nat := (natural? s).filter (· < twoPow bits)

/-- An optional sign and what follows it; the flag tells a minus. -/
def takeSign : List Char → Bool × List Char
  | '-' :: rest => (true, rest)
  | '+' :: rest => (false, rest)
  | cs => (false, cs)

def integer? (s : String) : Option Int :=
  let (negative, digits) := takeSign s.toList
  if isDigits digits then
    some (if negative then -(digitsValue digits : Int) else digitsValue digits)
  else none

def int64? (s : String) : Option Int64 := do
  let n ← integer? s
  if Int64.minValue.toInt ≤ n ∧ n ≤ Int64.maxValue.toInt then some (Int64.ofInt n) else none

/-! ## Writing -/

def naturalText (n : Nat) : String := String.ofList (Nat.toDigits 10 n)

/-- An integer in digits, with a minus sign if it is below zero. -/
def integerText (n : Int) : String :=
  String.ofList ((if n < 0 then ['-'] else []) ++ Nat.toDigits 10 n.natAbs)

end PushMetrics.Number
