import PushMetrics.Number.Shortest

/-!
# Layouts of numbers

How the digits of a number are set out: with a point among them, or as one digit, a fraction and an
exponent. A layout says which exponents are written with the point in place, what follows a whole
number, and which of two equally near decimals is shown.
-/

namespace PushMetrics.Number

/-- The decisions of a number format. -/
structure Layout where
  /-- Whether a number with this decimal exponent is written without an exponent. -/
  positional : Int → Bool
  /-- What is written after the digits of a whole number. -/
  wholeEnd : List Char
  tie : Tie

namespace Layout

/-- The digits `d₁d₂…` of `d₁.d₂… · 10 ^ exponent` with the point in its place. -/
def place (l : Layout) (digits : List Char) (exponent : Int) : List Char :=
  if exponent < 0 then
    ['0', '.'] ++ List.replicate ((-exponent).toNat - 1) '0' ++ digits
  else if digits.length ≤ exponent.toNat + 1 then
    digits ++ List.replicate (exponent.toNat + 1 - digits.length) '0' ++ l.wholeEnd
  else digits.take (exponent.toNat + 1) ++ '.' :: digits.drop (exponent.toNat + 1)

/-- The digits with an exponent behind them; a positive exponent has its sign. -/
def scale (digits : List Char) (exponent : Int) : List Char :=
  digits.take 1 ++ (if digits.length ≤ 1 then [] else '.' :: digits.drop 1) ++
    'e' :: (if exponent < 0 then ['-'] else ['+']) ++ Nat.toDigits 10 exponent.natAbs

/-- The text of the magnitude with a given rank. -/
def magnitude (l : Layout) (rank : Nat) : List Char :=
  let d := Shortest.decimal l.tie rank
  let digits := d.digits
  let exponent := d.exponent + digits.length - 1
  if l.positional exponent then l.place digits exponent else scale digits exponent

def render (l : Layout) (negative : Bool) (rank : Nat) : List Char :=
  (if negative then ['-'] else []) ++ l.magnitude rank

end Layout

end PushMetrics.Number
