import PushMetrics.Number.Integer

/-!
# Decimal numbers

A decimal is a coefficient times a power of ten, with a sign that zero has too. A text is read as an
optional sign, digits with an optional point among them, and an optional exponent.
-/

namespace PushMetrics.Number

/-- The number `± coefficient · 10 ^ exponent`. -/
structure Decimal where
  negative : Bool
  coefficient : Nat
  exponent : Int
deriving DecidableEq, Repr

namespace Decimal

/-- The digits `whole.fraction` scaled by a power of ten. -/
def ofDigits (negative : Bool) (whole fraction : List Char) (exponent : Int) : Decimal :=
  ⟨negative, digitsValue (whole ++ fraction), exponent - fraction.length⟩

def exponent? : List Char → Option Int
  | [] => some 0
  | c :: rest =>
    if c = 'e' ∨ c = 'E' then
      let (negative, digits) := takeSign rest
      if isDigits digits then
        some (if negative then -(digitsValue digits : Int) else digitsValue digits)
      else none
    else none

/-- The digits after a point, if there is one, and what follows them. -/
def takeFraction : List Char → List Char × List Char
  | '.' :: rest => rest.span Char.isDigit
  | cs => ([], cs)

/-- Reads a decimal; at least one digit stands before the exponent. -/
def read? (cs : List Char) : Option Decimal :=
  let (negative, body) := takeSign cs
  let (whole, rest) := body.span Char.isDigit
  let (fraction, rest) := takeFraction rest
  if whole.isEmpty && fraction.isEmpty then none
  else (exponent? rest).map (ofDigits negative whole fraction)

/-- Moves zeros at the end of the coefficient into the exponent, at most `fuel` of them. -/
def strip : Nat → Decimal → Decimal
  | 0, d => d
  | fuel + 1, d =>
    if d.coefficient ≠ 0 ∧ d.coefficient % 10 = 0 then
      strip fuel { d with coefficient := d.coefficient / 10, exponent := d.exponent + 1 }
    else d

def digits (d : Decimal) : List Char := Nat.toDigits 10 d.coefficient

end Decimal

end PushMetrics.Number
