import PushMetrics.Number.Decimal

/-!
# Double precision numbers

The 64-bit binary floating point numbers. A finite one is a sign and its rank among the finite
magnitudes, which is also the bit pattern of the magnitude: a greater rank is a greater number, and
neighbouring ranks are neighbouring numbers. All arithmetic is exact in natural numbers and rounded
once, to the nearest number, ties to the even rank.
-/

namespace PushMetrics.Number

/-- The rank that follows the largest finite magnitude. -/
abbrev infinityRank : Nat := 0x7FF0000000000000

inductive Binary64 where
  | nan
  | infinite (negative : Bool)
  | finite (negative : Bool) (rank : Fin infinityRank)
deriving DecidableEq, Repr, Inhabited

/-- The quotient rounded to the nearest integer, a half to the even one. -/
def roundHalfEven (num den : Nat) : Nat :=
  let q := num / den
  let r := num % den
  if den < 2 * r ∨ (den = 2 * r ∧ q % 2 = 1) then q + 1 else q

namespace Binary64

/-! ## Magnitudes -/

/-- The magnitude of a rank, counted in units of `2 ^ -1074`. -/
def units (rank : Nat) : Nat :=
  if rank < twoPow 52 then rank else (twoPow 52 + rank % twoPow 52) * twoPow (rank / twoPow 52 - 1)

/-- The rank nearest to `num / den`, not bounded above. -/
def nearestRank (num den : Nat) : Nat :=
  let scaled := num * twoPow 1074
  let shift := Nat.log2 (scaled / den) - 52
  shift * twoPow 52 + roundHalfEven scaled (den * twoPow shift)

/-- The number of a given sign and rank, infinite where the rank leaves the finite range. -/
def ofRank (negative : Bool) (rank : Nat) : Binary64 :=
  if h : rank < infinityRank then finite negative ⟨rank, h⟩ else infinite negative

/-- The number nearest to `± num / den`. -/
def ofRatio (negative : Bool) (num den : Nat) : Binary64 := ofRank negative (nearestRank num den)

/-- The number nearest to a decimal. Far out of range the answer is known without the power of ten. -/
def ofDecimal (d : Decimal) : Binary64 :=
  if d.coefficient = 0 then ofRank d.negative 0
  else if 400 < d.exponent then infinite d.negative
  else if d.exponent + Nat.log2 d.coefficient + 1 < -400 then ofRank d.negative 0
  else if 0 ≤ d.exponent then ofRatio d.negative (d.coefficient * tenPow d.exponent.toNat) 1
  else ofRatio d.negative d.coefficient (tenPow (-d.exponent).toNat)

def ofInt (n : Int) : Binary64 := ofRatio (n < 0) n.natAbs 1

/-- The bit pattern: sign, exponent field and fraction. -/
def toBits : Binary64 → Nat
  | nan => 0x7FF8000000000000
  | infinite negative => (if negative then twoPow 63 else 0) + infinityRank
  | finite negative rank => (if negative then twoPow 63 else 0) + rank.val

/-! ## Tests -/

def isFinite : Binary64 → Bool
  | finite _ _ => true
  | _ => false

/-! ## Arithmetic -/

def signOf : Binary64 → Bool
  | nan => false
  | infinite n => n
  | finite n _ => n

/-- The signed magnitude of a finite number in units of `2 ^ -1074`. -/
def signedUnits (negative : Bool) (rank : Nat) : Int :=
  if negative then -(units rank : Int) else units rank

def add : Binary64 → Binary64 → Binary64
  | nan, _ | _, nan => nan
  | infinite n, infinite m => if n = m then infinite n else nan
  | infinite n, _ | _, infinite n => infinite n
  | finite n r, finite m s =>
    let sum := signedUnits n r + signedUnits m s
    ofRatio (sum < 0 || (sum == 0 && n && m)) sum.natAbs (twoPow 1074)

def mul : Binary64 → Binary64 → Binary64
  | nan, _ | _, nan => nan
  | infinite n, y => match y with
    | finite m r => if r.val = 0 then nan else infinite (n != m)
    | y => infinite (n != y.signOf)
  | finite n r, infinite m => if r.val = 0 then nan else infinite (n != m)
  | finite n r, finite m s => ofRatio (n != m) (units r * units s) (twoPow 2148)

def div : Binary64 → Binary64 → Binary64
  | nan, _ | _, nan => nan
  | infinite _, infinite _ => nan
  | infinite n, finite m _ => infinite (n != m)
  | finite n _, infinite m => ofRank (n != m) 0
  | finite n r, finite m s =>
    if s.val = 0 then (if r.val = 0 then nan else infinite (n != m))
    else ofRatio (n != m) (units r) (units s)

/-- The power with a natural exponent by repeated squaring, from the lowest bit of the exponent up. -/
def powFrom (acc base : Binary64) (exponent : Nat) : Binary64 :=
  let acc := if exponent % 2 = 1 then acc.mul base else acc
  if exponent / 2 = 0 then acc else powFrom acc (base.mul base) (exponent / 2)
termination_by exponent

def pow (base : Binary64) (exponent : Nat) : Binary64 := powFrom (ofInt 1) base exponent

/-- The number without its fraction, or nothing for one that is not finite. -/
def truncate? : Binary64 → Option Int
  | finite n r =>
    let whole : Int := (units r.val / twoPow 1074 : Nat)
    some (if n then -whole else whole)
  | _ => none

/-- The number without its fraction, held within the bounds of a signed 64-bit integer. A NaN gives zero. -/
def toInt64 : Binary64 → Int64
  | nan => 0
  | infinite n => if n then Int64.minValue else Int64.maxValue
  | x@(finite _ _) => Int64.ofInt (max Int64.minValue.toInt (min Int64.maxValue.toInt (x.truncate?.getD 0)))

end Binary64

end PushMetrics.Number
