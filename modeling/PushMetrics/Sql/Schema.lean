import PushMetrics.Dict
import PushMetrics.Store.Error

/-!
# The database

One table of metrics with a row per name, and the version of its schema. A row keeps the value as a double
precision number; from version 2 on a counter's count stands in a column of its own, because the value loses
precision past 2⁵³.
-/

namespace PushMetrics.Sql

open Number

structure Row where
  tag : String
  value : Binary64
  delta : Option Int64
deriving DecidableEq, Repr

/-- The metric table: whether it has the column for counts, and its rows in the order of insertion. -/
structure Table where
  hasDelta : Bool
  rows : Dict String Row

/-- A database. The version is the greatest one recorded, zero if none is. -/
structure Database where
  version : Nat
  table : Option Table
  /-- Names whose insertion is rejected. -/
  rejected : List String

namespace Database

def empty : Database := ⟨0, none, []⟩

/-! ## Values of a column -/

/-- A double precision number as a column keeps it: zero has no sign. A NaN is no value. -/
def column? : Binary64 → Option Binary64
  | .nan => none
  | .finite negative rank => some (.finite (negative && rank.val != 0) rank)
  | x => some x

/-- The conversion of a double precision column to an integer: of the integers between the number and zero, the one
closest to the number. A number beyond 64 bits becomes the bound that it is beyond. -/
def castInteger : Binary64 → Int64
  | .nan => 0
  | .infinite negative => if negative then Int64.minValue else Int64.maxValue
  | .finite negative rank =>
    let units := Binary64.signedUnits negative rank
    if Int64.maxValue.toInt * twoPow 1074 < units then Int64.maxValue
    else if units < Int64.minValue.toInt * twoPow 1074 then Int64.minValue
    else Int64.ofInt (units.tdiv (twoPow 1074))

end Database

/-! ## Rows and metrics -/

/-- The row of a metric; a counter's count stands in the value too. -/
def Row.ofSample : Sample → Row
  | .gauge value => ⟨Kind.gauge.tag, value, none⟩
  | .counter count => ⟨Kind.counter.tag, Binary64.ofInt count.toInt, some count⟩

/-- The sample of a row. A counter without a count has its value without the fraction. -/
def Row.toSample (r : Row) : Except DatabaseFault Sample :=
  match Kind.parse r.tag with
  | .error e => .error (.badRow e)
  | .ok .gauge => .ok (.gauge r.value)
  | .ok .counter => .ok (.counter (r.delta.getD r.value.toInt64))

end PushMetrics.Sql
