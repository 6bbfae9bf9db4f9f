import PushMetrics.Proofs.Number.Accuracy
import Mathlib.Data.Rat.Floor

/-!
# Truncation

What is left of a number without its fraction, held within the bounds of 64 bits.
-/

namespace PushMetrics.Number.Binary64

/-- The signed magnitude of a finite number. -/
def value (negative : Bool) (rank : Nat) : ℚ := if negative then -magnitude rank else magnitude rank

/-- An integer is the one nearest to a number of those between it and zero, or the bound that the number is beyond. -/
def CutsTo : Binary64 → Int64 → Prop
  | nan, n => n = 0
  | infinite negative, n => n = if negative then Int64.minValue else Int64.maxValue
  | finite negative rank, n =>
    let whole := if value negative rank < 0 then ⌈value negative rank⌉ else ⌊value negative rank⌋
    n.toInt = max Int64.minValue.toInt (min Int64.maxValue.toInt whole)

theorem floor_magnitude (rank : Nat) : ⌊magnitude rank⌋ = (units rank / twoPow 1074 : Nat) := by
  rw [magnitude, Rat.floor_natCast_div_natCast]
  exact (Int.natCast_ediv _ _).symm

theorem truncate?_finite (negative : Bool) (rank : Fin infinityRank) :
    (finite negative rank).truncate? =
      some (if value negative rank < 0 then ⌈value negative rank⌉ else ⌊value negative rank⌋) := by
  have hcut : (finite negative rank).truncate? =
      some (if negative then -⌊magnitude rank.val⌋ else ⌊magnitude rank.val⌋) := by
    rw [floor_magnitude]
    rfl
  have hnonneg := magnitude_nonneg rank.val
  rw [hcut]
  cases negative with
  | false => simp [value, not_lt.2 hnonneg]
  | true =>
      rcases hnonneg.eq_or_lt with hzero | hpos
      · simp [value, ← hzero]
      · simp [value, Int.ceil_neg, hpos]

theorem toInt_ofInt_bounded (n : Int) :
    (Int64.ofInt (max Int64.minValue.toInt (min Int64.maxValue.toInt n))).toInt =
      max Int64.minValue.toInt (min Int64.maxValue.toInt n) := by
  have hmin : Int64.minValue.toInt = -2 ^ 63 := rfl
  have hmax : Int64.maxValue.toInt = 2 ^ 63 - 1 := rfl
  exact Int64.toInt_ofInt_of_le (by omega) (by omega)

theorem toInt64_cuts (x : Binary64) : x.CutsTo x.toInt64 := by
  cases x with
  | nan => rfl
  | infinite negative => rfl
  | finite negative rank =>
      simp only [CutsTo, toInt64, truncate?_finite, Option.getD_some]
      exact toInt_ofInt_bounded _

theorem CutsTo.eq {x : Binary64} {m n : Int64} (hm : x.CutsTo m) (hn : x.CutsTo n) : m = n := by
  cases x with
  | nan => exact Eq.trans hm hn.symm
  | infinite negative => exact Eq.trans hm hn.symm
  | finite negative rank => exact Int64.toInt_inj.1 (Eq.trans hm hn.symm)

end PushMetrics.Number.Binary64
